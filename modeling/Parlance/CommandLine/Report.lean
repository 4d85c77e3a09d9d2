import Parlance.Arguments.Form
import Parlance.CommandLine.Request
import Parlance.Engine.Dispatch
import Parlance.Engine.Suggest
import Parlance.Engine.Tree
import Parlance.File

/-!
# Reports

What the program prints in answer to a request. An action here is only told of:
each run is a line of JSON.
-/

set_option autoImplicit false

namespace Parlance.CommandLine

/-- Lines for the two outputs, and whether the request was fulfilled. -/
structure Report where
  output : List String := []
  diagnostics : List String := []
  isSuccess : Bool := true
  deriving DecidableEq, Repr, Inhabited

namespace Report

/-- A report of failure, with what was printed before. -/
def failed (message : String) (output diagnostics : List String) : Report where
  output := output
  diagnostics := diagnostics ++ ["error: " ++ message]
  isSuccess := false

/-- The code with which the program ends. -/
def code (report : Report) : UInt8 :=
  if report.isSuccess then 0 else 1

end Report

/-- The code for a command line that makes no request. -/
def misuseCode : UInt8 := 2

/-- The text of a file under its path. -/
abbrev Files := String → Except FileError String

/-! ## Loading -/

/-- What is wrong with a file, in words; the cause of a missing file is told
twice, as part of the error and as its reason. -/
def loadMessage (kind path : String) (e : FileError) : String :=
  let reason :=
    match e with
    | .unavailable reason => ": " ++ reason
    | .malformed _ reason => ": " ++ reason
  "failed to load " ++ kind ++ " " ++ path ++ ": " ++ e.message ++ reason

/-- Reads and interprets a file. -/
def load {α : Type} (files : Files) (kind path : String)
    (interpret : Notation → String → Except FileError α) : Except String α :=
  ((files path).bind (interpret (.ofPath path))).mapError (loadMessage kind path)

/-- The settings and the tree that a request asks for. -/
def Request.inputs (request : Request) (files : Files) :
    Except String (Config × TreeDefinition) := do
  let config ←
    match request.config with
    | some path => load files "config" path Config.ofText
    | none => .ok {}
  let tree ← load files "tree" request.tree TreeDefinition.ofText
  return (config, tree)

/-- The source that a request acts for. -/
def Request.source (request : Request) : Source :=
  if request.permissions.isEmpty then .console else .holding "cli" request.permissions

/-! ## Tasks -/

/-- A run in one line. -/
def runLine (call : Call Unit) : String :=
  Json.write .compact (.ofFields [
    ("path", .ofTexts call.path),
    ("usage", .text call.usage.compact),
    ("arguments", call.arguments.form)])

/-- The lines for the runs among events. -/
def runLines (events : List (Event Unit)) : List String :=
  events.filterMap fun event =>
    match event with
    | .performed _ call _ => some (runLine call)
    | _ => none

/-- The commands by name, with their descriptions. -/
def checkReport (engine : Engine Unit) : Report where
  output := engine.commands.map fun root =>
    match root.description with
    | some description => root.name ++ "\t" ++ description
    | none => root.name
  diagnostics := [toString engine.commands.length ++ " command(s) registered"]

/-- The usages of a command. -/
def usagesReport (engine : Engine Unit) (label : String) : Report :=
  match engine.usages label with
  | [] => .failed ("unknown command '" ++ label ++ "'") [] []
  | lines => { output := lines }

/-- What a dispatch came to. -/
def dispatchReport (engine : Engine Unit) (source : Source) (label : String)
    (tokens : List String) : Report :=
  let step := engine.dispatch (fun _ _ => .ok ()) source label tokens
  let output := runLines step.events
  match step.answer with
  | .error e => .failed e.message output []
  | .ok (.complete _) => { output }
  | .ok (.incomplete invocation) =>
    { output
      diagnostics :=
        ["incomplete: ran default usage of '" ++ " ".intercalate invocation.path ++ "'"] }
  | .ok (.failure failure) =>
    let place :=
      match failure.lastMatched with
      | some name => " after <" ++ name ++ ">"
      | none => ""
    .failed ("invalid arguments for '" ++ failure.command ++ "'" ++ place) output
      ("usage:" :: failure.usages.map ("  " ++ ·))

/-- Completions, a line for each or all in one. -/
def suggestReport (engine : Engine Unit) (source : Source) (asJson : Bool) (label : String)
    (tokens : List String) : Report :=
  let found := engine.suggest source label tokens
  { output := if asJson then [Json.write .compact (.ofTexts found)] else found }

/-- Fulfils a request. Nothing is done unless all commands of the tree can be
registered. -/
def Request.report (request : Request) (files : Files) : Report :=
  match request.inputs files with
  | .error message => .failed message [] []
  | .ok (config, tree) =>
    let (engine, errors) := Engine.registerTree { config } (some ()) tree
    match errors with
    | first :: _ =>
      .failed (toString errors.length ++ " command(s) rejected, first: " ++ first.message) []
        (errors.map fun e => "  " ++ e.message)
    | [] =>
      match request.task with
      | .check => checkReport engine
      | .usages label => usagesReport engine label
      | .dispatch label tokens => dispatchReport engine request.source label tokens
      | .suggest asJson label tokens => suggestReport engine request.source asJson label tokens

end Parlance.CommandLine
