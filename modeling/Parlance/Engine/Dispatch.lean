import Parlance.Engine.Registry
import Parlance.Resolution
import Parlance.Selection

/-!
# Dispatch

From a label and tokens to an action that runs. Permissions are checked first,
then the gate is asked, then the arguments are resolved; only then does the
action run, and only a run that succeeds is recorded. Everything that another
party could notice is an event.
-/

set_option autoImplicit false

namespace Parlance

variable {Act : Type}

/-! ## Errors -/

/-- Why a dispatch does not run a usage. -/
inductive DispatchError where
  /-- No command has the label. -/
  | unknownCommand (label : String)
  /-- The source lacks a permission. -/
  | permissionDenied (permission : String)
  /-- The gate holds the command back. -/
  | onCooldown (command : String)
  /-- The tokens do not become arguments. -/
  | resolution (error : ResolutionError)
  /-- The action failed; its causes stand from the outermost to the innermost. -/
  | actionFailed (command : String) (causes : List String)
  deriving DecidableEq, Repr, Inhabited

/-- The error in words. -/
def DispatchError.message : DispatchError → String
  | unknownCommand label => "unknown command: " ++ label
  | permissionDenied permission => "missing permission: " ++ permission
  | onCooldown command => "command '" ++ command ++ "' is on cooldown"
  | resolution error => error.message
  | actionFailed command causes =>
    "handler for '" ++ command ++ "' failed: " ++ ": ".intercalate causes

/-! ## Outcomes -/

/-- A resolved usage, ready to run. -/
structure Invocation (Act : Type) where
  /-- The word by which the command was called. -/
  label : String
  path : List String
  usage : Usage Act
  arguments : Arguments
  /-- Index of the gate in force. -/
  gate : Option Nat

/-- Why nothing matched. -/
structure Failure where
  command : String
  /-- Name of the deepest parameter that accepted a token. -/
  lastMatched : Option String
  /-- Every usage of the command. -/
  usages : List String
  deriving DecidableEq, Repr, Inhabited

/-- What a dispatch comes to. -/
inductive Outcome (Act : Type) where
  /-- A usage matched. -/
  | complete (invocation : Invocation Act)
  /-- Only a subcommand matched, and its default usage applies. -/
  | incomplete (invocation : Invocation Act)
  /-- Nothing matched. -/
  | failure (failure : Failure)

/-- The invocation of the outcome, if there is one. -/
def Outcome.invocation? : Outcome Act → Option (Invocation Act)
  | complete invocation => some invocation
  | incomplete invocation => some invocation
  | failure _ => none

/-! ## Events -/

/-- What an action gets to see. -/
structure Call (Act : Type) where
  source : Source
  label : String
  path : List String
  usage : Usage Act
  arguments : Arguments

/-- How the host performs an action; a failure is told by its causes. -/
abbrev Performer (Act : Type) := Act → Call Act → Except (List String) Unit

/-- What happens during a dispatch, apart from its answer. -/
inductive Event (Act : Type) where
  /-- The gate of an index was asked about a run. -/
  | asked (gate : Nat) (run : Run Act)
  /-- An action ran and answered. -/
  | performed (act : Act) (call : Call Act) (answer : Except (List String) Unit)
  /-- The gate of an index was told of a run. -/
  | recorded (gate : Nat) (run : Run Act)

/-- An engine after a step, what happened during the step, and its answer. -/
structure Step (Act α : Type) where
  engine : Engine Act
  events : List (Event Act) := []
  answer : Except DispatchError α

/-! ## Permissions -/

/-- Permissions of the node and of those below it that the names lead to. -/
def permissionsAlong (node : Node Act) : List String → List String
  | [] => node.permission.toList
  | name :: names =>
    node.permission.toList ++
      match node.child? name true with
      | some child => permissionsAlong child names
      | none => []

/-- Permissions asked of whoever runs the usage at the path, in the order in
which they are checked. -/
def permissionsFor (root : Node Act) (path : List String) (usage : Usage Act) : List String :=
  permissionsAlong root (path.drop 1) ++ usage.permission.toList

namespace Engine

/-! ## Preparing -/

/-- Resolves a selected usage, once permissions and the gate allow it. -/
def allow (engine : Engine Act) (source : Source) (root node : Node Act) (usage : Usage Act)
    (trailing : Trailing) (label : String) (tokens : List String) :
    List (Event Act) × Except DispatchError (Invocation Act) :=
  match (permissionsFor root node.path usage).find? fun permission => !source.holds permission with
  | some permission => ([], .error (.permissionDenied permission))
  | none =>
    let run : Run Act := { source, path := node.path, usage }
    let events := engine.gateInForce?.toList.map fun index => Event.asked index run
    if engine.isHeldBack run then (events, .error (.onCooldown (" ".intercalate node.path)))
    else
      match engine.matcher.resolve source node usage tokens trailing with
      | .error e => (events, .error (.resolution e))
      | .ok arguments =>
        (events, .ok { label, path := node.path, usage, arguments, gate := engine.gateInForce? })

/-- Selects and resolves a usage without running it. -/
def prepare (engine : Engine Act) (source : Source) (label : String) (tokens : List String) :
    List (Event Act) × Except DispatchError (Outcome Act) :=
  match engine.command? label with
  | none => ([], .error (.unknownCommand label))
  | some root =>
    let found := engine.matcher.select root tokens
    match found.selection with
    | .failure _ =>
      let failure : Failure :=
        { command := root.name
          lastMatched := found.lastMatched.map Parameter.name
          usages := usageLines root }
      ([], .ok (.failure failure))
    | .complete node usage =>
      let (events, answer) := engine.allow source root node usage .reject label tokens
      (events, answer.map .complete)
    | .incomplete node =>
      let (events, answer) :=
        engine.allow source root node node.effectiveDefault .ignore label tokens
      (events, answer.map .incomplete)

/-! ## Running -/

/-- Runs the action of an invocation, if its usage has one, and has the gate
record the run if it succeeds. -/
def execute (engine : Engine Act) (perform : Performer Act) (invocation : Invocation Act)
    (source : Source) : Step Act Unit :=
  match invocation.usage.action with
  | none => { engine, answer := .ok () }
  | some act =>
    let call : Call Act :=
      { source
        label := invocation.label
        path := invocation.path
        usage := invocation.usage
        arguments := invocation.arguments }
    let answer := perform act call
    let ran := Event.performed act call answer
    match answer with
    | .error causes =>
      { engine
        events := [ran]
        answer := .error (.actionFailed (" ".intercalate invocation.path) causes) }
    | .ok () =>
      match invocation.gate with
      | none => { engine, events := [ran], answer := .ok () }
      | some index =>
        let run : Run Act := { source, path := invocation.path, usage := invocation.usage }
        { engine := engine.record index run
          events := [ran, .recorded index run]
          answer := .ok () }

/-- Selects, resolves and runs a usage. -/
def dispatch (engine : Engine Act) (perform : Performer Act) (source : Source) (label : String)
    (tokens : List String) : Step Act (Outcome Act) :=
  let (events, prepared) := engine.prepare source label tokens
  match prepared with
  | .error e => { engine, events, answer := .error e }
  | .ok outcome =>
    match outcome.invocation? with
    | none => { engine, events, answer := .ok outcome }
    | some invocation =>
      let step := engine.execute perform invocation source
      { engine := step.engine
        events := events ++ step.events
        answer := step.answer.map fun _ => outcome }

end Engine

end Parlance
