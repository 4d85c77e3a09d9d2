import Parlance.Text.Cut

/-!
# Requests

What the words of a command line ask for. Options come before the task or right
behind it; from the first token on all words are tokens, whatever they look
like.
-/

set_option autoImplicit false

namespace Parlance.CommandLine

/-! ## Options -/

/-- The options of a part of the line. -/
structure Options where
  tree : Option String := none
  config : Option String := none
  logLevel : Option String := none
  permissions : List String := []
  deriving DecidableEq, Repr, Inhabited

namespace Options

/-- The name is that of an option. -/
def isName (name : String) : Bool :=
  ["tree", "config", "log-level", "permission"].contains name

/-- Sets an option. Only permissions may be given more than once, and the names
of files are not empty. -/
def put? (options : Options) (name value : String) : Option Options :=
  match name with
  | "tree" =>
    if options.tree.isSome || value == "" then none else some { options with tree := value }
  | "config" =>
    if options.config.isSome || value == "" then none else some { options with config := value }
  | "log-level" =>
    if options.logLevel.isSome then none else some { options with logLevel := value }
  | "permission" => some { options with permissions := options.permissions ++ [value] }
  | _ => none

/-- The options of a part of the line, where a later part goes first. -/
def or (later options : Options) : Options where
  tree := later.tree <|> options.tree
  config := later.config <|> options.config
  logLevel := later.logLevel <|> options.logLevel
  permissions := if later.permissions.isEmpty then options.permissions else later.permissions

end Options

/-- The name behind two dashes, and the value behind an equals sign. -/
def longName? (word : String) : Option (String × Option String) :=
  match word.toList with
  | '-' :: '-' :: c :: cs =>
    match Text.cutAt '=' (c :: cs) with
    | some (name, value) => some (String.ofList name, some (String.ofList value))
    | none => some (String.ofList (c :: cs), none)
  | _ => none

/-- The word begins with a dash and is more than that. -/
def isDashed (word : String) : Bool :=
  match word.toList with
  | '-' :: _ :: _ => true
  | _ => false

/-- The options at the beginning of the words, and the words behind them; none
if an option is malformed. -/
def readOptions (options : Options) : List String → Option (Options × List String)
  | [] => some (options, [])
  | word :: words =>
    match longName? word with
    | some (name, some value) =>
      (options.put? name value).bind fun options => readOptions options words
    | some (name, none) =>
      match words with
      | [] => none
      | value :: rest =>
        if isDashed value then none
        else (options.put? name value).bind fun options => readOptions options rest
    | none => some (options, word :: words)

/-! ## Tasks -/

/-- What to do with the commands of a tree. -/
inductive Task where
  /-- Register them. -/
  | check
  /-- List the usages of one. -/
  | usages (label : String)
  /-- Run one. -/
  | dispatch (label : String) (tokens : List String)
  /-- Complete the last token behind one. -/
  | suggest (asJson : Bool) (label : String) (tokens : List String)
  deriving DecidableEq, Repr, Inhabited

/-- What may follow the name of a task. -/
structure Shape where
  takesLabel : Bool := true
  takesTokens : Bool := false
  /-- The switch `--json`. -/
  takesJson : Bool := false
  deriving DecidableEq, Repr, Inhabited

/-- The shapes of the tasks by name. -/
def Shape.ofName? : String → Option Shape
  | "check" => some { takesLabel := false }
  | "usages" => some {}
  | "dispatch" => some { takesTokens := true }
  | "suggest" => some { takesTokens := true, takesJson := true }
  | _ => none

/-- What was found behind the name of a task. -/
structure Found where
  options : Options := {}
  asJson : Bool := false
  label : Option String := none
  tokens : List String := []
  deriving DecidableEq, Repr, Inhabited

/-- Words of which none is an option: the label, unless it is known, and
tokens. -/
def Found.addPlain (shape : Shape) (found : Found) (words : List String) : Option Found :=
  match found.label, words with
  | some _, [] => some found
  | some _, tokens => if shape.takesTokens then some { found with tokens } else none
  | none, [] => some found
  | none, label :: tokens =>
    if !shape.takesLabel || (!shape.takesTokens && !tokens.isEmpty) then none
    else some { found with label, tokens }

/-- Takes the words behind the name of a task. -/
def readTask (shape : Shape) (found : Found) : List String → Option Found
  | [] => some found
  | word :: words =>
    if word = "--" then found.addPlain shape words
    else
      match longName? word with
      | some ("json", value) =>
        if shape.takesJson then
          if found.asJson || value.isSome then none
          else readTask shape { found with asJson := true } words
        else if found.label.isSome then found.addPlain shape (word :: words)
        else none
      | some (name, value) =>
        if Options.isName name then
          match value with
          | some value =>
            (found.options.put? name value).bind fun options =>
              readTask shape { found with options } words
          | none =>
            match words with
            | [] => none
            | value :: rest =>
              if isDashed value then none
              else
                (found.options.put? name value).bind fun options =>
                  readTask shape { found with options } rest
        else if found.label.isSome then found.addPlain shape (word :: words)
        else none
      | none =>
        if found.label.isSome then found.addPlain shape (word :: words)
        else if isDashed word || !shape.takesLabel then none
        else readTask shape { found with label := word } words

/-- The task of a name with what was found behind it. -/
def Task.ofFound? (name : String) (found : Found) : Option Task :=
  match name, found.label with
  | "check", _ => some .check
  | "usages", some label => some (.usages label)
  | "dispatch", some label => some (.dispatch label found.tokens)
  | "suggest", some label => some (.suggest found.asJson label found.tokens)
  | _, _ => none

/-! ## Requests -/

/-- A task, and where to find what it needs. -/
structure Request where
  /-- Path of the command tree. -/
  tree : String := "commands.yaml"
  /-- Path of the settings. -/
  config : Option String := none
  /-- The permissions to act with; none for the console, which has all. -/
  permissions : List String := []
  task : Task
  deriving DecidableEq, Repr, Inhabited

/-- The request that the words of a command line make, if they make one. -/
def Request.ofWords? (words : List String) : Option Request := do
  let (before, rest) ← readOptions {} words
  let name :: rest := rest | none
  let shape ← Shape.ofName? name
  let found ← readTask shape {} rest
  let task ← Task.ofFound? name found
  let options := found.options.or before
  return {
    tree := options.tree.getD "commands.yaml"
    config := options.config
    permissions := options.permissions
    task }

end Parlance.CommandLine
