import Parlance.Config.Form
import Parlance.Definition.Form
import Parlance.Json.Reader
import Parlance.Json.Writer
import Parlance.Yaml.Reader
import Parlance.Yaml.Writer

/-!
# Files

Settings and command trees as texts of files. The name of a file tells its
notation.
-/

set_option autoImplicit false

namespace Parlance

/-! ## Names -/

/-- The last name of a path; none if the path leads upwards or nowhere. -/
def lastName? (path : String) : Option String :=
  let names := (Text.fields (· == '/') path.toList).map String.ofList
  match (names.filter fun name => name != "" && name != ".").getLast? with
  | some ".." => none
  | last => last

/-- What stands behind the last point of a name that has something in front of
it. -/
def ending? (name : String) : Option String :=
  match (Text.fields (· == '.') name.toList).reverse with
  | _ :: [[]] => none
  | ending :: _ :: _ => some (String.ofList ending)
  | _ => none

/-- JSON for the ending `json` in any case, and YAML for all others. -/
def Notation.ofPath (path : String) : Notation :=
  match ((lastName? path).bind ending?).map Text.smallLetters with
  | some "json" => .json
  | _ => .yaml

/-! ## Errors -/

/-- Why a file does not give what is wanted of it. -/
inductive FileError where
  /-- The file cannot be read or written. -/
  | unavailable (reason : String)
  /-- The text is not well formed or describes something else. -/
  | malformed (n : Notation) (reason : String)
  deriving DecidableEq, Repr, Inhabited

/-- The error in words. -/
def FileError.message : FileError → String
  | unavailable reason => "I/O error: " ++ reason
  | malformed .yaml reason => "YAML error: " ++ reason
  | malformed .json reason => "JSON error: " ++ reason

/-! ## Texts -/

/-- How deep lists and records may lie within each other. -/
def Notation.greatestDepth : Notation → Nat
  | .json => 127
  | .yaml => 128

/-- The document that a text writes, if it is not too deep. -/
def Notation.read? (n : Notation) (text : String) : Option Document :=
  let document :=
    match n with
    | .json => Json.read? text
    | .yaml => Yaml.read? text
  document.filter fun d => d.depth ≤ n.greatestDepth

/-- The text of a document. -/
def Notation.write (n : Notation) (document : Document) : String :=
  match n with
  | .json => Json.write .indented document
  | .yaml => Yaml.write document

/-- What a text describes. -/
def Notation.interpret {α : Type} (n : Notation) (describe? : Document → Option α)
    (text : String) : Except FileError α :=
  match n.read? text with
  | none => .error (.malformed n "the text is not well formed")
  | some document =>
    match describe? document with
    | none => .error (.malformed n "the text does not describe what is expected")
    | some value => .ok value

/-- The settings of a file with this text. -/
def Config.ofText (n : Notation) (text : String) : Except FileError Config :=
  n.interpret Config.ofDocument? text

/-- The text of a file for the settings. -/
def Config.text (n : Notation) (config : Config) : String :=
  n.write config.form

/-- The command tree of a file with this text. -/
def TreeDefinition.ofText (n : Notation) (text : String) : Except FileError TreeDefinition :=
  n.interpret (TreeDefinition.ofDocument? n) text

/-- The text of a file for the command tree. -/
def TreeDefinition.text (n : Notation) (tree : TreeDefinition) : String :=
  n.write (tree.form n)

end Parlance
