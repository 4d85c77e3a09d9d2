import Parlance.Parameter
import Parlance.Text.Cut

/-!
# Compact elements

A parameter written as one word without blanks.

* `add` or `add|a`: a fixed word with aliases;
* `<name>` or `<name:type>`: a required value;
* `[name]` or `[name:type=fallback]`: an optional value;
* `<name...>` or `[name...]`: a greedy text, in square brackets with a fallback;
* `[-name|alias]` or `[-name|alias:type=fallback]`: a switch or a flag.

Types are written by name, and as a list of words in braces for a choice; any
other name is a custom type.
-/

set_option autoImplicit false

namespace Parlance

open Text

/-! ## Writing -/

/-- The fallback behind an equals sign, if it can be shown. -/
def Fallback.suffix (fallback : Option Fallback) : String :=
  match fallback.bind Fallback.shown? with
  | some text => "=" ++ text
  | none => ""

/-- The type behind a colon; strings are understood. -/
def ValueType.suffix (type : ValueType) : String :=
  match type with
  | .string => ""
  | other => ":" ++ other.name

/-- Names separated by bars. -/
def barred (names : List String) : String :=
  "|".intercalate names

/-- The parameter as one compact element. -/
def Parameter.element (p : Parameter) : String :=
  match p.kind with
  | .literal aliases => barred (p.name :: aliases)
  | .required type => "<" ++ p.name ++ type.suffix ++ ">"
  | .optional type fallback => "[" ++ p.name ++ type.suffix ++ Fallback.suffix fallback ++ "]"
  | .greedy none => "<" ++ p.name ++ "...>"
  | .greedy (some _) => "[" ++ p.name ++ "...]"
  | .flag aliases none _ => "[-" ++ barred (p.name :: aliases) ++ "]"
  | .flag aliases (some type) fallback =>
    "[-" ++ barred (p.name :: aliases) ++ ":" ++ type.name ++ Fallback.suffix fallback ++ "]"

/-! ## Reading -/

/-- Names between bars. -/
def unbarred (names : List Char) : List String :=
  (fields (· == '|') names).map String.ofList

/-- The words of a choice between its braces, empty ones left out. -/
def choiceWords (body : List Char) : List String :=
  ((fields (· == ',') body).filter fun w => !w.isEmpty).map String.ofList

/-- What stands between braces. -/
def braced? : List Char → Option (List Char)
  | '\x7b' :: cs => before? ['\x7d'] cs
  | _ => none

/-- The type that a text names; none if it is empty or a choice without words. -/
def ValueType.ofText? (text : List Char) : Option ValueType :=
  match smallLetters (String.ofList text) with
  | "" => none
  | "string" | "text" => some .string
  | "word" => some .word
  | "integer" | "int" => some .integer
  | "float" | "number" => some .float
  | "boolean" | "bool" => some .boolean
  | "duration" => some .duration
  | _ =>
    match braced? text with
    | none => some (.custom (String.ofList text))
    | some body =>
      match choiceWords body with
      | [] => none
      | words => some (.choice words)

/-- What a bracketed element consists of: names, a type behind the first colon
of the part before the first equals sign, and a fallback behind that sign. -/
structure ElementBody where
  /-- Angled brackets, of values that must be given. -/
  angled : Bool
  names : List Char
  type : Option ValueType
  fallback : Option Fallback
  deriving Inhabited

namespace ElementBody

/-- Takes the text between the brackets apart; none if the type is malformed. -/
def ofList? (angled : Bool) (body : List Char) : Option ElementBody :=
  let (head, fallback) :=
    match cutAt '=' body with
    | some (head, token) => (head, some (Fallback.raw (String.ofList token)))
    | none => (body, none)
  match cutAt ':' head with
  | none => some { angled, names := head, type := none, fallback }
  | some (names, text) =>
    (ValueType.ofText? text).map fun type => { angled, names, type := some type, fallback }

/-- A flag, whose names follow one dash or more; never in angled brackets. -/
def flag? (b : ElementBody) (names : List Char) : Option Parameter :=
  match unbarred (names.dropWhile (· == '-')) with
  | [] => none
  | name :: aliases =>
    if b.angled || name == "" then none
    else some { name, kind := .flag aliases b.type b.fallback }

/-- A greedy parameter, which has no type; in square brackets it has a fallback,
the empty text if none is written. -/
def greedy? (b : ElementBody) (name : List Char) : Option Parameter :=
  if name.isEmpty || b.type.isSome then none
  else
    let fallback := if b.angled then none else some (b.fallback.getD (.value (.text "")))
    some { name := String.ofList name, kind := .greedy fallback }

/-- A required value, which has no fallback, or an optional one. -/
def value? (b : ElementBody) : Option Parameter :=
  if b.names.isEmpty || b.names.contains '|' then none
  else
    let name := String.ofList b.names
    let type := b.type.getD .string
    if b.angled then
      if b.fallback.isSome then none else some { name, kind := .required type }
    else some { name, kind := .optional type b.fallback }

/-- The parameter that a bracketed element describes. -/
def parameter? (b : ElementBody) : Option Parameter :=
  match b.names with
  | '-' :: names => b.flag? names
  | names =>
    match before? ['.', '.', '.'] names with
    | some name => b.greedy? name
    | none => b.value?

end ElementBody

/-- The fixed word that an element without brackets describes. -/
def Parameter.literal? (element : List Char) : Option Parameter :=
  match unbarred element with
  | [] => none
  | name :: aliases => if name == "" then none else some { name, kind := .literal aliases }

/-- The parameter that an element describes, if it is well formed. -/
def Parameter.ofElement? (element : String) : Option Parameter :=
  match element.toList with
  | '<' :: cs => do (← ElementBody.ofList? true (← before? ['>'] cs)).parameter?
  | '[' :: cs => do (← ElementBody.ofList? false (← before? [']'] cs)).parameter?
  | cs => Parameter.literal? cs

end Parlance
