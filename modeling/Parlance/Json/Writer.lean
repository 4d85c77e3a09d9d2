import Parlance.Decimal.Layout
import Parlance.Document

/-!
# Writing JSON

Compact and indented text of a document. Strings escape the quote, the
backslash and control characters; a number that JSON cannot write is null.
-/

set_option autoImplicit false

namespace Parlance.Json

/-! ## Scalars -/

/-- Numbers in JSON: a fraction always, and an exponent outside of
`10 ^ -5 … 10 ^ 16`. -/
def numberLayout : Decimal.Layout where
  tie := .even
  positional := some (-4, 16)
  wholeEnding := ".0"
  infinity := ""
  undefined := ""

/-- The text of a double. -/
def writeFloat (x : Float) : String :=
  match Decimal.magnitude x with
  | .infinite => "null"
  | .undefined => "null"
  | _ => numberLayout.write x

/-- A digit in base sixteen. -/
def hexDigit (n : Nat) : Char :=
  if n < 10 then Char.ofNat (48 + n) else Char.ofNat (87 + n)

/-- A character within a string. -/
def escape (c : Char) : List Char :=
  if c = '"' then ['\\', '"']
  else if c = '\\' then ['\\', '\\']
  else if c.toNat < 0x20 then
    match c.toNat with
    | 8 => ['\\', 'b']
    | 9 => ['\\', 't']
    | 10 => ['\\', 'n']
    | 12 => ['\\', 'f']
    | 13 => ['\\', 'r']
    | n => ['\\', 'u', '0', '0', hexDigit (n / 16), hexDigit (n % 16)]
  else [c]

/-- The text as a string. -/
def quote (text : String) : String :=
  String.ofList ('"' :: text.toList.flatMap escape ++ ['"'])

/-- The text of a scalar; none of a list, a record, or a scalar that stands for
nothing. -/
def scalar? : Document → Option String
  | .null => some "null"
  | .bool b => some (if b then "true" else "false")
  | .integer n => some (toString n)
  | .float x => some (writeFloat x)
  | .text text => some (quote text)
  | .plain text => some (quote text)
  | _ => none

/-! ## Trees -/

/-- How the parts of lists and records are set apart. -/
inductive Style where
  /-- Nothing between the parts but the marks. -/
  | compact
  /-- A line for each part, indented by two blanks for each level. -/
  | indented
  deriving DecidableEq, Repr, Inhabited

/-- A new line at a level, in a style that has lines. -/
def Style.newLine (style : Style) (level : Nat) : String :=
  match style with
  | .compact => ""
  | .indented => "\n" ++ String.ofList (List.replicate (2 * level) ' ')

/-- The mark between a key and its value. -/
def Style.colon (style : Style) : String :=
  match style with
  | .compact => ":"
  | .indented => ": "

/-- Parts between an opening and a closing mark. -/
def enclose (style : Style) (level : Nat) (opening closing : String) (parts : List String) :
    String :=
  match parts with
  | [] => opening ++ closing
  | _ =>
    let separator := "," ++ style.newLine (level + 1)
    opening ++ style.newLine (level + 1) ++ separator.intercalate parts ++ style.newLine level
      ++ closing

mutual

/-- The text of a document at a level. A tag is a record of one key. -/
def writeAt (style : Style) (level : Nat) : Document → String
  | .list items => enclose style level "[" "]" (writeItems style (level + 1) items)
  | .record entries => enclose style level "\x7b" "\x7d" (writeEntries style (level + 1) entries)
  | .tagged tag inner =>
    enclose style level "\x7b" "\x7d"
      [quote tag ++ style.colon ++ writeAt style (level + 1) inner]
  | other => (scalar? other).getD "null"

/-- The texts of the items of a list. -/
def writeItems (style : Style) (level : Nat) : List Document → List String
  | [] => []
  | item :: items => writeAt style level item :: writeItems style level items

/-- The texts of the entries of a record. -/
def writeEntries (style : Style) (level : Nat) : List (Document × Document) → List String
  | [] => []
  | (key, value) :: entries =>
    (writeAt style level key ++ style.colon ++ writeAt style level value)
      :: writeEntries style level entries

end

/-- The text of a document. -/
def write (style : Style) (document : Document) : String :=
  writeAt style 0 document

end Parlance.Json
