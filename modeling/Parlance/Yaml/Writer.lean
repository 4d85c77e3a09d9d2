import Parlance.Document.Plain
import Parlance.Json.Writer
import Parlance.Yaml.Scalar

/-!
# Writing YAML

The text of a document: lists and records with a line for each part, and every
scalar without quotes where this cannot be misunderstood, else in single
quotes, else in double quotes. A text of several lines is written as a block.
-/

set_option autoImplicit false

namespace Parlance.Yaml

/-! ## What a scalar may look like -/

/-- A character that may stand in a text as it is. -/
def isPrintable (c : Char) : Bool :=
  let n := c.toNat
  n = 0x0A || (0x20 ≤ n && n ≤ 0x7E) || (0xA0 ≤ n && n ≤ 0xD7FF)
    || (0xE000 ≤ n && n ≤ 0xFFFD && n ≠ 0xFEFF) || 0x10000 ≤ n

/-- A character of one class stands right in front of one of another class. -/
def holdsPair (first second : Char → Bool) : List Char → Bool
  | a :: b :: cs => (first a && second b) || holdsPair first second (b :: cs)
  | _ => false

/-- A character that opens something other than a plain scalar. -/
def opensOther (c : Char) : Bool :=
  "#,[]\x7b\x7d&*!|>'\"%@`".toList.contains c

/-- The beginning of the text has a meaning of its own. -/
def beginsMarked : List Char → Bool
  | '-' :: '-' :: '-' :: _ => true
  | '.' :: '.' :: '.' :: _ => true
  | c :: cs => opensOther c || ((c = '?' || c = '-') && atSpaceOrEnd cs)
  | [] => false

/-- A colon that would end a key, or a hash that would begin a comment, which it
does behind a space. -/
def holdsMark (behindSpace : Bool) : List Char → Bool
  | [] => false
  | c :: cs =>
    (c = ':' && atSpaceOrEnd cs) || (c = '#' && behindSpace) || holdsMark (isSpaceOrBreak c) cs

/-- The text may stand without quotes. -/
def allowsPlain (text : List Char) : Bool :=
  text.all isPrintable && !text.any isBreak
    && text.head? ≠ some ' ' && text.getLast? ≠ some ' '
    && !beginsMarked text && !holdsMark true text

/-- The text may stand in single quotes. -/
def allowsSingle (text : List Char) : Bool :=
  text.all isPrintable && !holdsPair (· = ' ') isBreak text && !holdsPair isBreak (· = ' ') text

/-- The text may stand as a block of lines. -/
def allowsBlock (text : List Char) : Bool :=
  text.all isPrintable && !holdsPair (· = ' ') isBreak text && text.getLast? ≠ some ' '

/-- How a scalar is written. -/
inductive ScalarStyle where
  | plain
  | single
  | double
  | block
  deriving DecidableEq, Repr, Inhabited

/-- The style for a text: a block for several lines, and quotes where the text
alone would stand for something else. -/
def ScalarStyle.ofText (text : String) : ScalarStyle :=
  let cs := text.toList
  if cs.contains '\n' then if allowsBlock cs then .block else .double
  else if Document.isPlainText text && !Document.isPaddedDigits cs && allowsPlain cs then .plain
  else if allowsSingle cs then .single
  else .double

/-! ## Scalars -/

/-- So many spaces. -/
def spaces (count : Nat) : List Char :=
  List.replicate count ' '

/-- The text with every line but the first indented, the first one too if a
break is in front of it; empty lines are not indented. -/
def indented (column : Nat) (write : Char → List Char) (broken : Bool) : List Char → List Char
  | [] => []
  | c :: cs =>
    if isBreak c then c :: indented column write true cs
    else (if broken then spaces column else []) ++ write c ++ indented column write false cs

/-- A character between single quotes. -/
def singleCharacter (c : Char) : List Char :=
  if c = '\'' then ['\'', '\''] else [c]

/-- The text between single quotes. -/
def writeSingle (column : Nat) (text : List Char) : List Char :=
  let ending := if text.getLast?.any isBreak then spaces column else []
  '\'' :: indented column singleCharacter false text ++ ending ++ ['\'']

/-- So many digits of a number in base sixteen. -/
def hexDigits : Nat → Nat → List Char
  | 0, _ => []
  | width + 1, n => hexDigits width (n / 16) ++ [(Json.hexDigit (n % 16)).toUpper]

/-- The letter that stands for a character behind a backslash. -/
def escapeLetter? (c : Char) : Option Char :=
  match c.toNat with
  | 0x00 => some '0'
  | 0x07 => some 'a'
  | 0x08 => some 'b'
  | 0x09 => some 't'
  | 0x0A => some 'n'
  | 0x0B => some 'v'
  | 0x0C => some 'f'
  | 0x0D => some 'r'
  | 0x1B => some 'e'
  | 0x22 => some '"'
  | 0x5C => some '\\'
  | 0x85 => some 'N'
  | 0x2028 => some 'L'
  | 0x2029 => some 'P'
  | _ => none

/-- A character between double quotes. -/
def doubleCharacter (c : Char) : List Char :=
  match escapeLetter? c with
  | some letter => ['\\', letter]
  | none =>
    if isPrintable c then [c]
    else if c.toNat ≤ 0xFF then '\\' :: 'x' :: hexDigits 2 c.toNat
    else if c.toNat ≤ 0xFFFF then '\\' :: 'u' :: hexDigits 4 c.toNat
    else '\\' :: 'U' :: hexDigits 8 c.toNat

/-- The text between double quotes. -/
def writeDouble (text : List Char) : List Char :=
  '"' :: text.flatMap doubleCharacter ++ ['"']

/-- The sign for the end of a block: with no break there, with one, or with
more. A text that is nothing but a break counts as having more. -/
def endSign (text : List Char) : List Char :=
  match text.reverse with
  | [] => ['-']
  | last :: others =>
    if !isBreak last then ['-']
    else
      match others with
      | [] => ['+']
      | c :: _ => if isBreak c then ['+'] else []

/-- The text as a block of lines; the width of the indentation is told where the
first line would hide it. -/
def writeBlock (column : Nat) (text : List Char) : List Char :=
  let width := if text.head?.any fun c => c = ' ' || isBreak c then ['2'] else []
  '|' :: width ++ endSign text ++ ['\n'] ++ indented column (fun c => [c]) true text

/-- A text as a scalar whose further lines begin at a column. -/
def writeText (column : Nat) (text : String) : String :=
  let cs := text.toList
  match ScalarStyle.ofText text with
  | .plain => text
  | .single => String.ofList (writeSingle column cs)
  | .double => String.ofList (writeDouble cs)
  | .block => String.ofList (writeBlock column cs)

/-- Numbers in YAML. -/
def numberLayout : Decimal.Layout :=
  { Json.numberLayout with infinity := ".inf", undefined := ".nan" }

/-- A scalar, whose further lines begin at a column; nothing for a list or a
record. -/
def writeScalar (column : Nat) : Document → String
  | .null => "null"
  | .bool b => if b then "true" else "false"
  | .integer n => toString n
  | .float x => numberLayout.write x
  | .text text => writeText column text
  | .plain text => text
  | _ => ""

/-! ## Trees -/

/-- The parts one below the other, each at a column. A block that ends with a
break needs no other. -/
def stack (column : Nat) : List String → String
  | [] => ""
  | [part] => part
  | part :: parts =>
    let break_ := if part.toList.getLast?.any isBreak then "" else "\n"
    part ++ break_ ++ String.ofList (spaces column) ++ stack column parts

/-- The parts below a line that has been begun. -/
def below (column : Nat) (parts : List String) : String :=
  "\n" ++ String.ofList (spaces column) ++ stack column parts

/-- The key may be followed by its value on one line. -/
def isSimpleKey : Document → Bool
  | .text text => text.utf8ByteSize ≤ 128 && !text.toList.any isBreak
  | .list (_ :: _) => false
  | .record (_ :: _) => false
  | _ => true

mutual

/-- A document that begins in the middle of a line, at a column. -/
def writeInline (column : Nat) : Document → String
  | .list [] => "[]"
  | .list items => stack column (writeItems column items)
  | .record [] => "\x7b\x7d"
  | .record entries => stack column (writeEntries column entries)
  | .tagged tag inner => "!" ++ tag ++ writeBehind column inner
  | scalar => writeScalar column scalar

/-- A document behind the colon of a key at a column. The dashes of a list stand
below the key. -/
def writeBehind (column : Nat) : Document → String
  | .list [] => " []"
  | .list items => below column (writeItems column items)
  | .record [] => " \x7b\x7d"
  | .record entries => below (column + 2) (writeEntries (column + 2) entries)
  | .tagged tag inner => " !" ++ tag ++ writeBehind column inner
  | scalar => " " ++ writeScalar (column + 2) scalar

/-- The items of a list at a column, each behind its dash. -/
def writeItems (column : Nat) : List Document → List String
  | [] => []
  | item :: items => ("- " ++ writeInline (column + 2) item) :: writeItems column items

/-- The entries of a record at a column. The value of a long key has a line of
its own. -/
def writeEntries (column : Nat) : List (Document × Document) → List String
  | [] => []
  | (key, value) :: entries =>
    let entry :=
      if isSimpleKey key then writeInline column key ++ ":" ++ writeBehind column value
      else
        stack column
          ["? " ++ writeInline (column + 2) key, ": " ++ writeInline (column + 2) value]
    entry :: writeEntries column entries

end

/-- The text of a document. -/
def write (document : Document) : String :=
  stack 0 [writeInline 0 document, ""]

end Parlance.Yaml
