import Parlance.Decimal.Reading
import Parlance.Document
import Parlance.Word

/-!
# Reading JSON

The document that a JSON text writes. Nothing but blanks may stand around it.
A string with half of a surrogate pair and a number beyond the doubles are
well formed, but stand for nothing.
-/

set_option autoImplicit false

namespace Parlance.Json

/-! ## Strings -/

/-- A piece of a string: a character, or the number of a `\u` escape. -/
inductive Piece where
  | char (c : Char)
  | escaped (n : Nat)
  deriving DecidableEq, Repr, Inhabited

/-- The value of a digit in base sixteen. -/
def hexValue? (c : Char) : Option Nat :=
  let n := c.toNat
  if 48 ≤ n && n ≤ 57 then some (n - 48)
  else if 65 ≤ n && n ≤ 70 then some (n - 55)
  else if 97 ≤ n && n ≤ 102 then some (n - 87)
  else none

/-- The number that digits in base sixteen write. -/
def hexNumber? (digits : List Char) : Option Nat :=
  digits.foldl (fun high c => high.bind fun h => (hexValue? c).map fun d => 16 * h + d) (some 0)

/-- The character of an escape by one letter. -/
def escapedLetter? : Char → Option Char
  | '"' => some '"'
  | '\\' => some '\\'
  | '/' => some '/'
  | 'b' => some (Char.ofNat 8)
  | 'f' => some (Char.ofNat 12)
  | 'n' => some '\n'
  | 'r' => some '\r'
  | 't' => some '\t'
  | _ => none

/-- The pieces up to the closing quote, and what follows it. -/
def pieces : List Char → Option (List Piece × List Char)
  | [] => none
  | '"' :: rest => some ([], rest)
  | '\\' :: 'u' :: a :: b :: c :: d :: rest =>
    match hexNumber? [a, b, c, d] with
    | none => none
    | some n => (pieces rest).map fun (ps, after) => (.escaped n :: ps, after)
  | '\\' :: c :: rest =>
    match escapedLetter? c with
    | none => none
    | some e => (pieces rest).map fun (ps, after) => (.char e :: ps, after)
  | c :: rest =>
    if c = '\\' || c.toNat < 0x20 then none
    else (pieces rest).map fun (ps, after) => (.char c :: ps, after)

/-- The first half of a surrogate pair. -/
def isHighHalf (n : Nat) : Bool :=
  0xD800 ≤ n && n < 0xDC00

/-- The second half of a surrogate pair. -/
def isLowHalf (n : Nat) : Bool :=
  0xDC00 ≤ n && n < 0xE000

/-- The characters of pieces; none if half of a pair stands alone. -/
def joinPieces : List Piece → Option (List Char)
  | [] => some []
  | .char c :: ps => (joinPieces ps).map (c :: ·)
  | .escaped high :: .escaped low :: ps =>
    if isHighHalf high && isLowHalf low then
      let c := Char.ofNat (0x10000 + (high - 0xD800) * 0x400 + (low - 0xDC00))
      (joinPieces ps).map (c :: ·)
    else if isHighHalf high || isLowHalf high then none
    else (joinPieces (.escaped low :: ps)).map (Char.ofNat high :: ·)
  | .escaped n :: ps =>
    if isHighHalf n || isLowHalf n then none else (joinPieces ps).map (Char.ofNat n :: ·)

/-- A string behind its opening quote, and what follows. -/
def readString (cs : List Char) : Option (Document × List Char) :=
  (pieces cs).map fun (ps, rest) =>
    match joinPieces ps with
    | some text => (.text (String.ofList text), rest)
    | none => (.unreadable, rest)

/-! ## Numbers -/

/-- The fraction behind a number's whole part: its digits, and what follows;
none if there is a point without digits. -/
def fraction? : List Char → Option (List Char × List Char)
  | '.' :: cs =>
    match cs.takeWhile Char.isDigit with
    | [] => none
    | digits => some (digits, cs.dropWhile Char.isDigit)
  | cs => some ([], cs)

/-- The exponent behind a number: its value, whether there is one, and what
follows; none if there is a mark without digits. -/
def exponent? : List Char → Option (Int × Bool × List Char)
  | c :: cs =>
    if c = 'e' || c = 'E' then
      let (negative, rest) := Decimal.splitSign cs
      (Text.natural? (rest.takeWhile Char.isDigit)).map fun n =>
        (if negative then -(n : Int) else n, true, rest.dropWhile Char.isDigit)
    else some (0, false, c :: cs)
  | [] => some (0, false, [])

/-- A double, as far as there is one. -/
def ofFloat (x : Float) : Document :=
  if x.isFinite then .float x else .unreadable

/-- A whole number of 64 bits as such, and any other as a double. -/
def ofWhole (negative : Bool) (n : Nat) : Document :=
  if !negative && n < Word.size then .integer n
  else if negative && 0 < n && n ≤ Word.half then .integer (-n)
  else ofFloat (Decimal.Numeral.finite negative n 0).toFloat

/-- A number, and what follows. No zero may stand before other digits. -/
def readNumber (cs : List Char) : Option (Document × List Char) := do
  let (negative, body) := match cs with
    | '-' :: rest => (true, rest)
    | _ => (false, cs)
  let whole := body.takeWhile Char.isDigit
  if 1 < whole.length && whole.head? == some '0' then none
  let n ← Text.natural? whole
  let (fraction, rest) ← fraction? (body.dropWhile Char.isDigit)
  let (exponent, hasExponent, rest) ← exponent? rest
  if fraction.isEmpty && !hasExponent then return (ofWhole negative n, rest)
  let significand ← Text.natural? (whole ++ fraction)
  let numeral : Decimal.Numeral := .finite negative significand (exponent - fraction.length)
  return (ofFloat numeral.toFloat, rest)

/-! ## Values -/

/-- What follows blanks. -/
def skipBlanks (cs : List Char) : List Char :=
  cs.dropWhile fun c => c = ' ' || c = '\t' || c = '\n' || c = '\r'

/-- A word or a number, and what follows. -/
def readAtom (cs : List Char) : Option (Document × List Char) :=
  match cs with
  | 'n' :: 'u' :: 'l' :: 'l' :: rest => some (.null, rest)
  | 't' :: 'r' :: 'u' :: 'e' :: rest => some (.bool true, rest)
  | 'f' :: 'a' :: 'l' :: 's' :: 'e' :: rest => some (.bool false, rest)
  | _ => readNumber cs

mutual

/-- A value and what follows it. Each step uses up some fuel. -/
def readValue : Nat → List Char → Option (Document × List Char)
  | 0, _ => none
  | fuel + 1, cs =>
    match skipBlanks cs with
    | '"' :: rest => readString rest
    | '[' :: rest =>
      match skipBlanks rest with
      | ']' :: after => some (.list [], after)
      | body => (readItems fuel body).map fun (items, after) => (.list items, after)
    | '\x7b' :: rest =>
      match skipBlanks rest with
      | '\x7d' :: after => some (.record [], after)
      | body => (readEntries fuel body).map fun (entries, after) => (.record entries, after)
    | body => readAtom body

/-- One item or more, and what follows the closing bracket. -/
def readItems : Nat → List Char → Option (List Document × List Char)
  | 0, _ => none
  | fuel + 1, cs => do
    let (item, rest) ← readValue fuel cs
    match skipBlanks rest with
    | ',' :: more =>
      let (items, after) ← readItems fuel more
      return (item :: items, after)
    | ']' :: after => return ([item], after)
    | _ => none

/-- One entry or more, and what follows the closing brace. -/
def readEntries : Nat → List Char → Option (List (Document × Document) × List Char)
  | 0, _ => none
  | fuel + 1, cs => do
    let key :: _ := skipBlanks cs | none
    if key ≠ '"' then none
    let (key, rest) ← readString ((skipBlanks cs).drop 1)
    let ':' :: rest := skipBlanks rest | none
    let (value, rest) ← readValue fuel rest
    match skipBlanks rest with
    | ',' :: more =>
      let (entries, after) ← readEntries fuel more
      return ((key, value) :: entries, after)
    | '\x7d' :: after => return ([(key, value)], after)
    | _ => none

end

/-- The document of a JSON text. -/
def read? (text : String) : Option Document :=
  let cs := text.toList
  match readValue (2 * cs.length + 2) cs with
  | some (document, rest) => if (skipBlanks rest).isEmpty then some document else none
  | none => none

end Parlance.Json
