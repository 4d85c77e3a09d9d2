import Parlance.Decimal.Reading
import Parlance.Document
import Parlance.Word

/-!
# Plain scalars

What a scalar without quotes stands for when nothing in particular is wanted of
it: nothing, a truth value, a number, or else its own text.
-/

set_option autoImplicit false

namespace Parlance.Document

/-! ## Words -/

/-- The text stands for nothing; not so the empty text. -/
def isNullWord (text : String) : Bool :=
  ["null", "Null", "NULL", "~"].contains text

/-- The truth value that the text stands for. -/
def truthWord? (text : String) : Option Bool :=
  if ["true", "True", "TRUE"].contains text then some true
  else if ["false", "False", "FALSE"].contains text then some false
  else none

/-! ## Numbers -/

/-- A digit of a base up to sixteen. -/
def baseDigit? (base : Nat) (c : Char) : Option Nat :=
  let n := c.toNat
  let value :=
    if 48 ≤ n && n ≤ 57 then some (n - 48)
    else if 65 ≤ n && n ≤ 70 then some (n - 55)
    else if 97 ≤ n && n ≤ 102 then some (n - 87)
    else none
  value.filter (· < base)

/-- The number that one or more digits of a base write. -/
def natural? (base : Nat) (digits : List Char) : Option Nat :=
  if digits.isEmpty then none
  else
    digits.foldl (fun high c => high.bind fun h => (baseDigit? base c).map fun d => base * h + d)
      (some 0)

/-- A zero with more digits behind it, after at most one sign. Such a text is
no number. -/
def isPaddedDigits (text : List Char) : Bool :=
  match (Decimal.splitSign text).2 with
  | '0' :: c :: cs => (c :: cs).all Char.isDigit
  | _ => false

/-- The base that a prefix names, and the digits behind it. -/
def basePrefix? : List Char → Option (Nat × List Char)
  | '0' :: 'x' :: digits => some (16, digits)
  | '0' :: 'o' :: digits => some (8, digits)
  | '0' :: 'b' :: digits => some (2, digits)
  | _ => none

/-- The text without a plus sign in front. -/
def withoutPlus : List Char → List Char
  | '+' :: cs => cs
  | cs => cs

/-- The number that the text writes without a minus sign. -/
def unsignedNumber? (text : List Char) : Option Nat :=
  let body := withoutPlus text
  match (basePrefix? body).bind fun (base, digits) => natural? base digits with
  | some n => some n
  | none => if isPaddedDigits text then none else natural? 10 body

/-- The size of the number that the text writes behind a minus sign. -/
def negativeNumber? (text : List Char) : Option Nat :=
  match text with
  | '-' :: body =>
    match (basePrefix? body).bind fun (base, digits) => natural? base digits with
    | some n => some n
    | none => if isPaddedDigits text then none else natural? 10 body
  | _ => none

/-- The double that the text writes. -/
def floatNumber? (text : List Char) : Option Float :=
  let body := withoutPlus text
  let isPlus := body.length < text.length
  if isPlus && (body.head? == some '+' || body.head? == some '-') then none
  else if [".inf", ".Inf", ".INF"].contains (String.ofList body) then some (1 / 0)
  else if ["-.inf", "-.Inf", "-.INF"].contains (String.ofList text) then some (-(1 / 0))
  else if [".nan", ".NaN", ".NAN"].contains (String.ofList text) then some (0 / 0)
  else (Decimal.read? (String.ofList body)).filter Float.isFinite

/-! ## Meaning -/

/-- A whole number as such if 64 bits hold it; within 128 bits it stands for
nothing. -/
def wholeNumber? (text : List Char) : Option Document :=
  match unsignedNumber? text with
  | some n =>
    if n < Word.size then some (.integer n)
    else if n < Word.size * Word.size then some .unreadable
    else none
  | none =>
    match negativeNumber? text with
    | some n =>
      if n ≤ Word.half then some (.integer (-n))
      else if n ≤ Word.size * Word.half then some .unreadable
      else none
    | none => none

/-- What a plain scalar stands for. -/
def ofPlain (text : String) : Document :=
  if text = "" || isNullWord text then .null
  else
    match truthWord? text with
    | some b => .bool b
    | none =>
      match wholeNumber? text.toList with
      | some number => number
      | none =>
        match if isPaddedDigits text.toList then none else floatNumber? text.toList with
        | some x => .float x
        | none => .text text

/-- A plain scalar of this text stands for the text itself. -/
def isPlainText (text : String) : Bool :=
  match ofPlain text with
  | .text _ => true
  | _ => false

mutual

/-- The document with every plain scalar replaced by what it stands for; none
if anything in it is tagged or stands for nothing. -/
def settled? : Document → Option Document
  | .plain word =>
    match ofPlain word with
    | .unreadable => none
    | document => some document
  | .list items => (settledItems? items).map .list
  | .record entries => (settledEntries? entries).map .record
  | .tagged _ _ => none
  | .unreadable => none
  | other => some other

/-- The items of a list, each settled. -/
def settledItems? : List Document → Option (List Document)
  | [] => some []
  | item :: items => do
    let item ← settled? item
    return item :: (← settledItems? items)

/-- The entries of a record, keys and values settled. -/
def settledEntries? : List (Document × Document) → Option (List (Document × Document))
  | [] => some []
  | (key, value) :: entries => do
    let key ← settled? key
    let value ← settled? value
    return (key, value) :: (← settledEntries? entries)

end

end Parlance.Document
