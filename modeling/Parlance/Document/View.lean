import Parlance.Document.Plain
import Parlance.Word

/-!
# Views of documents

What a document is when a certain kind of value is wanted of it. A plain scalar
is whatever is wanted, as far as its text allows; every other scalar is of its
own kind only.
-/

set_option autoImplicit false

namespace Parlance

/-- The notation of a file. They differ in how a case that carries data is
written: as a record of one entry, or with a tag. -/
inductive Notation where
  | json
  | yaml
  deriving DecidableEq, Repr, Inhabited

namespace Document

/-! ## Scalars -/

/-- The text of a scalar. -/
def text? : Document → Option String
  | .text s => some s
  | .plain s => some s
  | .tagged _ inner => inner.text?
  | _ => none

/-- The truth value of a scalar. -/
def bool? : Document → Option Bool
  | .bool b => some b
  | .plain s => truthWord? s
  | .tagged _ inner => inner.bool?
  | _ => none

/-- The number of a scalar, if it is a whole one of 64 bits without a sign. -/
def word64? : Document → Option Nat
  | .integer n => if 0 ≤ n && n < (Word.size : Int) then some n.toNat else none
  | .plain s => (unsignedNumber? s.toList).filter (· < Word.size)
  | .tagged _ inner => inner.word64?
  | _ => none

/-- The document stands for nothing, so that an optional value is missing. -/
def isNothing : Document → Bool
  | .null => true
  | .plain s => s == "" || isNullWord s
  | _ => false

/-! ## Lists and optional values -/

/-- The items of a list; a plain scalar without text is the empty list. -/
def items? : Document → Option (List Document)
  | .list items => some items
  | .plain s => if s = "" then some [] else none
  | .tagged _ inner => inner.items?
  | _ => none

/-- All results, or none if one is missing. -/
def collect? {α : Type} (f : Document → Option α) : List Document → Option (List α)
  | [] => some []
  | item :: items => do
    let value ← f item
    return value :: (← collect? f items)

/-- The texts of a list. -/
def texts? (document : Document) : Option (List String) :=
  document.items?.bind (collect? text?)

/-- A value that may be missing or nothing. -/
def optional? {α : Type} (f : Document → Option α) : Option Document → Option (Option α)
  | none => some none
  | some document => if document.isNothing then some none else (f document).map some

/-- A value with a default for when it is missing. -/
def orDefault? {α : Type} (f : Document → Option α) (default : α) : Option Document → Option α
  | none => some default
  | some document => f document

/-! ## Records with known fields -/

/-- The place of a key among the names of fields: none if it is not a key at
all, and no place if it is not among them. A number counts places. -/
def fieldIndex? (names : List String) : Document → Option (Option Nat)
  | .text s => some (names.idxOf? s)
  | .plain s => some (names.idxOf? s)
  | .tagged _ inner => fieldIndex? names inner
  | .integer n => if 0 ≤ n then some (if n.toNat < names.length then some n.toNat else none) else none
  | _ => none

/-- Puts the value of an entry in its place, which must be free; an entry of no
known field is passed over. -/
def fillFields (names : List String) :
    List (Document × Document) → List (Option Document) → Option (List (Option Document))
  | [], fields => some fields
  | (key, value) :: entries, fields =>
    match fieldIndex? names key with
    | none => none
    | some none => fillFields names entries fields
    | some (some index) =>
      if (fields[index]?.getD none).isSome then none
      else fillFields names entries (fields.set index (some value))

/-- The values of known fields, from a record with these names or from a list
of them in this order, of which the last may be missing. -/
def fields? (names : List String) : Document → Option (List (Option Document))
  | .record entries => fillFields names entries (names.map fun _ => none)
  | .list items =>
    if items.length ≤ names.length then
      some (items.map some ++ List.replicate (names.length - items.length) none)
    else none
  | .plain s => if s = "" then some (names.map fun _ => none) else none
  | .tagged _ inner => fields? names inner
  | _ => none

/-! ## Cases -/

/-- The case that a document names, with the data that it carries, if any. -/
def variant? (n : Notation) : Document → Option (String × Option Document)
  | .text name => some (name, none)
  | .plain name => some (name, none)
  | .tagged name inner => some (name, some inner)
  | .record [(.text name, inner)] => if n = .json then some (name, some inner) else none
  | _ => none

/-- A case that carries data. -/
def ofVariant (n : Notation) (name : String) (inner : Document) : Document :=
  match n with
  | .json => .record [(.text name, inner)]
  | .yaml => .tagged name inner

end Document

end Parlance
