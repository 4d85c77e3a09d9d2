/-!
# Documents

The tree of a file, whatever notation it was written in: lists, records, and
scalars. A scalar that stands without quotes in a notation that allows this has
no kind of its own; what it is depends on who asks.
-/

set_option autoImplicit false

namespace Parlance

/-- A tree of lists, records and scalars. -/
inductive Document where
  | null
  | bool (b : Bool)
  | integer (n : Int)
  | float (x : Float)
  | text (text : String)
  /-- A scalar without quotes. -/
  | plain (text : String)
  | list (items : List Document)
  /-- Keys with values, in the order of the file. -/
  | record (entries : List (Document × Document))
  /-- A document with a name in front that says what it is. -/
  | tagged (tag : String) (inner : Document)
  /-- A scalar that is well formed but stands for nothing; it may only be
  passed over. -/
  | unreadable
  deriving Repr, Inhabited

namespace Document

/-- A record of text keys. -/
def ofFields (fields : List (String × Document)) : Document :=
  .record (fields.map fun (key, value) => (.text key, value))

/-- A list of texts. -/
def ofTexts (texts : List String) : Document :=
  .list (texts.map .text)

mutual

/-- How deep lists and records lie within each other. -/
def depth : Document → Nat
  | .list items => depthOfItems items + 1
  | .record entries => depthOfEntries entries + 1
  | .tagged _ inner => inner.depth
  | _ => 0

/-- The greatest depth of the items. -/
def depthOfItems : List Document → Nat
  | [] => 0
  | item :: items => max item.depth (depthOfItems items)

/-- The greatest depth of the values. -/
def depthOfEntries : List (Document × Document) → Nat
  | [] => 0
  | (_, value) :: entries => max value.depth (depthOfEntries entries)

end

end Document

end Parlance
