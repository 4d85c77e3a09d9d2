import Parlance.Source
import Parlance.Usage

/-!
# Gates

A gate may hold a usage back, for a cooldown say. It is asked before the
arguments are resolved and told of every run that succeeded, and it decides by
what it was told.
-/

set_option autoImplicit false

namespace Parlance

/-- A usage that a source runs or is about to run. -/
structure Run (Act : Type) where
  source : Source
  /-- Names from the root to the command. -/
  path : List String
  usage : Usage Act

/-- A gate: whether a run is held back, given the runs recorded so far, the
latest last. -/
structure Gate (Act : Type) where
  holdsBack : List (Run Act) → Run Act → Bool

/-- A gate with the runs recorded in it. -/
structure GateBook (Act : Type) where
  gate : Gate Act
  recorded : List (Run Act) := []

variable {Act : Type}

namespace GateBook

/-- The gate holds the run back now. -/
def holdsBack (book : GateBook Act) (run : Run Act) : Bool :=
  book.gate.holdsBack book.recorded run

/-- The book with one more run recorded. -/
def record (book : GateBook Act) (run : Run Act) : GateBook Act :=
  { book with recorded := book.recorded ++ [run] }

end GateBook

/-- Records a run in the book of an index. -/
def recordAt (index : Nat) (run : Run Act) (books : List (GateBook Act)) : List (GateBook Act) :=
  books.modify index fun book => book.record run

end Parlance
