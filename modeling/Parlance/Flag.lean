import Parlance.Source
import Parlance.Value
import Parlance.ValueType

/-!
# Flags

A flag is named behind one or two dashes and may stand anywhere among the
tokens. One with a value type takes the next token as its value; one without
is a switch.
-/

set_option autoImplicit false

namespace Parlance

/-! ## Fallbacks -/

/-- What stands in for a value that no token gives. -/
inductive Fallback where
  /-- A ready value. -/
  | value (value : Value)
  /-- A token that is converted as if it had been typed. -/
  | raw (token : String)
  /-- A value that depends on the source. -/
  | supplied (supplier : Source → Value)
  deriving Inhabited

/-- The fallback as it is written in usage lines, if it can be written there:
a supplied one cannot, and neither can an empty text or one with a blank. -/
def Fallback.shown? (fallback : Fallback) : Option String :=
  let text :=
    match fallback with
    | .value v => some v.display
    | .raw token => some token
    | .supplied _ => none
  text.filter fun t => t != "" && !Text.hasBlank t

/-! ## Flags -/

/-- A flag or switch. -/
structure Flag where
  name : String
  aliases : List String := []
  /-- The type of the flag's value; none for a switch. -/
  type : Option ValueType := none
  fallback : Option Fallback := none
  /-- Usable in every usage of its command and of the commands below. -/
  free : Bool := false
  deriving Inhabited

namespace Flag

/-- A flag without a value. -/
def isSwitch (flag : Flag) : Bool :=
  flag.type.isNone

/-- The name, then the aliases. -/
def names (flag : Flag) : List String :=
  flag.name :: flag.aliases

/-- The word, dashes removed, names the flag. -/
def isNamed (flag : Flag) (word : String) : Bool :=
  flag.names.contains word

/-- The same flag, marked free. -/
def freed (flag : Flag) : Flag :=
  { flag with free := true }

/-- A name that can be typed behind a dash: not empty, without a dash at the
beginning, and without blanks. -/
def isTypableName (name : String) : Bool :=
  match name.toList with
  | [] => false
  | c :: _ => c != '-' && !Text.hasBlank name

end Flag

end Parlance
