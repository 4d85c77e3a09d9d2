import Parlance.Decimal.Layout
import Parlance.Duration

/-!
# Values

What an argument resolves to, and how a value is written in a message.
-/

set_option autoImplicit false

namespace Parlance

/-- A resolved argument. -/
inductive Value where
  | text (text : String)
  /-- A whole number of 64 bits. -/
  | integer (n : Int)
  | float (x : Float)
  | bool (b : Bool)
  | duration (d : Duration)
  deriving Repr, Inhabited

namespace Value

/-! ## Views -/

/-- The text, of a text. -/
def text? : Value → Option String
  | text s => some s
  | _ => none

/-- The number, of a whole number. -/
def integer? : Value → Option Int
  | integer n => some n
  | _ => none

/-- The number as a double, of a double or a whole number. -/
def float? : Value → Option Float
  | float x => some x
  | integer n => some (Float.ofInt n)
  | _ => none

/-- The truth value, of a truth value. -/
def bool? : Value → Option Bool
  | bool b => some b
  | _ => none

/-- The duration, of a duration. -/
def duration? : Value → Option Duration
  | duration d => some d
  | _ => none

/-! ## Writing -/

/-- The value as it is written in messages and usage lines. -/
def display : Value → String
  | text s => s
  | integer n => toString n
  | float x => Decimal.Layout.plain.write x
  | bool b => if b then "true" else "false"
  | duration d => d.format

end Value

end Parlance
