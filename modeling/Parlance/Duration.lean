import Parlance.Text.Digit
import Parlance.Word

/-!
# Durations

A duration is a whole number of milliseconds. Its compact form is a row of
parts such as `2h30m`, each an amount and the letter of a unit; a token may use
any decimal digits to have the shape of a duration, but only ASCII digits
convert.
-/

set_option autoImplicit false

namespace Parlance

/-- A length of time. -/
structure Duration where
  milliseconds : Int
  deriving DecidableEq, Repr, Inhabited

namespace Duration

open Text

/-! ## Units -/

/-- A unit of the compact form. -/
inductive Unit where
  | second
  | minute
  | hour
  | day
  | week
  deriving DecidableEq, Repr

/-- Length of the unit in seconds. -/
def Unit.seconds : Unit → Nat
  | .second => 1
  | .minute => 60
  | .hour => 3600
  | .day => 86400
  | .week => 604800

/-- The letter that stands for the unit. -/
def Unit.letter : Unit → Char
  | .second => 's'
  | .minute => 'm'
  | .hour => 'h'
  | .day => 'd'
  | .week => 'w'

/-- The unit of a letter, in either case. -/
def Unit.ofLetter? (c : Char) : Option Unit :=
  [Unit.second, .minute, .hour, .day, .week].find? fun unit => unit.letter == c.toLower

/-! ## Parts -/

/-- An amount as it is written, and its unit. -/
structure Part where
  digits : List Char
  unit : Unit
  deriving DecidableEq, Repr

/-- The parts of the remaining characters when `digits` have been met since
the last unit. -/
def partsFrom (digits : List Char) : List Char → Option (List Part)
  | [] => if digits.isEmpty then some [] else none
  | c :: cs =>
    if isDecimalDigit c then partsFrom (digits ++ [c]) cs
    else
      match digits, Unit.ofLetter? c with
      | _ :: _, some unit => (partsFrom [] cs).map (⟨digits, unit⟩ :: ·)
      | _, _ => none

/-- The parts that a token consists of; at least one. -/
def parts? (token : String) : Option (List Part) :=
  (partsFrom [] token.toList).filter fun parts => !parts.isEmpty

/-- The token has the shape of a duration. -/
def hasShape (token : String) : Bool :=
  (parts? token).isSome

/-! ## Reading -/

/-- The greatest number of milliseconds in either direction. -/
def limit : Nat := Word.half - 1

/-- The number itself if it is within the limit. -/
def within? (n : Nat) : Option Nat :=
  if n ≤ limit then some n else none

/-- Milliseconds of one part: the amount and the length must be within the
limit. -/
def Part.milliseconds? (part : Part) : Option Nat := do
  let amount ← natural? part.digits
  let amount ← within? amount
  within? (amount * part.unit.seconds * 1000)

/-- The sum of the parts on top of a total, within the limit all the way. -/
def sumFrom (total : Nat) : List Part → Option Nat
  | [] => some total
  | part :: parts => do
    let length ← part.milliseconds?
    let total ← within? (total + length)
    sumFrom total parts

/-- The duration that a token writes in the compact form. -/
def parse? (token : String) : Option Duration := do
  let parts ← parts? token
  let total ← sumFrom 0 parts
  return ⟨total⟩

/-! ## Writing -/

/-- Whole seconds as parts, the greatest unit first, leaving out empty ones. -/
def write (seconds : Nat) : List Unit → String
  | [] => ""
  | unit :: units =>
    if unit.seconds ≤ seconds then
      toString (seconds / unit.seconds) ++ unit.letter.toString
        ++ write (seconds % unit.seconds) units
    else write seconds units

/-- The compact form of the duration in whole seconds, the rest cut off. -/
def format (d : Duration) : String :=
  let seconds := d.milliseconds.tdiv 1000
  if seconds = 0 then "0s"
  else
    (if seconds < 0 then "-" else "")
      ++ write seconds.natAbs [.week, .day, .hour, .minute, .second]

end Duration

end Parlance
