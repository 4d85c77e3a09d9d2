import Parlance.Text.Digit

/-!
# Reading floating-point numbers

A numeral is an optional sign, then digits with at most one point among them
and an optional exponent, or one of the words `inf`, `infinity` and `nan` in
any case. It names the nearest double.
-/

set_option autoImplicit false

namespace Parlance.Decimal

open Parlance.Text

/-! ## Numerals -/

/-- What a numeral says, before any rounding. -/
inductive Numeral where
  /-- `significand · 10 ^ exponent`, negated if so marked. -/
  | finite (negative : Bool) (significand : Nat) (exponent : Int)
  | infinite (negative : Bool)
  | undefined (negative : Bool)
  deriving DecidableEq, Repr

/-- A sign and what follows it: true for a minus. -/
def splitSign : List Char → Bool × List Char
  | '-' :: cs => (true, cs)
  | '+' :: cs => (false, cs)
  | cs => (false, cs)

/-- A signed exponent of one or more digits. -/
def exponent? (cs : List Char) : Option Int :=
  let (negative, digits) := splitSign cs
  (natural? digits).map fun n => if negative then -(n : Int) else n

/-- What follows the digits: nothing, or an exponent behind its mark. -/
def exponentPart? : List Char → Option Int
  | [] => some 0
  | c :: cs => if c = 'e' || c = 'E' then exponent? cs else none

/-- Digits, a point with more digits, and an exponent; some digit there must be. -/
def unsigned? (negative : Bool) (cs : List Char) : Option Numeral :=
  let whole := cs.takeWhile Char.isDigit
  let rest := cs.dropWhile Char.isDigit
  let (fraction, tail) :=
    match rest with
    | '.' :: after => (after.takeWhile Char.isDigit, after.dropWhile Char.isDigit)
    | _ => ([], rest)
  match natural? (whole ++ fraction), exponentPart? tail with
  | some n, some e => some (.finite negative n (e - fraction.length))
  | _, _ => none

/-- The numeral that the characters write, if they write one. -/
def Numeral.ofList? (cs : List Char) : Option Numeral :=
  let (negative, body) := splitSign cs
  let word := String.ofList (body.map Char.toLower)
  if word = "inf" || word = "infinity" then some (.infinite negative)
  else if word = "nan" then some (.undefined negative)
  else unsigned? negative body

/-! ## Doubles -/

/-- The double nearest to `significand · 10 ^ exponent`. Beyond the range of
doubles the power is not computed. -/
def nearest (significand : Nat) (exponent : Int) : Float :=
  let places : Int := (Nat.toDigits 10 significand).length + exponent
  if significand = 0 || places < -400 then 0
  else if 400 < places then 1 / 0
  else if exponent < 0 then Float.ofScientific significand true exponent.natAbs
  else Float.ofScientific significand false exponent.natAbs

/-- The double that a numeral names. -/
def Numeral.toFloat : Numeral → Float
  | .finite negative n e => if negative then -nearest n e else nearest n e
  | .infinite negative => if negative then -(1 / 0) else 1 / 0
  | .undefined negative => if negative then -(0 / 0) else 0 / 0

/-- The text is a numeral. -/
def isNumeral (text : String) : Bool :=
  (Numeral.ofList? text.toList).isSome

/-- The double that a text names, if it is a numeral. -/
def read? (text : String) : Option Float :=
  (Numeral.ofList? text.toList).map Numeral.toFloat

end Parlance.Decimal
