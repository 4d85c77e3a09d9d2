import Parlance.Word

/-!
# Shortest decimal digits

A finite binary number is written with the fewest decimal digits that read
back as the same number, and of those with the ones nearest to it. The search
is over decimal grids, in exact arithmetic on natural numbers.
-/

set_option autoImplicit false

namespace Parlance.Decimal

/-! ## Numbers with a neighbourhood -/

/-- A positive number with the interval of numbers that round to it, all three
as multiples of one unit, which is a quotient of natural numbers. -/
structure Centered where
  low : Nat
  value : Nat
  high : Nat
  /-- The ends of the interval belong to it. -/
  closed : Bool
  numerator : Nat
  denominator : Nat
  deriving DecidableEq, Repr

/-- Which of two equally near grid points is taken. -/
inductive Tie where
  /-- The greater one. -/
  | up
  /-- The one whose last digit is even. -/
  | even
  deriving DecidableEq, Repr

/-- The number `significand · 10 ^ exponent`. -/
structure Digits where
  significand : Nat
  exponent : Int
  deriving DecidableEq, Repr

/-! ## Decoding a double -/

/-- The number `mantissa · 2 ^ exponent` with its interval. The number below is
half as far away when the mantissa is the least of its binade. -/
def Centered.ofBinary (mantissa : Nat) (exponent : Int) (leastOfBinade : Bool) : Centered :=
  let scale := exponent - 2
  { low := 4 * mantissa - (if leastOfBinade then 1 else 2)
    value := 4 * mantissa
    high := 4 * mantissa + 2
    closed := mantissa % 2 == 0
    numerator := Nat.pow 2 scale.toNat
    denominator := Nat.pow 2 (-scale).toNat }

/-- The first bit of the mantissa, which is not among the bits of a double. -/
def hiddenBit : Nat := 0x10000000000000

/-- What a double is: its sign and its magnitude. -/
inductive Magnitude where
  | zero
  | finite (number : Centered)
  | infinite
  | undefined
  deriving DecidableEq, Repr

/-- The sign of a double, true for negative ones and for the negative zero. -/
def isNegative (x : Float) : Bool :=
  Word.half ≤ x.toBits.toNat

/-- The magnitude that the bits of a double encode. -/
def magnitude (x : Float) : Magnitude :=
  let bits : Nat := x.toBits.toNat
  let fraction : Nat := bits % hiddenBit
  let biased : Nat := bits / hiddenBit % 2048
  if biased = 2047 then
    if fraction = 0 then .infinite else .undefined
  else if biased = 0 then
    if fraction = 0 then .zero else .finite (.ofBinary fraction (-1074) false)
  else
    .finite (.ofBinary (fraction + hiddenBit) ((biased : Int) - 1075) (fraction = 0 && biased > 1))

/-! ## Searching the grids -/

/-- Number of decimal digits. -/
def digitCount (n : Nat) : Nat :=
  (Nat.toDigits 10 n).length

/-- The greatest `k` with `10 ^ k ≤ a / b`, for positive `a` and `b`. -/
def floorLog (a b : Nat) : Int :=
  let k : Int := (digitCount a : Int) - digitCount b
  if b * Nat.pow 10 k.toNat ≤ a * Nat.pow 10 (-k).toNat then k else k - 1

/-- The quotient that a multiple of the unit has by `10 ^ exponent`: numerator
and denominator. -/
def Centered.over (c : Centered) (n : Nat) (exponent : Int) : Nat × Nat :=
  (n * c.numerator * Nat.pow 10 (-exponent).toNat, c.denominator * Nat.pow 10 exponent.toNat)

/-- The grid point `point · 10 ^ exponent` lies in the interval. -/
def Centered.covers (c : Centered) (exponent : Int) (point : Nat) : Bool :=
  let (low, below) := c.over c.low exponent
  let (high, above) := c.over c.high exponent
  if c.closed then low ≤ point * below && point * above ≤ high
  else low < point * below && point * above < high

/-- The grid point next to the number, of the two around it, that lies in the
interval. -/
def Centered.pick (c : Centered) (tie : Tie) (exponent : Int) : Option Nat :=
  let (a, b) := c.over c.value exponent
  let point := a / b
  match c.covers exponent point, c.covers exponent (point + 1) with
  | false, false => none
  | true, false => some point
  | false, true => some (point + 1)
  | true, true =>
    if 2 * a < (2 * point + 1) * b then some point
    else if (2 * point + 1) * b < 2 * a then some (point + 1)
    else
      match tie with
      | .up => some (point + 1)
      | .even => some (if point % 2 == 0 then point else point + 1)

/-- Drops the zeros at the end of the significand, at most `fuel` of them. -/
def Digits.trim (fuel : Nat) (d : Digits) : Digits :=
  match fuel with
  | 0 => d
  | fuel + 1 =>
    if d.significand % 10 = 0 && d.significand ≠ 0 then
      Digits.trim fuel ⟨d.significand / 10, d.exponent + 1⟩
    else d

/-- The first grid with a point in the interval, among `remaining` grids of
which the first has the given exponent. -/
def Centered.search (c : Centered) (tie : Tie) : Nat → Int → Digits
  | 0, exponent =>
    let (a, b) := c.over c.value exponent
    ⟨a / b, exponent⟩
  | remaining + 1, exponent =>
    match c.pick tie exponent with
    | some point => Digits.trim 18 ⟨point, exponent⟩
    | none => c.search tie remaining (exponent - 1)

/-- The fewest digits that read back as the number, and the nearest of those.
Seventeen digits always suffice. -/
def Centered.shortest (c : Centered) (tie : Tie) : Digits :=
  let (a, b) := c.over c.value 0
  c.search tie 17 (floorLog a b)

end Parlance.Decimal
