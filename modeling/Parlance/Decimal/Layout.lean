import Parlance.Decimal.Shortest

/-!
# Written floating-point numbers

How the shortest digits of a double are laid out: where the point stands, from
which size on an exponent is written, and what stands for the numbers that
have no digits.
-/

set_option autoImplicit false

namespace Parlance.Decimal

/-- The choices of a written form. -/
structure Layout where
  tie : Tie
  /-- Least and greatest number of places before the point, counted from the
  first digit, that are written without an exponent; `none` if all are. -/
  positional : Option (Int × Int)
  /-- What follows a whole number. -/
  wholeEnding : String
  infinity : String
  undefined : String
  deriving DecidableEq, Repr

/-- The form in messages and usage lines: never an exponent, and a whole number
without a point. -/
def Layout.plain : Layout where
  tie := .up
  positional := none
  wholeEnding := ""
  infinity := "inf"
  undefined := "NaN"

/-! ## Pieces -/

/-- So many zeros. -/
def zeros (n : Nat) : String :=
  String.ofList (List.replicate n '0')

/-- Digits with the point where the exponent puts it, padded with zeros. -/
def positionalText (ending : String) (d : Digits) : String :=
  let digits := toString d.significand
  let places := (digits.length : Int) + d.exponent
  if 0 ≤ d.exponent then digits ++ zeros d.exponent.toNat ++ ending
  else if places ≤ 0 then "0." ++ zeros (-places).toNat ++ digits
  else
    String.ofList (digits.toList.take places.toNat) ++ "."
      ++ String.ofList (digits.toList.drop places.toNat)

/-- One digit, the point, the others, and the signed exponent of the first. -/
def scientificText (d : Digits) : String :=
  let digits := (toString d.significand).toList
  let exponent : Int := (digits.length : Int) + d.exponent - 1
  let head := String.ofList (digits.take 1)
  let rest := if digits.length ≤ 1 then "" else "." ++ String.ofList (digits.drop 1)
  let sign := if exponent < 0 then "-" else "+"
  head ++ rest ++ "e" ++ sign ++ toString exponent.natAbs

/-- The digits laid out, without a sign. -/
def Layout.digitsText (l : Layout) (d : Digits) : String :=
  let places := ((toString d.significand).length : Int) + d.exponent
  match l.positional with
  | none => positionalText l.wholeEnding d
  | some (least, greatest) =>
    if least ≤ places && places ≤ greatest then positionalText l.wholeEnding d
    else scientificText d

/-! ## Doubles -/

/-- The written form of a double. -/
def Layout.write (l : Layout) (x : Float) : String :=
  let sign := if isNegative x then "-" else ""
  match magnitude x with
  | .undefined => l.undefined
  | .infinite => sign ++ l.infinity
  | .zero => sign ++ positionalText l.wholeEnding ⟨0, 0⟩
  | .finite number => sign ++ l.digitsText (number.shortest l.tie)

end Parlance.Decimal
