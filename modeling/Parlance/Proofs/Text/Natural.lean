import Mathlib.Data.Nat.Digits.Defs
import Parlance.Text.Digit

/-!
# Numbers in base ten

Reading ASCII digits succeeds exactly on one or more of them, and gives the number that
they write (`natural?_eq_some_iff`).
-/

set_option autoImplicit false

namespace Parlance.Text

/-- The number that ASCII digits write in base ten, the last digit counting once. -/
def decimalValue (digits : List Char) : Nat :=
  Nat.ofDigits 10 (digits.reverse.map fun c => c.toNat - 48)

theorem decimalValue_cons (c : Char) (cs : List Char) :
    decimalValue (c :: cs) = (c.toNat - 48) * 10 ^ cs.length + decimalValue cs := by
  rw [decimalValue, List.reverse_cons, List.map_append, Nat.ofDigits_append, List.length_map,
    List.length_reverse, List.map_singleton, Nat.ofDigits_singleton, ← decimalValue,
    Nat.mul_comm, Nat.add_comm]

/-- The digits of a number write it. -/
theorem decimalValue_toDigits (n : Nat) : decimalValue (Nat.toDigits 10 n) = n := by
  have hvalue : ∀ cs : List Char, decimalValue cs = Nat.ofDigitChars 10 cs 0 := by
    intro cs
    induction cs with
    | nil => rfl
    | cons c cs ih =>
      rw [decimalValue_cons, ih, Nat.ofDigitChars_cons, Nat.mul_zero, Nat.zero_add, Nat.mul_comm]
      exact Nat.ofDigitChars_eq_ofDigitChars_zero.symm
  rw [hvalue, Nat.ofDigitChars_ten_toDigits]

theorem naturalFrom_eq_some_iff {high n : Nat} {cs : List Char} : naturalFrom high cs = some n ↔
    (∀ c ∈ cs, c.isDigit = true) ∧ n = high * 10 ^ cs.length + decimalValue cs := by
  induction cs generalizing high with
  | nil =>
    have hnil : decimalValue [] = 0 := rfl
    simp [naturalFrom, hnil, eq_comm (a := n)]
  | cons c cs ih =>
    rw [naturalFrom, digitValue?, List.forall_mem_cons, decimalValue_cons, List.length_cons]
    by_cases hdigit : c.isDigit = true
    · have hvalue : (10 * high + (c.toNat - 48)) * 10 ^ cs.length + decimalValue cs =
          high * 10 ^ (cs.length + 1) + ((c.toNat - 48) * 10 ^ cs.length + decimalValue cs) := by
        ring
      rw [if_pos hdigit, Option.bind_some, ih, hvalue]
      simp [hdigit]
    · simp [hdigit]

theorem natural?_eq_some_iff {n : Nat} {cs : List Char} : natural? cs = some n ↔
    cs ≠ [] ∧ (∀ c ∈ cs, c.isDigit = true) ∧ n = decimalValue cs := by
  cases cs with
  | nil => simp [natural?]
  | cons c cs => simp [natural?, naturalFrom_eq_some_iff]

end Parlance.Text
