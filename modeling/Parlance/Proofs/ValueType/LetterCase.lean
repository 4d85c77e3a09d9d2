import Parlance.ValueType

/-!
# Shapes and letter case

Digits, signs and blanks have no case, and where letters count they count in either
case. So a token has the shape of a type if any token has it that differs in the case
of ASCII letters only (`ValueType.accepts_eq_of_sameFolded`).
-/

set_option autoImplicit false

namespace Parlance

/-! ## Characters -/

namespace Text

variable {c : Char}

/-- A character is a capital letter, and made small stands 32 places further on, or it
stays as it is. -/
theorem toLower_cases (c : Char) :
    (65 ≤ c.toNat ∧ c.toNat ≤ 90 ∧ c.toLower.toNat = c.toNat + 32) ∨ c.toLower = c := by
  unfold Char.toLower
  split
  · next h =>
    have hlow : 65 ≤ c.toNat := UInt32.le_iff_toNat_le.1 h.1
    have hhigh : c.toNat ≤ 90 := UInt32.le_iff_toNat_le.1 h.2
    refine .inl ⟨hlow, hhigh, ?_⟩
    have hsum : (c.val + ('a'.val - 'A'.val)).toNat = (c.val.toNat + 32) % 2 ^ 32 :=
      UInt32.toNat_add _ _
    have hnat : c.val.toNat = c.toNat := rfl
    show (c.val + ('a'.val - 'A'.val)).toNat = c.toNat + 32
    omega
  · exact .inr rfl

/-- What a small letter and its capital have in common is not changed by making
characters small. -/
theorem apply_toLower {α : Type} {f : Char → α}
    (h : ∀ c d : Char, 65 ≤ c.toNat → c.toNat ≤ 90 → d.toNat = c.toNat + 32 → f d = f c)
    (c : Char) : f c.toLower = f c := by
  rcases toLower_cases c with ⟨hlow, hhigh, hsmall⟩ | hsame
  · exact h c _ hlow hhigh hsmall
  · rw [hsame]

theorem toLower_toLower (c : Char) : c.toLower.toLower = c.toLower := by
  rcases toLower_cases c with ⟨hlow, hhigh, hsmall⟩ | hsame
  · rcases toLower_cases c.toLower with ⟨-, hsmallHigh, -⟩ | hsame
    · omega
    · exact hsame
  · rw [hsame, hsame]

theorem isDigit_iff : c.isDigit = true ↔ 48 ≤ c.toNat ∧ c.toNat ≤ 57 := by
  simp [Char.isDigit, UInt32.le_iff_toNat_le]

/-- No decimal digit is an ASCII letter. -/
theorem isDecimalDigit_le_or (h : isDecimalDigit c = true) :
    (48 ≤ c.toNat ∧ c.toNat ≤ 57) ∨ 0x660 ≤ c.toNat := by
  obtain ⟨start, hmem, hrange⟩ := List.any_eq_true.1 h
  have hzeros : ∀ start ∈ decimalZeros, start = 48 ∨ 0x660 ≤ start := by decide
  simp only [Bool.and_eq_true, decide_eq_true_eq] at hrange
  have hzero := hzeros start hmem
  omega

theorem isDecimalDigit_eq_false (hlow : 58 ≤ c.toNat) (hhigh : c.toNat < 0x660) :
    isDecimalDigit c = false := by
  rw [Bool.eq_false_iff]
  intro hdigit
  have hplace := isDecimalDigit_le_or hdigit
  omega

theorem isDecimalDigit_toLower (c : Char) : isDecimalDigit c.toLower = isDecimalDigit c := by
  refine apply_toLower ?_ c
  intro c d hlow hhigh hsmall
  rw [isDecimalDigit_eq_false (by omega) (by omega), isDecimalDigit_eq_false (by omega) (by omega)]

theorem isDigit_toLower (c : Char) : c.toLower.isDigit = c.isDigit := by
  refine apply_toLower ?_ c
  intro c d hlow hhigh hsmall
  rw [Bool.eq_iff_iff, isDigit_iff, isDigit_iff]
  omega

/-- A decimal digit has no other case. -/
theorem toLower_of_isDecimalDigit (h : isDecimalDigit c = true) : c.toLower = c := by
  rcases toLower_cases c with ⟨hlow, hhigh, -⟩ | hsame
  · have hplace := isDecimalDigit_le_or h
    omega
  · exact hsame

theorem isBlank_toLower (c : Char) : isBlank c.toLower = isBlank c := by
  refine apply_toLower ?_ c
  intro c d hlow hhigh hsmall
  rw [Bool.eq_iff_iff]
  simp only [isBlank, Bool.or_eq_true, Bool.and_eq_true, decide_eq_true_eq, beq_iff_eq]
  omega

/-- Which characters beside the ASCII letters a text has does not depend on case. -/
theorem toLower_eq_iff {mark : Char} (hmark : mark.toNat < 65 ∨ 122 < mark.toNat) (c : Char) :
    c.toLower = mark ↔ c = mark := by
  rw [← Char.toNat_inj, ← Char.toNat_inj]
  rcases toLower_cases c with ⟨hlow, hhigh, hsmall⟩ | hsame
  · omega
  · rw [hsame]

theorem smallLetters_eq_iff {a b : String} :
    smallLetters a = smallLetters b ↔ sameFolded a b = true := by
  rw [smallLetters, smallLetters, String.ofList_inj, sameFolded_iff]

/-- Where tokens are the same in small letters, so are the tokens of one index. -/
theorem rel_getElem? {xs ys : List String} (h : xs.map smallLetters = ys.map smallLetters)
    (index : Nat) : Option.Rel (fun x y => sameFolded x y = true) xs[index]? ys[index]? := by
  have hindex : xs[index]?.map smallLetters = ys[index]?.map smallLetters := by
    rw [← List.getElem?_map, ← List.getElem?_map, h]
  cases hx : xs[index]? with
  | none =>
    rw [hx, Option.map_none] at hindex
    rw [Option.map_eq_none_iff.1 hindex.symm]
    exact .none
  | some x =>
    rw [hx, Option.map_some] at hindex
    obtain ⟨y, hy, hletters⟩ := Option.map_eq_some_iff.1 hindex.symm
    rw [hy]
    exact .some (smallLetters_eq_iff.1 hletters.symm)

/-- What is told of a text whose letters are made small is told of every text that
differs from it in letter case only. -/
theorem apply_eq_of_sameFolded {α : Type} {f : List Char → α}
    (h : ∀ cs : List Char, f (cs.map Char.toLower) = f cs) {a b : String}
    (hsame : sameFolded a b = true) : f a.toList = f b.toList := by
  have hfolded : a.toList.map Char.toLower = b.toList.map Char.toLower := sameFolded_iff.1 hsame
  rw [← h a.toList, hfolded, h]

theorem naturalFrom_map_toLower (high : Nat) (cs : List Char) :
    naturalFrom high (cs.map Char.toLower) = naturalFrom high cs := by
  have hvalue : ∀ c : Char, digitValue? c.toLower = digitValue? c := by
    refine apply_toLower ?_
    intro c d hlow hhigh hsmall
    have hc : ¬ c.isDigit = true := by
      rw [isDigit_iff]
      omega
    have hd : ¬ d.isDigit = true := by
      rw [isDigit_iff]
      omega
    unfold digitValue?
    rw [if_neg hc, if_neg hd]
  induction cs generalizing high with
  | nil => rfl
  | cons c cs ih => simp only [List.map_cons, naturalFrom, hvalue, ih]

theorem natural?_map_toLower (cs : List Char) : natural? (cs.map Char.toLower) = natural? cs := by
  cases cs with
  | nil => rfl
  | cons c cs => exact naturalFrom_map_toLower 0 (c :: cs)

end Text

open Text

/-! ## Numerals -/

namespace Decimal

theorem splitSign_map_toLower (cs : List Char) :
    splitSign (cs.map Char.toLower) = ((splitSign cs).1, (splitSign cs).2.map Char.toLower) := by
  cases cs with
  | nil => rfl
  | cons c cs =>
    have hminus : c.toLower = '-' ↔ c = '-' := toLower_eq_iff (by decide) c
    have hplus : c.toLower = '+' ↔ c = '+' := toLower_eq_iff (by decide) c
    by_cases hcMinus : c = '-'
    · obtain rfl := hcMinus
      rfl
    by_cases hcPlus : c = '+'
    · obtain rfl := hcPlus
      rfl
    rw [← hminus] at hcMinus
    rw [← hplus] at hcPlus
    unfold splitSign
    split <;> simp_all

theorem exponent?_map_toLower (cs : List Char) :
    exponent? (cs.map Char.toLower) = exponent? cs := by
  simp only [exponent?, splitSign_map_toLower, natural?_map_toLower]

theorem exponentPart?_map_toLower (cs : List Char) :
    exponentPart? (cs.map Char.toLower) = exponentPart? cs := by
  cases cs with
  | nil => rfl
  | cons c cs =>
    have hmark : (c.toLower = 'e' ∨ c.toLower = 'E') ↔ (c = 'e' ∨ c = 'E') := by
      have hsmall : 'e'.toNat = 101 := rfl
      have hcapital : 'E'.toNat = 69 := rfl
      simp only [← Char.toNat_inj, hsmall, hcapital]
      rcases toLower_cases c with ⟨hlow, hhigh, hletter⟩ | hsame
      · omega
      · rw [hsame]
    simp only [List.map_cons, exponentPart?, Bool.or_eq_true, decide_eq_true_eq, hmark,
      exponent?_map_toLower]

/-- The digits behind a point, if there is one, and what follows all digits. -/
def splitPoint : List Char → List Char × List Char
  | '.' :: after => (after.takeWhile Char.isDigit, after.dropWhile Char.isDigit)
  | rest => ([], rest)

theorem unsigned?_eq (negative : Bool) (cs : List Char) :
    unsigned? negative cs =
      (natural? (cs.takeWhile Char.isDigit ++ (splitPoint (cs.dropWhile Char.isDigit)).1)).bind
        fun n => (exponentPart? (splitPoint (cs.dropWhile Char.isDigit)).2).map
          fun e => .finite negative n (e - (splitPoint (cs.dropWhile Char.isDigit)).1.length) := by
  unfold unsigned? splitPoint
  cases cs.dropWhile Char.isDigit with
  | nil =>
    simp only [List.append_nil]
    cases natural? (cs.takeWhile Char.isDigit) <;> rfl
  | cons c rest =>
    by_cases hc : c = '.'
    · rw [hc]
      simp only
      cases natural? (cs.takeWhile Char.isDigit ++ rest.takeWhile Char.isDigit) <;>
        cases exponentPart? (rest.dropWhile Char.isDigit) <;> rfl
    · simp only [List.cons.injEq, hc, false_and, imp_self, implies_true, List.append_nil,
        List.length_nil, Int.cast_ofNat_Int, Int.sub_zero]
      cases natural? (cs.takeWhile Char.isDigit) <;> cases exponentPart? (c :: rest) <;> rfl

theorem isDigit_comp_toLower : Char.isDigit ∘ Char.toLower = Char.isDigit :=
  funext isDigit_toLower

theorem splitPoint_map_toLower (cs : List Char) :
    splitPoint (cs.map Char.toLower) =
      ((splitPoint cs).1.map Char.toLower, (splitPoint cs).2.map Char.toLower) := by
  cases cs with
  | nil => rfl
  | cons c cs =>
    by_cases hc : c = '.'
    · obtain rfl := hc
      have hsmall : '.'.toLower = '.' := rfl
      simp only [List.map_cons, hsmall, splitPoint, List.takeWhile_map, List.dropWhile_map,
        isDigit_comp_toLower]
    · have hsmall : c.toLower ≠ '.' := mt (toLower_eq_iff (by decide) c).1 hc
      simp [splitPoint, hc, hsmall]

theorem unsigned?_map_toLower (negative : Bool) (cs : List Char) :
    unsigned? negative (cs.map Char.toLower) = unsigned? negative cs := by
  simp only [unsigned?_eq, List.takeWhile_map, List.dropWhile_map, isDigit_comp_toLower,
    splitPoint_map_toLower, ← List.map_append, natural?_map_toLower, exponentPart?_map_toLower,
    List.length_map]

/-- A numeral says the same in any letter case. -/
theorem Numeral.ofList?_map_toLower (cs : List Char) :
    Numeral.ofList? (cs.map Char.toLower) = Numeral.ofList? cs := by
  have hsmall : ∀ ds : List Char, (ds.map Char.toLower).map Char.toLower = ds.map Char.toLower := by
    intro ds
    rw [List.map_map]
    exact List.map_congr_left fun c _ => toLower_toLower c
  simp only [Numeral.ofList?, splitSign_map_toLower, hsmall, unsigned?_map_toLower]

end Decimal

/-! ## Durations -/

namespace Duration

theorem partsFrom_map_toLower (digits cs : List Char) :
    partsFrom digits (cs.map Char.toLower) = partsFrom digits cs := by
  induction cs generalizing digits with
  | nil => rfl
  | cons c cs ih =>
    have hunit : Unit.ofLetter? c.toLower = Unit.ofLetter? c := by
      rw [Unit.ofLetter?, toLower_toLower, Unit.ofLetter?]
    rw [List.map_cons]
    unfold partsFrom
    rw [isDecimalDigit_toLower, hunit]
    split
    · next hdigit => rw [toLower_of_isDecimalDigit hdigit, ih]
    · simp only [ih]

/-- A duration consists of the same parts in any letter case. -/
theorem parts?_eq_of_sameFolded {a b : String} (h : sameFolded a b = true) :
    parts? a = parts? b := by
  have hparts : partsFrom [] a.toList = partsFrom [] b.toList :=
    apply_eq_of_sameFolded (partsFrom_map_toLower []) h
  rw [parts?, hparts, parts?]

end Duration

/-! ## Types -/

namespace ValueType

theorem isIntegerShape_eq (cs : List Char) : isIntegerShape cs =
    (!(Decimal.splitSign cs).2.isEmpty && (Decimal.splitSign cs).2.all isDecimalDigit) := by
  unfold isIntegerShape Decimal.splitSign
  split <;> simp_all

theorem isIntegerShape_map_toLower (cs : List Char) :
    isIntegerShape (cs.map Char.toLower) = isIntegerShape cs := by
  have hall : ∀ ds : List Char,
      (ds.map Char.toLower).all isDecimalDigit = ds.all isDecimalDigit := by
    intro ds
    rw [List.all_map]
    exact congrArg ds.all (funext isDecimalDigit_toLower)
  rw [isIntegerShape_eq, isIntegerShape_eq, Decimal.splitSign_map_toLower, hall, List.isEmpty_map]

theorem hasBlank_eq_of_sameFolded {a b : String} (h : sameFolded a b = true) :
    hasBlank a = hasBlank b := by
  refine apply_eq_of_sameFolded (f := fun cs => cs.any isBlank) (fun cs => ?_) h
  rw [List.any_map]
  exact congrArg cs.any (funext isBlank_toLower)

/-- A token has the shape of a type in any letter case. -/
theorem accepts_eq_of_sameFolded {a b : String} (h : sameFolded a b = true) (type : ValueType) :
    type.accepts a = type.accepts b := by
  have hwords : ∀ word : String, sameFolded word a = sameFolded word b := by
    intro word
    rw [Bool.eq_iff_iff, sameFolded_iff, sameFolded_iff, sameFolded_iff.1 h]
  cases type with
  | string | custom => rfl
  | word =>
    have hempty : (a == "") = (b == "") := by
      rw [Bool.eq_iff_iff, beq_iff_eq, beq_iff_eq, ← String.toList_eq_nil_iff,
        ← String.toList_eq_nil_iff]
      exact Iff.of_eq (apply_eq_of_sameFolded (f := (· = [])) (by simp) h)
    simp only [accepts, bne, hempty, hasBlank_eq_of_sameFolded h]
  | integer => exact apply_eq_of_sameFolded isIntegerShape_map_toLower h
  | float =>
    exact congrArg Option.isSome (apply_eq_of_sameFolded Decimal.Numeral.ofList?_map_toLower h)
  | boolean => simp only [accepts, hwords]
  | duration => exact congrArg Option.isSome (Duration.parts?_eq_of_sameFolded h)
  | choice words => simp only [accepts, hwords]

end ValueType

end Parlance
