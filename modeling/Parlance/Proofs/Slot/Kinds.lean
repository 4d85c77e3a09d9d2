import Parlance.Slot

/-!
# Slots and the kinds of parameters

Every parameter gets one slot, and only a greedy one gets a row of tokens.
-/

set_option autoImplicit false

namespace Parlance

/-! ## Kinds -/

/-- The parameter takes one token at most: it is neither greedy nor a flag. -/
def Parameter.IsSingle (p : Parameter) : Prop :=
  p.isOptional = true ∨ p.isRequired = true

namespace Parameter

variable {p : Parameter}

theorem isRequired_of_isLiteral (h : p.isLiteral = true) : p.isRequired = true := by
  unfold isLiteral at h
  unfold isRequired
  cases hkind : p.kind <;> simp_all

theorem isOptional_of_isRequired (h : p.isRequired = true) : p.isOptional = false := by
  unfold isRequired at h
  unfold isOptional
  split at h <;> simp_all

theorem IsSingle.isGreedy_eq_false (h : p.IsSingle) : p.isGreedy = false := by
  unfold IsSingle isOptional isRequired at h
  unfold isGreedy
  cases hkind : p.kind <;> simp_all

theorem IsSingle.needsToken_eq (h : p.IsSingle) : p.needsToken = !p.isOptional := by
  unfold IsSingle isOptional isRequired at h
  unfold needsToken isOptional
  cases hkind : p.kind <;> simp_all

theorem needsToken_of_optional (h : p.isOptional = true) : p.needsToken = false := by
  rw [IsSingle.needsToken_eq (.inl h), h]
  rfl

theorem IsSingle.needsToken_of_not_optional (hp : p.IsSingle) (h : p.isOptional = false) :
    p.needsToken = true := by
  rw [hp.needsToken_eq, h]
  rfl

theorem countP_needsToken_of_optional (h : p.isOptional = true) (ps : List Parameter) :
    (p :: ps).countP needsToken = ps.countP needsToken :=
  List.countP_cons_of_neg (Bool.eq_false_iff.1 (needsToken_of_optional h))

theorem IsSingle.countP_needsToken_of_not_optional (hp : p.IsSingle) (h : p.isOptional = false)
    (ps : List Parameter) : (p :: ps).countP needsToken = ps.countP needsToken + 1 :=
  List.countP_cons_of_pos (hp.needsToken_of_not_optional h)

/-- A greedy parameter needs a token exactly if it has no fallback. -/
theorem needsToken_of_greedy (hgreedy : p.isGreedy = true) :
    p.needsToken = p.fallback?.isNone := by
  unfold isGreedy at hgreedy
  unfold needsToken fallback?
  cases hkind : p.kind <;> simp_all

/-- A positional parameter takes one token at most or is greedy. -/
theorem isSingle_of_not_greedy (hflag : p.isFlag = false) (hgreedy : p.isGreedy = false) :
    p.IsSingle := by
  unfold isFlag at hflag
  unfold isGreedy at hgreedy
  unfold IsSingle isOptional isRequired
  cases hkind : p.kind <;> simp_all

/-- A value that is given by one token has a type. -/
theorem IsSingle.exists_type? (hp : p.IsSingle) (hliteral : p.isLiteral = false) :
    ∃ type, p.type? = some type := by
  unfold IsSingle isOptional isRequired at hp
  unfold isLiteral at hliteral
  unfold type?
  cases hkind : p.kind <;> simp_all

end Parameter

/-! ## Slots -/

namespace Slot

theorem length_assignFrom (count cursor : Nat) (ps : List Parameter) :
    (assignFrom count cursor ps).1.length = ps.length := by
  induction ps generalizing cursor with
  | nil => rfl
  | cons p ps ih =>
    rw [assignFrom]
    simp [ih]

theorem isGreedy_of_mem_zip_assignFrom {count cursor : Nat} {ps : List Parameter} {p : Parameter}
    {start stop : Nat} (h : (p, greedy start stop) ∈ ps.zip (assignFrom count cursor ps).1) :
    p.isGreedy = true := by
  induction ps generalizing cursor with
  | nil => simp at h
  | cons q qs ih =>
    rw [assignFrom] at h
    rcases List.mem_cons.1 h with heq | h
    · obtain ⟨rfl, hslot⟩ := Prod.mk.inj heq
      unfold Parameter.isGreedy
      cases hkind : p.kind with
      | greedy fallback => rfl
      | optional type fallback =>
        simp only [hkind] at hslot
        split at hslot <;> cases hslot
      | _ =>
        simp only [hkind] at hslot
        split at hslot <;> cases hslot
    · exact ih h

end Slot

end Parlance
