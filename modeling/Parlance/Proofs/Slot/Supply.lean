import Parlance.Proofs.Slot.Dealing
import Parlance.Usage

/-!
# Exact supply

What any number of tokens gives to a row of positional parameters, told in closed form by
how many tokens they need and how many of them are optional: `Slot.Supplies` if there are
enough, `Slot.FallsShort` if not. So the number alone decides whether a usage can take all
of its tokens and has all that it needs (`Usage.assign_exact`).
-/

set_option autoImplicit false

namespace Parlance

namespace Slot

variable {count : Nat} {ps : List Parameter}

/-! ## Enough and too few -/

/-- What `count` tokens give to parameters that need no more of them. -/
structure Supplies (count : Nat) (ps : List Parameter) (slots : List Slot) (taken : Nat) :
    Prop where
  complete : missing ∉ slots
  given : ∀ pair ∈ ps.zip slots, pair.1.isRequired = true → ∃ index, pair.2 = token index
  /-- Of the optional parameters, those at the front have the tokens that are not needed. -/
  spared : filledOf Parameter.isOptional ps slots =
    List.replicate (min (ps.countP Parameter.isOptional) (count - need ps)) true ++
      List.replicate (ps.countP Parameter.isOptional - (count - need ps)) false
  /-- A greedy parameter has all tokens behind those of the others. -/
  rest : ∀ pair ∈ ps.zip slots, pair.1.isGreedy = true →
    pair.2 = greedy (ps.countP Parameter.isRequired +
      min (ps.countP Parameter.isOptional) (count - need ps)) count
  nonempty : ∀ pair ∈ ps.zip slots, pair.1.isGreedy = true → pair.1.fallback? = none →
    pair.2.isFilled = true
  taken : taken = if ps.any Parameter.isGreedy then count else min count ps.length

/-- What `count` tokens give to parameters that need more of them. -/
structure FallsShort (count : Nat) (ps : List Parameter) (slots : List Slot) : Prop where
  skipped : ∀ pair ∈ ps.zip slots, pair.1.isOptional = true → pair.2 = skipped
  /-- Of the parameters that need a token, those at the front have one. -/
  first : filledOf Parameter.needsToken ps slots =
    List.replicate count true ++ List.replicate (need ps - count) false

theorem supplies_assign (hflags : ∀ p ∈ ps, p.isFlag = false)
    (hgreedy : ∀ p ∈ ps.dropLast, p.isGreedy = false) (hcount : need ps ≤ count) :
    Supplies count ps (assign ps count).1 (assign ps count).2 := by
  have hneed := need_eq_countP hgreedy
  have hspare : 0 + ps.countP Parameter.needsToken + (count - need ps) = count := by omega
  have hdealt := dealt_assignFrom hflags hgreedy hspare
  have hstart : upTo 0 (count - need ps) ps = ps.countP Parameter.isRequired +
      min (ps.countP Parameter.isOptional) (count - need ps) := by rw [upTo, Nat.zero_add]
  have hrest := hdealt.greedy_eq
  rw [hstart] at hrest
  refine ⟨hdealt.missing_not_mem, hdealt.exists_token, hdealt.filledOf_isOptional,
    fun pair hpair hp => (hrest pair hpair hp).1, fun pair hpair hp => (hrest pair hpair hp).2, ?_⟩
  rw [assign, hdealt.taken_eq, hstart]
  cases hany : ps.any Parameter.isGreedy with
  | true => rfl
  | false =>
    have hnone : ∀ p ∈ ps, p.isGreedy = false := by simpa using hany
    have hlength := Parameter.length_eq_countP hflags hnone
    have hneeds : need ps = ps.countP Parameter.isRequired := by
      rw [hneed]
      exact List.countP_congr fun p hp => by rw [Parameter.needsToken_eq_isRequired (hnone p hp)]
    simp only [Bool.false_eq_true, if_false]
    omega

theorem fallsShort_assign (hflags : ∀ p ∈ ps, p.isFlag = false)
    (hgreedy : ∀ p ∈ ps.dropLast, p.isGreedy = false) (hcount : count < need ps) :
    FallsShort count ps (assign ps count).1 := by
  rw [need_eq_countP hgreedy] at hcount
  have hshort : count ≤ 0 + ps.countP Parameter.needsToken := by omega
  refine ⟨skipped_of_short hshort, ?_⟩
  rw [need_eq_countP hgreedy]
  simpa [assign] using filledOf_of_short hflags hgreedy (Nat.zero_le count) hshort

/-- There are enough tokens where nothing that needs one is left without. -/
theorem need_le_of_complete (hflags : ∀ p ∈ ps, p.isFlag = false)
    (hlast : ∀ p ∈ ps.dropLast, p.isGreedy = false) (hmissing : .missing ∉ (assign ps count).1)
    (hgreedy : ∀ pair ∈ ps.zip (assign ps count).1, pair.1.isGreedy = true →
      pair.1.fallback? = none → pair.2.isFilled = true) : need ps ≤ count := by
  refine Nat.le_of_not_lt fun hcount => ?_
  have hall : ∀ filled ∈ filledOf Parameter.needsToken ps (assign ps count).1, filled = true := by
    intro filled hmem
    obtain ⟨pair, hpair, rfl⟩ := List.mem_map.1 hmem
    obtain ⟨hpair, hneeds⟩ := List.mem_filter.1 hpair
    exact isFilled_of_needsToken hmissing hgreedy pair hpair hneeds
  have hempty : false ∈ filledOf Parameter.needsToken ps (assign ps count).1 := by
    rw [(fallsShort_assign hflags hlast hcount).first]
    exact List.mem_append_right _ (List.mem_replicate.2 ⟨by omega, rfl⟩)
  cases hall false hempty

end Slot

/-! ## Usages -/

/-- How many tokens there are decides what each positional parameter of a usage gets, as
long as only the last is greedy. The tokens are all taken, and nothing that needs one is
left without, if and only if there are enough of them and not more than the usage takes. -/
theorem Usage.assign_exact {Act : Type} (usage : Usage Act)
    (hgreedy : ∀ p ∈ usage.positional.dropLast, p.isGreedy = false) (count : Nat) :
    let ps := usage.positional
    let slots := (Slot.assign ps count).1
    let taken := (Slot.assign ps count).2
    (Slot.need ps ≤ count → Slot.Supplies count ps slots taken) ∧
    (count < Slot.need ps → Slot.FallsShort count ps slots) ∧
    ((.missing ∉ slots ∧
        (∀ pair ∈ ps.zip slots, pair.1.isGreedy = true → pair.1.fallback? = none →
          pair.2.isFilled = true) ∧
        taken = count) ↔
      Slot.need ps ≤ count ∧ ∀ most, usage.maxLength = some most → count ≤ most) := by
  intro ps slots taken
  have hflags : ∀ p ∈ ps, p.isFlag = false := fun p hp => by simpa using (List.mem_filter.1 hp).2
  have hsupplies : Slot.need ps ≤ count → Slot.Supplies count ps slots taken :=
    Slot.supplies_assign hflags hgreedy
  have hmost : (∀ most, usage.maxLength = some most → count ≤ most) ↔
      (ps.any Parameter.isGreedy = false → count ≤ ps.length) := by
    rw [maxLength]
    cases ps.any Parameter.isGreedy <;> simp [ps]
  refine ⟨hsupplies, Slot.fallsShort_assign hflags hgreedy, ?_⟩
  rw [hmost]
  constructor
  · rintro ⟨hmissing, hfilled, htaken⟩
    have hneed := Slot.need_le_of_complete hflags hgreedy hmissing hfilled
    refine ⟨hneed, fun hnone => ?_⟩
    have hlength := (hsupplies hneed).taken
    rw [hnone, htaken] at hlength
    simp at hlength
    omega
  · rintro ⟨hneed, hlength⟩
    have hsupply := hsupplies hneed
    refine ⟨hsupply.complete, hsupply.nonempty, ?_⟩
    rw [hsupply.taken]
    cases hany : ps.any Parameter.isGreedy with
    | true => rfl
    | false =>
      have hle := hlength hany
      simp only [Bool.false_eq_true, if_false]
      omega

/-- A usage for praising somebody for a number of times, with a title and a reason. -/
def praising : Usage Unit := .ofParameters [
  { name := "player", kind := .required .word },
  { name := "times", kind := .optional .integer none },
  { name := "as", kind := .literal [] },
  { name := "title", kind := .optional .word none },
  { name := "reason", kind := .greedy none }]

/-- Of four tokens one is spare and goes to the first optional parameter; two tokens do not
reach the reason. -/
theorem Usage.assign_exact_praising :
    (∀ p ∈ praising.positional.dropLast, p.isGreedy = false) ∧
    Slot.need praising.positional = 3 ∧
    Slot.assign praising.positional 4 =
      ([.token 0, .token 1, .token 2, .skipped, .greedy 3 4], 4) ∧
    Slot.Supplies 4 praising.positional [.token 0, .token 1, .token 2, .skipped, .greedy 3 4] 4 ∧
    Slot.assign praising.positional 2 =
      ([.token 0, .skipped, .token 1, .skipped, .greedy 2 2], 2) ∧
    Slot.FallsShort 2 praising.positional
      [.token 0, .skipped, .token 1, .skipped, .greedy 2 2] := by
  have hgreedy : ∀ p ∈ praising.positional.dropLast, p.isGreedy = false := by decide
  obtain ⟨hsupplies, -, -⟩ := Usage.assign_exact praising hgreedy 4
  obtain ⟨-, hshort, -⟩ := Usage.assign_exact praising hgreedy 2
  exact ⟨hgreedy, rfl, rfl, hsupplies (by decide), rfl, hshort (by decide)⟩

end Parlance
