import Mathlib.Data.List.Nodup
import Parlance.Proofs.Slot.Dealing
import Parlance.Proofs.Slot.Partition
import Parlance.Resolution
import Parlance.Selection

/-!
# Slots refer to tokens that are there

Whatever the parameters and whatever their order, their slots share out the first tokens,
from left to right and each of them once (`Slot.SharesOut`). So matching and resolving never
ask for a token that is not there: what stands behind the tokens changes neither
(`Slot.assign_sharesOut`).
-/

set_option autoImplicit false

namespace Parlance

namespace Slot

variable {count cursor : Nat} {ps : List Parameter} {slot : Slot}

/-- What the slot refers to is there among `count` tokens. -/
def IsWithin (count : Nat) : Slot → Prop
  | token index => index < count
  | greedy start stop => start ≤ stop ∧ stop ≤ count
  | skipped => True
  | missing => True

/-- The slots share out the first `taken` of `count` tokens among the parameters. -/
structure SharesOut (count : Nat) (ps : List Parameter) (slots : List Slot) (taken : Nat) :
    Prop where
  /-- Every parameter has one slot. -/
  length : slots.length = ps.length
  taken_le : taken ≤ count
  /-- Read from left to right, the slots hold the indices from zero on. -/
  inOrder : slots.flatMap indices = List.range taken
  within : ∀ slot ∈ slots, slot.IsWithin count
  /-- No token goes to two parameters. -/
  disjoint : slots.Pairwise fun a b => a.indices.Disjoint b.indices

theorem isWithin_of_mem_assignFrom (hcursor : cursor ≤ count)
    (h : slot ∈ (assignFrom count cursor ps).1) : slot.IsWithin count := by
  induction ps generalizing cursor with
  | nil => cases h
  | cons p ps ih =>
    obtain ⟨first, next, hgives, hassign⟩ := exists_gives count cursor p ps
    rw [hassign] at h
    rcases List.mem_cons.1 h with rfl | h
    · cases hgives with
      | greedy => exact ⟨Nat.le_max_right _ _, Nat.max_le.2 ⟨Nat.le_refl count, hcursor⟩⟩
      | token _ hlt => exact hlt
      | skipped => exact trivial
      | missing => exact trivial
    · exact ih (hgives.bounds hcursor).2 h

theorem sharesOut_assign (ps : List Parameter) (count : Nat) :
    SharesOut count ps (assign ps count).1 (assign ps count).2 := by
  have hinOrder : (assign ps count).1.flatMap indices = List.range (assign ps count).2 := by
    rw [List.range_eq_range']
    exact flatMap_indices (Nat.zero_le count) ps
  have hdistinct : ((assign ps count).1.flatMap indices).Nodup := by
    rw [hinOrder]
    exact List.nodup_range
  exact {
    length := length_assignFrom count 0 ps
    taken_le := (taken_bounds (Nat.zero_le count) ps).2
    inOrder := hinOrder
    within := fun _ hslot => isWithin_of_mem_assignFrom (Nat.zero_le count) hslot
    disjoint := (List.nodup_flatMap.1 hdistinct).2 }

end Slot

/-! ## Reading through slots -/

namespace Matcher

variable {m : Matcher} {source : Source} {p : Parameter} {slot : Slot} {tokens : List String}
  {pairs : List (Parameter × Slot)}

/-- Matching through slots that refer to tokens reads nothing behind the tokens. -/
theorem fit_append (beyond : List String)
    (hwithin : ∀ pair ∈ pairs, pair.2.IsWithin tokens.length) :
    m.fit (tokens ++ beyond) pairs = m.fit tokens pairs := by
  induction pairs with
  | nil => rfl
  | cons pair rest ih =>
    obtain ⟨p, slot⟩ := pair
    rw [List.forall_mem_cons] at hwithin
    have hrest := ih hwithin.2
    cases slot with
    | token index =>
      have htoken : (tokens ++ beyond)[index]? = tokens[index]? :=
        List.getElem?_append_left hwithin.1
      rw [fit, fit, htoken, hrest]
    | greedy start stop => rw [fit, fit, hrest]
    | skipped => rw [fit, fit, hrest]
    | missing => rfl

theorem fill_append (beyond : List String) (hwithin : slot.IsWithin tokens.length) :
    m.fill source (tokens ++ beyond) p slot = m.fill source tokens p slot := by
  cases slot with
  | token index =>
    have htoken : (tokens ++ beyond)[index]? = tokens[index]? :=
      List.getElem?_append_left hwithin
    rw [fill, fill, htoken]
  | greedy start stop =>
    obtain ⟨hstart, hstop⟩ := hwithin
    have hstretch : ((tokens ++ beyond).drop start).take (stop - start) =
        (tokens.drop start).take (stop - start) := by
      rw [List.drop_append_of_le_length (Nat.le_trans hstart hstop), List.take_append_of_le_length]
      rw [List.length_drop]
      exact Nat.sub_le_sub_right hstop start
    rw [fill, fill, hstretch]
  | skipped => rfl
  | missing => rfl

/-- Resolving through slots that refer to tokens reads nothing behind the tokens. -/
theorem fillAll_append (beyond : List String)
    (hwithin : ∀ pair ∈ pairs, pair.2.IsWithin tokens.length) (arguments : Arguments) :
    m.fillAll source (tokens ++ beyond) arguments pairs =
      m.fillAll source tokens arguments pairs := by
  induction pairs generalizing arguments with
  | nil => rfl
  | cons pair rest ih =>
    obtain ⟨p, slot⟩ := pair
    rw [List.forall_mem_cons] at hwithin
    rw [fillAll, fillAll, fill_append beyond hwithin.1]
    simp only [ih hwithin.2]

end Matcher

/-- The slots of any parameters share out the first tokens, however many there are; and
matching and resolving through them is the same whatever stands behind the tokens. -/
theorem Slot.assign_sharesOut (ps : List Parameter) :
    (∀ count, SharesOut count ps (assign ps count).1 (assign ps count).2) ∧
    ∀ (m : Matcher) (source : Source) (tokens beyond : List String) (arguments : Arguments),
      m.fit (tokens ++ beyond) (ps.zip (assign ps tokens.length).1) =
        m.fit tokens (ps.zip (assign ps tokens.length).1) ∧
      m.fillAll source (tokens ++ beyond) arguments (ps.zip (assign ps tokens.length).1) =
        m.fillAll source tokens arguments (ps.zip (assign ps tokens.length).1) := by
  refine ⟨sharesOut_assign ps, ?_⟩
  intro m source tokens beyond arguments
  have hwithin : ∀ pair ∈ ps.zip (assign ps tokens.length).1,
      pair.2.IsWithin tokens.length := by
    rintro ⟨p, slot⟩ hpair
    exact (sharesOut_assign ps tokens.length).within slot (List.of_mem_zip hpair).2
  exact ⟨m.fit_append beyond hwithin, m.fillAll_append beyond hwithin arguments⟩

/-- A greedy parameter in the middle leaves nothing to those behind it, and a second one
gets the empty stretch at the end. -/
example :
    Slot.assign [{ name := "who", kind := .required .string }, { name := "why", kind := .greedy none },
      { name := "page", kind := .optional .integer none }, { name := "to", kind := .literal [] },
      { name := "more", kind := .greedy none }] 3 =
      ([.token 0, .greedy 1 3, .skipped, .missing, .greedy 3 3], 3) :=
  rfl

end Parlance
