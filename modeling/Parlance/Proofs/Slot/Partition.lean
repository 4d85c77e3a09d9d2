import Parlance.Proofs.Slot.Step

/-!
# Slots in a row

Read from left to right, the slots of parameters of any kinds hold the tokens one after the
other, from the first to the last one taken, each of them once.
-/

set_option autoImplicit false

namespace Parlance.Slot

variable {count cursor : Nat} {ps : List Parameter} {tokens : List String}

/-- Indices of the tokens that go to the slot. -/
def indices : Slot → List Nat
  | token index => [index]
  | greedy start stop => List.range' start (stop - start)
  | skipped => []
  | missing => []

/-- The tokens that go to the slot. -/
def tokensIn (tokens : List String) (slot : Slot) : List String :=
  slot.indices.filterMap fun index => tokens[index]?

/-- The next token is not in front of those that are taken, nor behind all that there are. -/
theorem Gives.bounds {p : Parameter} {slot : Slot} {next : Nat}
    (h : Gives count cursor p ps slot next) (hcursor : cursor ≤ count) :
    cursor ≤ next ∧ next ≤ count := by
  cases h <;> omega

/-- Tokens are taken one after the other, and never more than there are. -/
theorem taken_bounds (hcursor : cursor ≤ count) (ps : List Parameter) :
    cursor ≤ (assignFrom count cursor ps).2 ∧ (assignFrom count cursor ps).2 ≤ count := by
  induction ps generalizing cursor with
  | nil => exact ⟨Nat.le_refl cursor, hcursor⟩
  | cons p ps ih =>
    obtain ⟨slot, next, hgives, hassign⟩ := exists_gives count cursor p ps
    have hnext := hgives.bounds hcursor
    rw [hassign]
    exact ⟨Nat.le_trans hnext.1 (ih hnext.2).1, (ih hnext.2).2⟩

/-- From left to right the slots hold the indices from `cursor` up to the last one taken. -/
theorem flatMap_indices (hcursor : cursor ≤ count) (ps : List Parameter) :
    (assignFrom count cursor ps).1.flatMap indices =
      List.range' cursor ((assignFrom count cursor ps).2 - cursor) := by
  induction ps generalizing cursor with
  | nil => simp [assignFrom]
  | cons p ps ih =>
    obtain ⟨slot, next, hgives, hassign⟩ := exists_gives count cursor p ps
    -- One slot holds the indices up to where the next one begins.
    have hindices : slot.indices = List.range' cursor (next - cursor) := by
      cases hgives with
      | greedy => rfl
      | token => simp [indices]
      | skipped => simp [indices]
      | missing => simp [indices]
    have hnext := hgives.bounds hcursor
    have hbehind := (taken_bounds hnext.2 ps).1
    have hlength : (assignFrom count next ps).2 - cursor =
        next - cursor + ((assignFrom count next ps).2 - next) := by omega
    have hstart : cursor + 1 * (next - cursor) = next := by omega
    rw [hassign, List.flatMap_cons, hindices, ih hnext.2, hlength, ← List.range'_append, hstart]

/-- Indices in a row stand for tokens in a row. -/
theorem filterMap_range' (start length : Nat) :
    (List.range' start length).filterMap (fun index => tokens[index]?) =
      (tokens.drop start).take length := by
  induction length generalizing start with
  | zero => simp
  | succ length ih =>
    rw [List.range'_succ, List.filterMap_cons, ih]
    cases htoken : tokens[start]? with
    | none =>
      have hle : tokens.length ≤ start := List.getElem?_eq_none_iff.1 htoken
      rw [List.drop_eq_nil_of_le hle, List.drop_eq_nil_of_le (Nat.le_succ_of_le hle)]
      simp
    | some token =>
      obtain ⟨hlt, heq⟩ := List.getElem?_eq_some_iff.1 htoken
      rw [List.drop_eq_getElem_cons hlt, heq, List.take_succ_cons]

theorem tokensIn_greedy (tokens : List String) (start stop : Nat) :
    (greedy start stop).tokensIn tokens = (tokens.drop start).take (stop - start) :=
  filterMap_range' start (stop - start)

/-- From left to right the slots hold the tokens that are taken, each of them once. -/
theorem flatMap_tokensIn (tokens : List String) (ps : List Parameter) :
    (assign ps tokens.length).1.flatMap (tokensIn tokens) =
      tokens.take (assign ps tokens.length).2 := by
  have hindices := flatMap_indices (Nat.zero_le tokens.length) ps
  have htokens := congrArg (List.filterMap fun index => tokens[index]?) hindices
  rwa [List.filterMap_flatMap, filterMap_range', List.drop_zero, Nat.sub_zero] at htokens

end Parlance.Slot
