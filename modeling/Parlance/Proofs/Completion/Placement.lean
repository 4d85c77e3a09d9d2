import Mathlib.Data.List.Induction
import Parlance.Proofs.Completion.Advancing
import Parlance.Proofs.Rows
import Parlance.Proofs.Slot.Dealing

/-!
# Placements of tokens

What a way through the parameters comes to, told without its steps: a row of places, one
for each token (`Matcher.IsPlacement`). The indices that completion keeps behind tokens
are those that become current behind such a row (`Completion.advance_reaches_placements`).
-/

set_option autoImplicit false

namespace Parlance

/-! ## Places -/

/-- The tokens go to the parameters at these places. -/
structure Matcher.IsPlacement (m : Matcher) (params : List Parameter) (tokens : List String)
    (places : List (Fin params.length)) : Prop where
  /-- Each token goes to a parameter that accepts it. -/
  accepts : List.Forall₂ (fun token i => m.accepts params[i] token = true) tokens places
  /-- No token goes to a parameter in front of one that has an earlier token. -/
  ordered : places.Pairwise (· ≤ ·)
  /-- A parameter without a token in front of one that has a token is optional. -/
  passed : ∀ i ∉ places, (∃ k ∈ places, i < k) → params[i].isOptional = true
  /-- Only a greedy parameter has more than one token. -/
  single : ∀ i : Fin params.length, params[i].isGreedy = false → places.count i ≤ 1
  /-- All tokens behind one that goes to a greedy parameter go there too. -/
  absorbs : places.Pairwise fun i k => params[i].isGreedy = true → k = i

/-- The index that is current behind a token at this place. -/
def indexAfter (params : List Parameter) (i : Fin params.length) : Nat :=
  if params[i].isGreedy then i else i + 1

/-- The index that is current behind tokens at these places. -/
def indexBehind (params : List Parameter) (places : List (Fin params.length)) : Nat :=
  match places.getLast? with
  | none => 0
  | some last => indexAfter params last

/-- The token may go to this place when the parameter at `start` is current. -/
structure Matcher.IsNext (m : Matcher) (params : List Parameter) (token : String) (start : Nat)
    (k : Fin params.length) : Prop where
  le : start ≤ k
  passed : ∀ i : Fin params.length, start ≤ i → i < k → params[i].isOptional = true
  accepts : m.accepts params[k] token = true

section Index

variable {params : List Parameter} {places : List (Fin params.length)} {k : Fin params.length}

theorem indexAfter_of_greedy (hgreedy : params[k].isGreedy = true) : indexAfter params k = k := by
  rw [indexAfter, if_pos hgreedy]

theorem indexAfter_of_not_greedy (hgreedy : params[k].isGreedy = false) :
    indexAfter params k = k + 1 := by
  rw [indexAfter, hgreedy, if_neg Bool.false_ne_true]

theorem indexAfter_le_succ (k : Fin params.length) : indexAfter params k ≤ k + 1 := by
  rw [indexAfter]
  split <;> omega

theorem drop_indexAfter (k : Fin params.length) : params.drop (indexAfter params k) =
    if params[k].isGreedy then params[k] :: params.drop (k + 1) else params.drop (k + 1) := by
  rw [indexAfter]
  split
  · exact List.drop_eq_getElem_cons k.isLt
  · rfl

theorem indexBehind_concat (places : List (Fin params.length)) (k : Fin params.length) :
    indexBehind params (places ++ [k]) = indexAfter params k := by
  rw [indexBehind, List.getLast?_concat]

theorem indexBehind_le (params : List Parameter) (places : List (Fin params.length)) :
    indexBehind params places ≤ params.length := by
  rcases List.eq_nil_or_concat places with rfl | ⟨front, last, rfl⟩
  · exact Nat.zero_le _
  · rw [List.concat_eq_append, indexBehind_concat]
    exact Nat.le_trans (indexAfter_le_succ last) last.isLt

end Index

/-! ## One token -/

theorem exists_of_drop_eq_cons {params ps : List Parameter} {p : Parameter} {start : Nat}
    (h : params.drop start = p :: ps) :
    ∃ hstart : start < params.length, p = params[start] ∧ ps = params.drop (start + 1) := by
  have hstart : start < params.length := by
    rw [← Nat.not_le, ← List.drop_eq_nil_iff, h]
    exact List.cons_ne_nil p ps
  rw [List.drop_eq_getElem_cons hstart] at h
  obtain ⟨hhead, htail⟩ := List.cons.inj h
  exact ⟨hstart, hhead.symm, htail.symm⟩

namespace Matcher

variable {m : Matcher} {token : String} {tokens : List String} {params left : List Parameter}
  {places : List (Fin params.length)} {i k : Fin params.length} {start : Nat}

/-- A greedy parameter that is current gets the token. -/
theorem IsNext.eq_of_greedy (h : m.IsNext params token i k)
    (hgreedy : params[i].isGreedy = true) : k = i := by
  by_contra hne
  have hlt : i < k := Nat.lt_of_le_of_ne h.le (Fin.val_ne_of_ne (Ne.symm hne))
  have hoptional := h.passed i (Nat.le_refl _) hlt
  rw [Parameter.isOptional_eq_false_of_greedy hgreedy] at hoptional
  cases hoptional

/-- A token that is taken by the parameters from an index on goes to one of them, with
only optional ones in front of it. -/
theorem exists_isNext_of_takes_drop (h : m.Takes token (params.drop start) left) :
    ∃ k, m.IsNext params token start k ∧ left = params.drop (indexAfter params k) := by
  generalize hps : params.drop start = ps at h
  induction h generalizing start with
  | @here p ps haccepts =>
    obtain ⟨hstart, rfl, rfl⟩ := exists_of_drop_eq_cons hps
    refine ⟨⟨start, hstart⟩, ⟨Nat.le_refl _, fun i hle hlt => ?_, haccepts⟩, ?_⟩
    · exact absurd hlt (Nat.not_lt.2 hle)
    · exact (drop_indexAfter ⟨start, hstart⟩).symm
  | @pass p ps left hoptional hlater ih =>
    obtain ⟨hstart, rfl, rfl⟩ := exists_of_drop_eq_cons hps
    obtain ⟨k, hnext, rfl⟩ := ih rfl
    refine ⟨k, ⟨Nat.le_of_succ_le hnext.le, fun i hle hlt => ?_, hnext.accepts⟩, rfl⟩
    rcases Nat.eq_or_lt_of_le hle with rfl | hbehind
    · exact hoptional
    · exact hnext.passed i hbehind hlt

theorem IsNext.takes_drop (h : m.IsNext params token start k) :
    m.Takes token (params.drop start) (params.drop (indexAfter params k)) := by
  -- By the number of parameters that are passed over.
  generalize hgap : (k : Nat) - start = gap
  induction gap generalizing start with
  | zero =>
    obtain rfl : start = k := Nat.le_antisymm h.le (Nat.le_of_sub_eq_zero hgap)
    rw [drop_indexAfter, List.drop_eq_getElem_cons k.isLt]
    exact .here h.accepts
  | succ gap ih =>
    have hlt : start < k := by omega
    have hstart : start < params.length := Nat.lt_trans hlt k.isLt
    have hoptional : params[start].isOptional = true :=
      h.passed ⟨start, hstart⟩ (Nat.le_refl _) hlt
    rw [List.drop_eq_getElem_cons hstart]
    refine .pass hoptional (ih ⟨hlt, fun i hle hik => ?_, h.accepts⟩ (by omega))
    exact h.passed i (Nat.le_of_succ_le hle) hik

/-! ## Rows of places -/

theorem isPlacement_nil_iff : m.IsPlacement params [] places ↔ places = [] := by
  constructor
  · intro h
    exact List.forall₂_nil_left_iff.1 h.accepts
  · rintro rfl
    exact ⟨.nil, .nil, by simp, by simp, .nil⟩

namespace IsPlacement

/-- The last place is behind all others, or is the greedy parameter that they end at. -/
theorem exists_last (h : m.IsPlacement params tokens places) (hplaces : places ≠ []) :
    ∃ last ∈ places, indexBehind params places = indexAfter params last ∧
      ∀ i ∈ places, i ≤ last ∧ (params[i].isGreedy = true → last = i) := by
  rcases List.eq_nil_or_concat places with rfl | ⟨front, last, rfl⟩
  · exact absurd rfl hplaces
  · rw [List.concat_eq_append] at h ⊢
    refine ⟨last, by simp, indexBehind_concat front last, fun i hi => ?_⟩
    rcases List.mem_append.1 hi with hfront | hlast
    · exact ⟨(pairwise_concat_iff.1 h.ordered).2 i hfront,
        (pairwise_concat_iff.1 h.absorbs).2 i hfront⟩
    · obtain rfl := List.mem_singleton.1 hlast
      exact ⟨Fin.le_refl i, fun _ => rfl⟩

/-- A greedy parameter that has a token stays current. -/
theorem indexBehind_of_greedy (h : m.IsPlacement params tokens places) (hi : i ∈ places)
    (hgreedy : params[i].isGreedy = true) : indexBehind params places = i := by
  obtain ⟨last, -, hbehind, hall⟩ := h.exists_last (List.ne_nil_of_mem hi)
  obtain rfl := (hall i hi).2 hgreedy
  rw [hbehind, indexAfter_of_greedy hgreedy]

/-- Any other parameter that has a token is no longer current. -/
theorem lt_indexBehind (h : m.IsPlacement params tokens places) (hi : i ∈ places)
    (hgreedy : params[i].isGreedy = false) : i < indexBehind params places := by
  obtain ⟨last, -, hbehind, hall⟩ := h.exists_last (List.ne_nil_of_mem hi)
  have hle : i ≤ last := (hall i hi).1
  rw [hbehind]
  cases hlast : params[last].isGreedy with
  | true =>
    have hne : i ≠ last := by
      rintro rfl
      rw [hgreedy] at hlast
      cases hlast
    rw [indexAfter_of_greedy hlast]
    exact Nat.lt_of_le_of_ne hle (Fin.val_ne_of_ne hne)
  | false =>
    rw [indexAfter_of_not_greedy hlast]
    exact Nat.lt_succ_of_le hle

theorem le_indexBehind (h : m.IsPlacement params tokens places) (hi : i ∈ places) :
    i ≤ indexBehind params places := by
  cases hgreedy : params[i].isGreedy with
  | true => exact Nat.le_of_eq (h.indexBehind_of_greedy hi hgreedy).symm
  | false => exact Nat.le_of_lt (h.lt_indexBehind hi hgreedy)

/-- A parameter in front of the current index has a token or is optional. -/
theorem isOptional_of_lt_indexBehind (h : m.IsPlacement params tokens places) (hi : i ∉ places)
    (hlt : i < indexBehind params places) : params[i].isOptional = true := by
  have hplaces : places ≠ [] := by
    rintro rfl
    exact absurd hlt (Nat.not_lt_zero _)
  obtain ⟨last, hlast, hbehind, -⟩ := h.exists_last hplaces
  have hle : i ≤ last := by
    rw [hbehind] at hlt
    exact Nat.le_of_lt_succ (Nat.lt_of_lt_of_le hlt (indexAfter_le_succ last))
  have hne : i ≠ last := by
    rintro rfl
    exact hi hlast
  exact h.passed i hi ⟨last, hlast, Nat.lt_of_le_of_ne hle (Fin.val_ne_of_ne hne)⟩

/-! ## One place more -/

theorem concat (h : m.IsPlacement params tokens places)
    (hnext : m.IsNext params token (indexBehind params places) k) :
    m.IsPlacement params (tokens ++ [token]) (places ++ [k]) := by
  refine ⟨forall₂_concat_iff.2 ⟨h.accepts, hnext.accepts⟩, ?ordered, ?passed, ?single, ?absorbs⟩
  case ordered =>
    exact pairwise_concat_iff.2
      ⟨h.ordered, fun i hi => Nat.le_trans (h.le_indexBehind hi) hnext.le⟩
  case passed =>
    rintro i hi ⟨l, hl, hlt⟩
    have hnot : i ∉ places := fun hmem => hi (List.mem_append_left _ hmem)
    rcases List.mem_append.1 hl with hl | hl
    · exact h.passed i hnot ⟨l, hl, hlt⟩
    · -- In front of the new place, but perhaps in front of an earlier one as well.
      obtain rfl := List.mem_singleton.1 hl
      rcases Nat.lt_or_ge i (indexBehind params places) with hfront | hbehind
      · exact h.isOptional_of_lt_indexBehind hnot hfront
      · exact hnext.passed i hbehind hlt
  case single =>
    intro i hi
    rw [List.count_append]
    by_cases hk : i = k
    · subst hk
      have hnot : i ∉ places := fun hmem => Nat.not_lt.2 hnext.le (h.lt_indexBehind hmem hi)
      simp [List.count_eq_zero_of_not_mem hnot]
    · have hnot : i ∉ [k] := by rwa [List.mem_singleton]
      rw [List.count_eq_zero_of_not_mem hnot]
      exact h.single i hi
  case absorbs =>
    refine pairwise_concat_iff.2 ⟨h.absorbs, fun i hi hgreedy => ?_⟩
    rw [h.indexBehind_of_greedy hi hgreedy] at hnext
    exact hnext.eq_of_greedy hgreedy

theorem of_concat (h : m.IsPlacement params (tokens ++ [token]) (places ++ [k])) :
    m.IsPlacement params tokens places := by
  obtain ⟨hordered, hle⟩ := pairwise_concat_iff.1 h.ordered
  refine ⟨(forall₂_concat_iff.1 h.accepts).1, hordered, ?passed, ?single,
    (pairwise_concat_iff.1 h.absorbs).1⟩
  case passed =>
    rintro i hi ⟨l, hl, hlt⟩
    refine h.passed i ?_ ⟨l, List.mem_append_left _ hl, hlt⟩
    rw [List.mem_append, List.mem_singleton]
    rintro (hmem | rfl)
    · exact hi hmem
    · exact absurd (hle l hl) (Fin.not_le.2 hlt)
  case single =>
    intro i hi
    have hcount := h.single i hi
    rw [List.count_append] at hcount
    omega

/-- Behind a parameter that takes only one token, the last token goes further on. -/
theorem lt_last (h : m.IsPlacement params (tokens ++ [token]) (places ++ [k])) (hi : i ∈ places)
    (hgreedy : params[i].isGreedy = false) : i < k := by
  have hle : i ≤ k := (pairwise_concat_iff.1 h.ordered).2 i hi
  have hne : i ≠ k := by
    rintro rfl
    have hcount := h.single i hgreedy
    have hpos := List.count_pos_iff.2 hi
    rw [List.count_append, List.count_singleton_self] at hcount
    omega
  exact Nat.lt_of_le_of_ne hle (Fin.val_ne_of_ne hne)

theorem isNext (h : m.IsPlacement params (tokens ++ [token]) (places ++ [k])) :
    m.IsNext params token (indexBehind params places) k := by
  refine ⟨?le, fun i hle hlt => ?passed, (forall₂_concat_iff.1 h.accepts).2⟩
  case le =>
    by_cases hplaces : places = []
    · rw [hplaces]
      exact Nat.zero_le _
    · obtain ⟨last, hlast, hbehind, -⟩ := h.of_concat.exists_last hplaces
      rw [hbehind]
      cases hgreedy : params[last].isGreedy with
      | true =>
        rw [indexAfter_of_greedy hgreedy]
        exact (pairwise_concat_iff.1 h.ordered).2 last hlast
      | false =>
        rw [indexAfter_of_not_greedy hgreedy]
        exact h.lt_last hlast hgreedy
  case passed =>
    refine h.passed i ?_ ⟨k, by simp, hlt⟩
    rw [List.mem_append, List.mem_singleton]
    rintro (hmem | rfl)
    · cases hgreedy : params[i].isGreedy with
      | true =>
        obtain rfl := (pairwise_concat_iff.1 h.absorbs).2 i hmem hgreedy
        exact absurd hlt (Fin.lt_irrefl k)
      | false => exact absurd (h.of_concat.lt_indexBehind hmem hgreedy) (Nat.not_lt.2 hle)
    · exact absurd hlt (Fin.lt_irrefl i)

end IsPlacement

/-- Tokens have places exactly if all but the last have, and the last may go to the next. -/
theorem isPlacement_concat_iff : m.IsPlacement params (tokens ++ [token]) places ↔
    ∃ front k, places = front ++ [k] ∧ m.IsPlacement params tokens front ∧
      m.IsNext params token (indexBehind params front) k := by
  constructor
  · intro h
    rcases List.eq_nil_or_concat places with rfl | ⟨front, k, rfl⟩
    · simpa using h.accepts.length_eq
    · rw [List.concat_eq_append] at h ⊢
      exact ⟨front, k, rfl, h.of_concat, h.isNext⟩
  · rintro ⟨front, k, rfl, hfront, hnext⟩
    exact hfront.concat hnext

/-- Every way through the parameters is a placement and leaves what is current behind it. -/
theorem consumes_iff_exists_isPlacement : m.Consumes tokens params left ↔
    ∃ places, m.IsPlacement params tokens places ∧
      left = params.drop (indexBehind params places) := by
  -- From the last token backwards: what is current depends on the last place alone.
  induction tokens using List.reverseRecOn generalizing left with
  | nil =>
    constructor
    · intro h
      cases h
      exact ⟨[], isPlacement_nil_iff.2 rfl, rfl⟩
    · rintro ⟨places, hplacement, rfl⟩
      obtain rfl := isPlacement_nil_iff.1 hplacement
      exact .done params
  | append_singleton tokens token ih =>
    rw [consumes_concat_iff]
    constructor
    · rintro ⟨between, hconsumes, htakes⟩
      obtain ⟨front, hfront, rfl⟩ := ih.1 hconsumes
      obtain ⟨k, hnext, rfl⟩ := exists_isNext_of_takes_drop htakes
      exact ⟨front ++ [k], isPlacement_concat_iff.2 ⟨front, k, rfl, hfront, hnext⟩,
        by rw [indexBehind_concat]⟩
    · rintro ⟨places, hplacement, rfl⟩
      obtain ⟨front, k, rfl, hfront, hnext⟩ := isPlacement_concat_iff.1 hplacement
      rw [indexBehind_concat]
      exact ⟨_, ih.2 ⟨front, hfront, rfl⟩, hnext.takes_drop⟩

end Matcher

/-! ## The indices that are kept -/

namespace Completion

/-- No token leads beyond the last parameter, so a step cuts nothing off. -/
theorem le_length_of_mem_stepFrom {m : Matcher} {token : String} {params : List Parameter}
    {i j : Nat} (hi : i ≤ params.length) (h : j ∈ stepFrom m token i (params.drop i)) :
    j ≤ params.length := by
  obtain ⟨k, hk, rfl, -⟩ := exists_takes_of_mem_stepFrom h
  rw [List.length_drop] at hk
  omega

theorem pairwise_lt_advance (m : Matcher) (params : List Parameter) (tokens : List String) :
    (advance m params tokens).Pairwise (· < ·) := by
  rcases List.eq_nil_or_concat tokens with rfl | ⟨front, token, rfl⟩
  · exact List.pairwise_singleton _ _
  · rw [List.concat_eq_append, advance, List.foldl_append]
    exact List.pairwise_lt_range.filter _

/-- The indices that are kept behind tokens are those that are current behind some
placement of them. They are within the row, as is all that one more token finds from
them, and each is kept once. -/
theorem advance_reaches_placements (m : Matcher) (params : List Parameter)
    (tokens : List String) :
    (∀ j, j ∈ advance m params tokens ↔
      ∃ places, m.IsPlacement params tokens places ∧ j = indexBehind params places) ∧
    (∀ j ∈ advance m params tokens, j ≤ params.length ∧
      ∀ token, ∀ i ∈ stepFrom m token j (params.drop j), i ≤ params.length) ∧
    (advance m params tokens).Pairwise (· < ·) := by
  have hreaches : ∀ j, j ∈ advance m params tokens ↔
      ∃ places, m.IsPlacement params tokens places ∧ j = indexBehind params places := by
    intro j
    rw [mem_advance_iff, Matcher.consumes_iff_exists_isPlacement]
    constructor
    · rintro ⟨hj, places, hplacement, hdrop⟩
      exact ⟨places, hplacement, eq_of_drop_eq hj (indexBehind_le params places) hdrop⟩
    · rintro ⟨places, hplacement, rfl⟩
      exact ⟨indexBehind_le params places, places, hplacement, rfl⟩
  refine ⟨hreaches, fun j hj => ?_, pairwise_lt_advance m params tokens⟩
  obtain ⟨places, -, rfl⟩ := (hreaches j).1 hj
  have hle := indexBehind_le params places
  exact ⟨hle, fun token i hi => le_length_of_mem_stepFrom hle hi⟩

/-- How many cups to brew, with which milk, of which tea, and what to say with it. -/
def brewing : List Parameter := [
  { name := "cups", kind := .optional .integer none },
  { name := "milk", kind := .optional .word none },
  { name := "tea", kind := .required .word },
  { name := "note", kind := .greedy none }]

/-- Behind a number and a word the tea or the note comes next, and not the milk; a third
word leaves the note alone. -/
theorem advance_reaches_placements_brewing :
    advance {} brewing ["2", "oat"] = [2, 3] ∧
    (∃ places, Matcher.IsPlacement {} brewing ["2", "oat"] places ∧
      2 = indexBehind brewing places) ∧
    (¬ ∃ places, Matcher.IsPlacement {} brewing ["2", "oat"] places ∧
      1 = indexBehind brewing places) ∧
    (∃ places, Matcher.IsPlacement {} brewing ["2", "oat", "mint"] places ∧
      3 = indexBehind brewing places) ∧
    3 ≤ brewing.length := by
  have htwo : advance {} brewing ["2", "oat"] = [2, 3] := by decide
  have hthree : advance {} brewing ["2", "oat", "mint"] = [3] := by decide
  obtain ⟨hreaches, hbounds, -⟩ := advance_reaches_placements {} brewing ["2", "oat"]
  have hlater := (advance_reaches_placements {} brewing ["2", "oat", "mint"]).1
  rw [htwo] at hreaches hbounds
  rw [hthree] at hlater
  refine ⟨htwo, (hreaches 2).1 (by simp), fun h => ?_, (hlater 3).1 (by simp),
    (hbounds 3 (by simp)).1⟩
  simpa using (hreaches 1).2 h

end Completion

end Parlance
