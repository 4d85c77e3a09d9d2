import Mathlib.Data.List.Nodup
import Parlance.Proofs.TokenSplit.Parts

/-!
# Occurrences of flags

The occurrences are the tokens that name a flag (`mem_hits_iff_shows`), so no such token is
taken for the value of another. If the last token names a flag that takes a value, it is an
occurrence that waits for it.
-/

set_option autoImplicit false

namespace Parlance.TokenSplit

variable {flags : List Flag} {index : Nat} {token : String} {tokens xs : List String}

/-- What an occurrence of the flag carries when `next?` is the token behind it: nothing
for a switch, and otherwise that token, unless it names a flag itself. -/
def valueBefore (flags : List Flag) (flag : Flag) (next? : Option String) : FlagValue :=
  if flag.isSwitch then .present
  else
    match next? with
    | none => .missing
    | some next => if (matchFlag? flags next).isSome then .missing else .raw next

theorem valueBefore_eq_present_iff {flag : Flag} {next? : Option String} :
    valueBefore flags flag next? = .present ↔ flag.isSwitch = true := by
  unfold valueBefore
  cases hswitch : flag.isSwitch with
  | true => simp
  | false =>
    cases next? with
    | none => simp
    | some next => cases hnext : matchFlag? flags next <;> simp [hnext]

theorem valueBefore_eq_raw_iff {flag : Flag} {next? : Option String} {value : String} :
    valueBefore flags flag next? = .raw value ↔
      flag.isSwitch = false ∧ next? = some value ∧ matchFlag? flags value = none := by
  unfold valueBefore
  cases hswitch : flag.isSwitch with
  | true => simp
  | false =>
    cases next? with
    | none => simp
    | some next => by_cases heq : next = value <;> cases hnext : matchFlag? flags next <;> simp_all

/-- A token names the flag of the occurrence, which carries what the token behind makes it
carry; the first token has the given index. -/
def Shows (flags : List Flag) (index : Nat) (tokens : List String) (hit : FlagHit) : Prop :=
  ∃ k, hit.index = index + k ∧ (tokens[k]?).bind (matchFlag? flags) = some hit.flag ∧
    hit.value = valueBefore flags hit.flag tokens[k + 1]?

theorem shows_cons_iff {hit : FlagHit} : Shows flags index (token :: tokens) hit ↔
    (hit.index = index ∧ matchFlag? flags token = some hit.flag ∧
      hit.value = valueBefore flags hit.flag tokens.head?) ∨
    Shows flags (index + 1) tokens hit := by
  rw [Shows, ← Nat.or_exists_add_one, Shows]
  simp [List.head?_eq_getElem?, Nat.add_assoc, Nat.add_comm 1]

theorem shows_cons_of_none {hit : FlagHit} (h : matchFlag? flags token = none) :
    Shows flags index (token :: tokens) hit ↔ Shows flags (index + 1) tokens hit := by
  simp [shows_cons_iff, h]

theorem shows_cons_of_some {flag : Flag} {hit : FlagHit} (h : matchFlag? flags token = some flag) :
    Shows flags index (token :: tokens) hit ↔
      hit = ⟨flag, index, valueBefore flags flag tokens.head?⟩ ∨
      Shows flags (index + 1) tokens hit := by
  rw [shows_cons_iff, h, Option.some_inj]
  refine or_congr_left ⟨?_, ?_⟩
  · rintro ⟨hindex, rfl, hvalue⟩
    rw [← hindex, ← hvalue]
  · rintro rfl
    exact ⟨rfl, rfl, rfl⟩

theorem not_shows_nil {hit : FlagHit} : ¬ Shows flags index [] hit := by
  simp [Shows]

/-- The occurrences are the tokens that name a flag, each with what the token behind it
makes it carry. -/
theorem mem_hits_iff_shows {hit : FlagHit} :
    hit ∈ (splitFrom flags index tokens).hits ↔ Shows flags index tokens hit := by
  fun_induction splitFrom flags index tokens with
  | case1 index => exact iff_of_false List.not_mem_nil not_shows_nil
  | case2 index token tokens hnone ih => rw [hits_addPositional, ih, shows_cons_of_none hnone]
  | case3 index token tokens flag hflag hswitch ih =>
    have hvalue : valueBefore flags flag tokens.head? = .present := by simp [valueBefore, hswitch]
    rw [hits_addHit, List.mem_cons, ih, shows_cons_of_some hflag, hvalue]
  | case4 index token flag hflag hvalued =>
    have hvalue : valueBefore flags flag ([] : List String).head? = .missing := by
      simp [valueBefore, hvalued]
    rw [hits_addHit, List.mem_cons, shows_cons_of_some hflag, hvalue]
    exact or_congr_right (iff_of_false List.not_mem_nil not_shows_nil)
  | case5 index token flag hflag hvalued next rest hnext ih =>
    have hvalue : valueBefore flags flag (next :: rest).head? = .missing := by
      simp [valueBefore, hvalued, hnext]
    rw [hits_addHit, List.mem_cons, ih, shows_cons_of_some hflag, hvalue]
  | case6 index token flag hflag hvalued next rest hnext ih =>
    have hnone : matchFlag? flags next = none := by simpa using hnext
    have hvalue : valueBefore flags flag (next :: rest).head? = .raw next := by
      simp [valueBefore, hvalued, hnext]
    rw [hits_addHit, List.mem_cons, ih, shows_cons_of_some hflag, shows_cons_of_none hnone, hvalue]

/-- An occurrence stands at a token that names its flag, and is without a value to
take exactly if the flag is a switch. -/
theorem exists_token_of_mem_hits {hit : FlagHit} (h : hit ∈ (splitFrom flags index tokens).hits) :
    ∃ k token, hit.index = index + k ∧ tokens[k]? = some token ∧
      matchFlag? flags token = some hit.flag ∧
      (hit.flag.isSwitch = true ↔ hit.value = .present) := by
  obtain ⟨k, hindex, hnamed, hvalue⟩ := mem_hits_iff_shows.1 h
  obtain ⟨token, htoken, hmatch⟩ := Option.bind_eq_some_iff.1 hnamed
  exact ⟨k, token, hindex, htoken, hmatch, by rw [hvalue, valueBefore_eq_present_iff]⟩

/-- The value that an occurrence carries is the next token. -/
theorem exists_next_of_mem_hits {hit : FlagHit} {value : String}
    (h : hit ∈ (splitFrom flags index tokens).hits) (hvalue : hit.value = .raw value) :
    ∃ k, hit.index = index + k ∧ tokens[k + 1]? = some value := by
  obtain ⟨k, hindex, -, hcarried⟩ := mem_hits_iff_shows.1 h
  exact ⟨k, hindex, (valueBefore_eq_raw_iff.1 (hcarried.symm.trans hvalue)).2.1⟩

/-- Occurrences are told in the order of their tokens. -/
theorem pairwise_index_hits :
    (splitFrom flags index tokens).hits.Pairwise fun a b => a.index < b.index := by
  fun_induction splitFrom flags index tokens with
  | case1 => exact List.Pairwise.nil
  | case2 index token tokens hnone ih => exact ih
  | case3 index token tokens flag hflag hswitch ih =>
    exact List.pairwise_cons.2 ⟨fun hit hmem => (index_mem_range hmem).1, ih⟩
  | case4 index token flag hflag hvalued => exact List.pairwise_singleton _ _
  | case5 index token flag hflag hvalued next rest hnext ih =>
    exact List.pairwise_cons.2 ⟨fun hit hmem => (index_mem_range hmem).1, ih⟩
  | case6 index token flag hflag hvalued next rest hnext ih =>
    refine List.pairwise_cons.2 ⟨fun hit hmem => ?_, ih⟩
    exact Nat.lt_of_succ_lt (index_mem_range hmem).1

/-! ## The last occurrence -/

/-- The flag occurs in the tokens, and the occurrence is its last one. -/
structure OccursLast (flags : List Flag) (tokens : List String) (flag : Flag) (hit : FlagHit) :
    Prop where
  occurs : hit ∈ (ofTokens flags tokens).hits
  same : hit.flag = flag
  last : ∀ other ∈ (ofTokens flags tokens).hits, other.flag = flag → other.index ≤ hit.index
  /-- Its token names the flag. -/
  named : (tokens[hit.index]?).bind (matchFlag? flags) = some flag
  /-- Its value is the next token. -/
  next : ∀ value, hit.value = .raw value → tokens[hit.index + 1]? = some value

theorem flag_mem_of_mem_hits {hit : FlagHit} (h : hit ∈ (splitFrom flags index tokens).hits) :
    hit.flag ∈ flags := by
  obtain ⟨k, token, -, -, hmatch, -⟩ := exists_token_of_mem_hits h
  obtain ⟨word, -, hfind⟩ := Option.bind_eq_some_iff.1 hmatch
  exact List.mem_of_find?_eq_some hfind

/-- Flags with names of their own are looked up by their last occurrence. -/
theorem occursLast_of_hit? {flag : Flag} {hit : FlagHit}
    (hdistinct : (flags.map Flag.name).Nodup) (hflag : flag ∈ flags)
    (h : (ofTokens flags tokens).hit? flag.name = some hit) : OccursLast flags tokens flag hit := by
  obtain ⟨front, hsplit⟩ := List.getLast?_eq_some_iff.1 h
  have hmem : ∀ other, other ∈ front ++ [hit] ↔
      other ∈ (ofTokens flags tokens).hits ∧ other.flag.name = flag.name := by
    intro other
    rw [← hsplit, List.mem_filter, beq_iff_eq]
  obtain ⟨hoccurs, hname⟩ := (hmem hit).1 (List.mem_append_right _ List.mem_cons_self)
  have hsame : hit.flag = flag :=
    List.inj_on_of_nodup_map hdistinct (flag_mem_of_mem_hits hoccurs) hflag hname
  refine ⟨hoccurs, hsame, ?_, ?_, ?_⟩
  · intro other hother hflag
    have hordered : (front ++ [hit]).Pairwise fun a b => a.index < b.index :=
      hsplit ▸ pairwise_index_hits.sublist List.filter_sublist
    rcases List.mem_append.1 ((hmem other).2 ⟨hother, by rw [hflag]⟩) with hfront | hlast
    · exact Nat.le_of_lt ((List.pairwise_append.1 hordered).2.2 other hfront hit List.mem_cons_self)
    · exact Nat.le_of_eq (congrArg FlagHit.index (List.mem_singleton.1 hlast))
  · obtain ⟨k, token, hindex, htoken, hmatch, -⟩ := exists_token_of_mem_hits hoccurs
    rw [hindex, Nat.zero_add, htoken, ← hsame]
    exact hmatch
  · intro value hvalue
    obtain ⟨k, hindex, hnext⟩ := exists_next_of_mem_hits hoccurs hvalue
    rw [hindex, Nat.zero_add]
    exact hnext

/-- An occurrence carries no value exactly if its flag is a switch. -/
theorem OccursLast.isSwitch_iff {flag : Flag} {hit : FlagHit}
    (h : OccursLast flags tokens flag hit) : flag.isSwitch = true ↔ hit.value = .present := by
  obtain ⟨k, token, -, -, -, hswitch⟩ := exists_token_of_mem_hits h.occurs
  rwa [h.same] at hswitch

/-- A flag occurs last in one place only. -/
theorem OccursLast.unique {flag : Flag} {hit other : FlagHit}
    (h : OccursLast flags tokens flag hit) (hother : OccursLast flags tokens flag other) :
    hit = other := by
  have hindices : ((ofTokens flags tokens).hits.map FlagHit.index).Nodup :=
    List.pairwise_map.2 (pairwise_index_hits.imp Nat.ne_of_lt)
  have hindex : hit.index = other.index :=
    Nat.le_antisymm (hother.last hit h.occurs h.same) (h.last other hother.occurs hother.same)
  exact List.inj_on_of_nodup_map hindices h.occurs hother.occurs hindex

/-- A flag that is looked up in vain does not occur. -/
theorem not_mem_of_hit?_eq_none {flag : Flag} (h : (ofTokens flags tokens).hit? flag.name = none) :
    ∀ hit ∈ (ofTokens flags tokens).hits, hit.flag ≠ flag := by
  intro hit hmem hsame
  have hempty := List.filter_eq_nil_iff.1 (List.getLast?_eq_none_iff.1 h) hit hmem
  simp [hsame] at hempty

/-- A token that names a flag is no value, so the tokens in front of it are taken apart
as if they stood alone. -/
theorem splitFrom_append_of_flag {token : String} (htoken : (matchFlag? flags token).isSome = true)
    (rest : List String) :
    splitFrom flags index (xs ++ token :: rest) =
      (splitFrom flags index xs).append (splitFrom flags (index + xs.length) (token :: rest)) :=
  splitFrom_append fun _ => ⟨token, rest, rfl, htoken⟩

/-- A last token that names a flag with a value waits for it. -/
theorem getLast?_hits_concat {token : String} {flag : Flag}
    (hflag : matchFlag? flags token = some flag) (hvalued : flag.isSwitch = false) :
    (ofTokens flags (xs ++ [token])).hits.getLast? = some ⟨flag, xs.length, .missing⟩ := by
  rw [ofTokens, splitFrom_append_of_flag (by rw [hflag]; rfl), Nat.zero_add,
    splitFrom_of_last hflag hvalued]
  exact List.getLast?_concat

end Parlance.TokenSplit
