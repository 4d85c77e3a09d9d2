import Parlance.TokenSplit

/-!
# Splitting tokens part by part

Tokens in a row are taken apart one part after the other, wherever no flag at the
end of a part still waits for its value (`TokenSplit.ofTokens_append`). So a part
that holds flags and their values only may stand in any of these places: all that
is read of the split stays the same (`TokenSplit.readsAs_move`). The least of such
parts are a switch, and a flag with its value (`TokenSplit.IsBlock`).
-/

set_option autoImplicit false

namespace Parlance

namespace TokenSplit

variable {flags : List Flag} {index : Nat} {token : String} {tokens xs ys zs block : List String}

/-! ## Splits in a row -/

/-- One split behind another. -/
def append (front back : TokenSplit) : TokenSplit where
  positional := front.positional ++ back.positional
  hits := front.hits ++ back.hits

/-- The split of the same tokens, when `offset` others stand in front of them. -/
def shift (offset : Nat) (split : TokenSplit) : TokenSplit where
  positional := split.positional
  hits := split.hits.map fun hit => { hit with index := offset + hit.index }

/-- The last of `count` tokens is a flag that waits for its value. -/
def waitsAt (split : TokenSplit) (count : Nat) : Bool :=
  split.hits.getLast?.any fun hit => hit.value == .missing && hit.index + 1 == count

/-- The tokens end in a flag that waits for its value. -/
def waits (flags : List Flag) (tokens : List String) : Bool :=
  (ofTokens flags tokens).waitsAt tokens.length

@[simp] theorem positional_addPositional (split : TokenSplit) :
    (split.addPositional token).positional = token :: split.positional := rfl

@[simp] theorem hits_addPositional (split : TokenSplit) :
    (split.addPositional token).hits = split.hits := rfl

@[simp] theorem positional_addHit (flag : Flag) (value : FlagValue) (split : TokenSplit) :
    (split.addHit flag index value).positional = split.positional := rfl

@[simp] theorem hits_addHit (flag : Flag) (value : FlagValue) (split : TokenSplit) :
    (split.addHit flag index value).hits = ⟨flag, index, value⟩ :: split.hits := rfl

@[simp] theorem waitsAt_addPositional (split : TokenSplit) (count : Nat) :
    (split.addPositional token).waitsAt count = split.waitsAt count := rfl

/-- A flag with others behind it, or with a value, does not make the tokens wait. -/
theorem waitsAt_addHit {flag : Flag} {value : FlagValue} {split : TokenSplit} {count : Nat}
    (h : value ≠ .missing ∨ split.hits ≠ []) :
    (split.addHit flag index value).waitsAt count = split.waitsAt count := by
  rw [waitsAt, waitsAt, hits_addHit]
  cases hhits : split.hits with
  | nil =>
    have hvalue : value ≠ .missing := h.resolve_right (by simp [hhits])
    simp [hvalue]
  | cons hit hits => rw [List.getLast?_cons_cons]

/-! ## The first tokens -/

theorem splitFrom_of_positional (h : matchFlag? flags token = none) :
    splitFrom flags index (token :: tokens) =
      (splitFrom flags (index + 1) tokens).addPositional token := by
  rw [splitFrom, h]

theorem splitFrom_of_switch {flag : Flag} (h : matchFlag? flags token = some flag)
    (hswitch : flag.isSwitch = true) :
    splitFrom flags index (token :: tokens) =
      (splitFrom flags (index + 1) tokens).addHit flag index .present := by
  simp [splitFrom, h, hswitch]

theorem splitFrom_of_last {flag : Flag} (h : matchFlag? flags token = some flag)
    (hvalued : flag.isSwitch = false) :
    splitFrom flags index [token] = TokenSplit.addHit flag index .missing {} := by
  simp [splitFrom, h, hvalued]

theorem splitFrom_of_missing {flag : Flag} {next : String} (h : matchFlag? flags token = some flag)
    (hvalued : flag.isSwitch = false) (hnext : (matchFlag? flags next).isSome = true) :
    splitFrom flags index (token :: next :: tokens) =
      (splitFrom flags (index + 1) (next :: tokens)).addHit flag index .missing := by
  rw [splitFrom, h]
  simp [hvalued, hnext]

theorem splitFrom_of_raw {flag : Flag} {next : String} (h : matchFlag? flags token = some flag)
    (hvalued : flag.isSwitch = false) (hnext : (matchFlag? flags next).isSome = false) :
    splitFrom flags index (token :: next :: tokens) =
      (splitFrom flags (index + 2) tokens).addHit flag index (.raw next) := by
  rw [splitFrom, h]
  simp [hvalued, hnext]

/-- A flag in front of tokens leaves an occurrence. -/
theorem hits_ne_nil_of_matchFlag? (h : (matchFlag? flags token).isSome = true) :
    (splitFrom flags index (token :: tokens)).hits ≠ [] := by
  obtain ⟨flag, hflag⟩ := Option.isSome_iff_exists.1 h
  cases hswitch : flag.isSwitch with
  | true => simp [splitFrom_of_switch hflag hswitch]
  | false =>
    cases tokens with
    | nil => simp [splitFrom_of_last hflag hswitch]
    | cons next rest =>
      cases hnext : (matchFlag? flags next).isSome with
      | true => simp [splitFrom_of_missing hflag hswitch hnext]
      | false => simp [splitFrom_of_raw hflag hswitch hnext]

/-- Tokens that name no flag are all positional. -/
theorem ofTokens_of_matchFlag? (h : ∀ token ∈ tokens, matchFlag? flags token = none) :
    ofTokens flags tokens = { positional := tokens } := by
  have hfrom : ∀ index, splitFrom flags index tokens = { positional := tokens } := by
    induction tokens with
    | nil => exact fun index => rfl
    | cons token tokens ih =>
      rw [List.forall_mem_cons] at h
      intro index
      rw [splitFrom_of_positional h.1, ih h.2]
      rfl
  exact hfrom 0

/-! ## Parts -/

/-- Where tokens stand matters only to the indices of the occurrences. -/
theorem splitFrom_add (offset index : Nat) (tokens : List String) :
    splitFrom flags (offset + index) tokens = (splitFrom flags index tokens).shift offset := by
  fun_induction splitFrom flags index tokens with
  | case1 => rfl
  | case2 index token tokens hnone ih =>
    rw [splitFrom_of_positional hnone, Nat.add_assoc, ih]
    rfl
  | case3 index token tokens flag hflag hswitch ih =>
    rw [splitFrom_of_switch hflag hswitch, Nat.add_assoc, ih]
    rfl
  | case4 index token flag hflag hvalued =>
    rw [splitFrom_of_last hflag (Bool.eq_false_iff.2 hvalued)]
    rfl
  | case5 index token flag hflag hvalued next rest hnext ih =>
    rw [splitFrom_of_missing hflag (Bool.eq_false_iff.2 hvalued) hnext, Nat.add_assoc, ih]
    rfl
  | case6 index token flag hflag hvalued next rest hnext ih =>
    rw [splitFrom_of_raw hflag (Bool.eq_false_iff.2 hvalued) (Bool.eq_false_iff.2 hnext),
      Nat.add_assoc, ih]
    rfl

theorem splitFrom_eq_shift (index : Nat) (tokens : List String) :
    splitFrom flags index tokens = (ofTokens flags tokens).shift index :=
  splitFrom_add index 0 tokens

/-- Occurrences have the indices of tokens. -/
theorem index_mem_range {hit : FlagHit} (h : hit ∈ (splitFrom flags index tokens).hits) :
    index ≤ hit.index ∧ hit.index < index + tokens.length := by
  fun_induction splitFrom flags index tokens with
  | case1 => simp at h
  | case2 index token tokens hnone ih =>
    have hrange := ih h
    rw [List.length_cons]
    omega
  | case3 index token tokens flag hflag hswitch ih =>
    rw [List.length_cons]
    rcases List.mem_cons.1 h with rfl | h
    · exact ⟨Nat.le_refl index, by simp only; omega⟩
    · have hrange := ih h
      omega
  | case4 index token flag hflag hvalued =>
    rcases List.mem_cons.1 h with rfl | h
    · simp
    · simp at h
  | case5 index token flag hflag hvalued next rest hnext ih =>
    rw [List.length_cons]
    rcases List.mem_cons.1 h with rfl | h
    · exact ⟨Nat.le_refl index, by simp only; omega⟩
    · have hrange := ih h
      omega
  | case6 index token flag hflag hvalued next rest hnext ih =>
    rw [List.length_cons, List.length_cons]
    rcases List.mem_cons.1 h with rfl | h
    · exact ⟨Nat.le_refl index, by simp only; omega⟩
    · have hrange := ih h
      omega

theorem add_length_cons (index : Nat) (token : String) (tokens : List String) :
    index + (token :: tokens).length = index + 1 + tokens.length := by
  rw [List.length_cons, Nat.add_right_comm, Nat.add_assoc]

/-- Unless the last of the first tokens waits for a value and gets it, the others are
taken apart as if they stood alone. -/
theorem splitFrom_append (h : (splitFrom flags index xs).waitsAt (index + xs.length) = true →
      ∃ next rest, ys = next :: rest ∧ (matchFlag? flags next).isSome = true) :
    splitFrom flags index (xs ++ ys) =
      (splitFrom flags index xs).append (splitFrom flags (index + xs.length) ys) := by
  fun_induction splitFrom flags index xs with
  | case1 index => rfl
  | case2 index token tokens hnone ih =>
    rw [add_length_cons] at h ⊢
    rw [List.cons_append, splitFrom_of_positional hnone, ih h]
    rfl
  | case3 index token tokens flag hflag hswitch ih =>
    rw [add_length_cons, waitsAt_addHit (.inl (by simp))] at h
    rw [List.cons_append, splitFrom_of_switch hflag hswitch, ih h, add_length_cons]
    rfl
  | case4 index token flag hflag hvalued =>
    obtain ⟨next, rest, rfl, hnext⟩ := h (by simp [waitsAt])
    rw [List.singleton_append, splitFrom_of_missing hflag (Bool.eq_false_iff.2 hvalued) hnext]
    rfl
  | case5 index token flag hflag hvalued next rest hnext ih =>
    rw [add_length_cons, waitsAt_addHit (.inr (hits_ne_nil_of_matchFlag? hnext))] at h
    rw [List.cons_append, List.cons_append,
      splitFrom_of_missing hflag (Bool.eq_false_iff.2 hvalued) hnext, ← List.cons_append, ih h,
      add_length_cons index]
    rfl
  | case6 index token flag hflag hvalued next rest hnext ih =>
    rw [add_length_cons, add_length_cons, waitsAt_addHit (.inl (by simp))] at h
    rw [List.cons_append, List.cons_append,
      splitFrom_of_raw hflag (Bool.eq_false_iff.2 hvalued) (Bool.eq_false_iff.2 hnext), ih h,
      add_length_cons, add_length_cons]
    rfl

theorem ofTokens_append (h : waits flags xs = false) (ys : List String) :
    ofTokens flags (xs ++ ys) =
      (ofTokens flags xs).append ((ofTokens flags ys).shift xs.length) := by
  have hwaits : (splitFrom flags 0 xs).waitsAt (0 + xs.length) ≠ true := by
    rw [Nat.zero_add]
    exact Bool.eq_false_iff.1 h
  rw [ofTokens, splitFrom_append fun hwait => absurd hwait hwaits, Nat.zero_add,
    splitFrom_eq_shift xs.length ys]
  rfl

theorem getLast?_shift (split : TokenSplit) (offset : Nat) :
    (split.shift offset).hits.getLast? =
      split.hits.getLast?.map fun hit => { hit with index := offset + hit.index } :=
  List.getLast?_map

theorem waitsAt_shift (split : TokenSplit) (offset count : Nat) :
    (split.shift offset).waitsAt (offset + count) = split.waitsAt count := by
  rw [waitsAt, waitsAt, getLast?_shift]
  cases split.hits.getLast? with
  | none => rfl
  | some hit =>
    have hcount : (offset + hit.index + 1 == offset + count) = (hit.index + 1 == count) := by
      rw [Bool.eq_iff_iff, beq_iff_eq, beq_iff_eq]
      omega
    simp [hcount]

/-- Behind tokens that do not wait, whether tokens wait is told by these alone. -/
theorem waits_append (h : waits flags xs = false) (ys : List String) :
    waits flags (xs ++ ys) = waits flags ys := by
  rw [waits, ofTokens_append h, List.length_append]
  cases hhits : (ofTokens flags ys).hits with
  | nil =>
    -- No flag in `ys`: the last one, if any, stands in `xs`, and is not the last token.
    have hys : waits flags ys = false := by rw [waits, waitsAt, hhits]; rfl
    have happend : ((ofTokens flags xs).append ((ofTokens flags ys).shift xs.length)).hits =
        (ofTokens flags xs).hits := by
      simp [append, shift, hhits]
    rw [hys, waitsAt, happend]
    cases hlast : (ofTokens flags xs).hits.getLast? with
    | none => rfl
    | some hit =>
      rw [waits, waitsAt, hlast] at h
      have hindex := index_mem_range (List.mem_of_getLast? hlast)
      cases hvalue : hit.value == FlagValue.missing with
      | false => simp [hvalue]
      | true =>
        have hne : hit.index + 1 ≠ xs.length := by simpa [hvalue] using h
        have hlt : hit.index + 1 ≠ xs.length + ys.length := by omega
        simp [hlt]
  | cons hit hits =>
    have hsome : ((ofTokens flags ys).shift xs.length).hits.getLast?.isSome = true := by
      simp [shift, hhits]
    have happend : ((ofTokens flags xs).append ((ofTokens flags ys).shift xs.length)).waitsAt
        (xs.length + ys.length) =
          ((ofTokens flags ys).shift xs.length).waitsAt (xs.length + ys.length) := by
      rw [waitsAt, append, List.getLast?_append, Option.or_of_isSome hsome, waitsAt]
    rw [happend, waitsAt_shift, waits]

end TokenSplit

/-! ## What is read of a split -/

/-- The flag of an occurrence with what it carries. -/
def FlagHit.reading (hit : FlagHit) : Flag × FlagValue :=
  (hit.flag, hit.value)

namespace TokenSplit

variable {flags : List Flag} {xs ys zs block : List String}

/-- The flags that occur with what they carry, in the order of the tokens. -/
def readings (split : TokenSplit) : List (Flag × FlagValue) :=
  split.hits.map FlagHit.reading

/-- The same positional tokens are left by both splits, and the last occurrence of
every flag carries the same in both. -/
structure ReadsAs (a b : TokenSplit) : Prop where
  positional : a.positional = b.positional
  values : ∀ name, (a.hit? name).map FlagHit.value = (b.hit? name).map FlagHit.value

theorem positional_ofTokens_append (h : waits flags xs = false) (ys : List String) :
    (ofTokens flags (xs ++ ys)).positional =
      (ofTokens flags xs).positional ++ (ofTokens flags ys).positional := by
  rw [ofTokens_append h]
  rfl

theorem readings_ofTokens_append (h : waits flags xs = false) (ys : List String) :
    (ofTokens flags (xs ++ ys)).readings =
      (ofTokens flags xs).readings ++ (ofTokens flags ys).readings := by
  rw [ofTokens_append h, readings, append, List.map_append, shift, List.map_map]
  rfl

/-- What the last occurrence of a flag carries is told by the readings. -/
theorem map_value_hit? (split : TokenSplit) (name : String) :
    (split.hit? name).map FlagHit.value =
      ((split.readings.filter fun reading => reading.1.name == name).getLast?).map Prod.snd := by
  rw [hit?, readings, List.filter_map, List.getLast?_map, Option.map_map]
  rfl

/-- Readings of flags with different names may change places. -/
theorem filter_swap {a b : List (Flag × FlagValue)}
    (hapart : ∀ x ∈ a, ∀ y ∈ b, x.1.name ≠ y.1.name) (front back : List (Flag × FlagValue))
    (name : String) :
    (front ++ (a ++ b) ++ back).filter (fun reading => reading.1.name == name) =
      (front ++ (b ++ a) ++ back).filter fun reading => reading.1.name == name := by
  simp only [List.filter_append]
  by_cases ha : a.filter (fun reading => reading.1.name == name) = []
  · rw [ha, List.nil_append, List.append_nil]
  · -- Some flag of `a` has the name, so none of `b` does.
    obtain ⟨x, hx⟩ := List.exists_mem_of_ne_nil _ ha
    obtain ⟨hmem, hname⟩ := List.mem_filter.1 hx
    have hb : b.filter (fun reading => reading.1.name == name) = [] := by
      rw [List.filter_eq_nil_iff]
      intro y hy hsame
      exact hapart x hmem y hy ((beq_iff_eq.1 hname).trans (beq_iff_eq.1 hsame).symm)
    rw [hb, List.nil_append, List.append_nil]

/-- With a block in between that does not wait, tokens wait no more than before. -/
theorem waits_block (hxs : waits flags xs = false) (hys : waits flags (xs ++ ys) = false)
    (hblock : waits flags block = false) : waits flags (xs ++ block ++ ys) = false := by
  rw [waits_append ((waits_append hxs block).trans hblock), ← waits_append hxs, hys]

/-- A block of flags and their values leaves the same positional tokens in front of
tokens and behind them, as long as no flag waits for its value there. -/
theorem positional_move (hxs : waits flags xs = false) (hys : waits flags (xs ++ ys) = false)
    (hblock : waits flags block = false) (hnone : (ofTokens flags block).positional = [])
    (zs : List String) :
    (ofTokens flags (xs ++ block ++ ys ++ zs)).positional =
      (ofTokens flags (xs ++ ys ++ block ++ zs)).positional := by
  have hfront := (waits_append hxs block).trans hblock
  have hfrontAll := waits_block hxs hys hblock
  have hbackAll := (waits_append hys block).trans hblock
  rw [positional_ofTokens_append hfrontAll, positional_ofTokens_append hfront,
    positional_ofTokens_append hxs, positional_ofTokens_append hbackAll,
    positional_ofTokens_append hys, positional_ofTokens_append hxs, hnone, List.append_nil,
    List.append_nil]

/-- Such a block may change places with tokens that hold no flag of the same name:
all that is read of the split stays the same. -/
theorem readsAs_move (hxs : waits flags xs = false) (hys : waits flags (xs ++ ys) = false)
    (hblock : waits flags block = false) (hnone : (ofTokens flags block).positional = [])
    (hapart : ∀ hit ∈ (ofTokens flags ys).hits, ∀ other ∈ (ofTokens flags block).hits,
      hit.flag.name ≠ other.flag.name) (zs : List String) :
    (ofTokens flags (xs ++ block ++ ys ++ zs)).ReadsAs
      (ofTokens flags (xs ++ ys ++ block ++ zs)) := by
  refine ⟨positional_move hxs hys hblock hnone zs, ?_⟩
  intro name
  have hfront := (waits_append hxs block).trans hblock
  have hfrontAll := waits_block hxs hys hblock
  have hbackAll := (waits_append hys block).trans hblock
  have hmoved : (ofTokens flags (xs ++ block ++ ys ++ zs)).readings =
      (ofTokens flags xs).readings ++
        ((ofTokens flags block).readings ++ (ofTokens flags ys).readings) ++
        (ofTokens flags zs).readings := by
    rw [readings_ofTokens_append hfrontAll, readings_ofTokens_append hfront,
      readings_ofTokens_append hxs, List.append_assoc (ofTokens flags xs).readings]
  have hplaced : (ofTokens flags (xs ++ ys ++ block ++ zs)).readings =
      (ofTokens flags xs).readings ++
        ((ofTokens flags ys).readings ++ (ofTokens flags block).readings) ++
        (ofTokens flags zs).readings := by
    rw [readings_ofTokens_append hbackAll, readings_ofTokens_append hys,
      readings_ofTokens_append hxs, List.append_assoc (ofTokens flags xs).readings]
  have hnames : ∀ x ∈ (ofTokens flags block).readings, ∀ y ∈ (ofTokens flags ys).readings,
      x.1.name ≠ y.1.name := by
    intro x hx y hy
    obtain ⟨other, hother, rfl⟩ := List.mem_map.1 hx
    obtain ⟨hit, hhit, rfl⟩ := List.mem_map.1 hy
    exact (hapart hit hhit other hother).symm
  rw [map_value_hit?, map_value_hit?, hmoved, hplaced, filter_swap hnames]

/-! ## Blocks -/

section Blocks

variable {flag : Flag}

/-- The tokens are one flag with what belongs to it: a switch alone, or a flag that takes a
value in front of a token that names no flag. -/
inductive IsBlock (flags : List Flag) (flag : Flag) : List String → Prop where
  | switch {token : String} (hflag : matchFlag? flags token = some flag)
      (hswitch : flag.isSwitch = true) : IsBlock flags flag [token]
  | valued {token value : String} (hflag : matchFlag? flags token = some flag)
      (hvalued : flag.isSwitch = false) (hvalue : matchFlag? flags value = none) :
      IsBlock flags flag [token, value]

/-- A block is one occurrence, which does not lack its value, and no positional token. -/
theorem IsBlock.exists_ofTokens_eq (h : IsBlock flags flag block) :
    ∃ value, value ≠ .missing ∧ ofTokens flags block = { hits := [⟨flag, 0, value⟩] } := by
  cases h with
  | switch hflag hswitch => exact ⟨.present, by simp, splitFrom_of_switch hflag hswitch⟩
  | @valued token value hflag hvalued hvalue =>
    exact ⟨.raw value, by simp, splitFrom_of_raw hflag hvalued (by rw [hvalue]; rfl)⟩

theorem IsBlock.waits_eq_false (h : IsBlock flags flag block) : waits flags block = false := by
  obtain ⟨value, hvalue, hblock⟩ := h.exists_ofTokens_eq
  rw [waits, hblock, waitsAt]
  simp [hvalue]

theorem IsBlock.positional_eq (h : IsBlock flags flag block) (hfront : waits flags xs = false)
    (hback : waits flags (xs ++ ys) = false) (zs : List String) :
    (ofTokens flags (xs ++ block ++ ys ++ zs)).positional =
      (ofTokens flags (xs ++ ys ++ block ++ zs)).positional := by
  obtain ⟨value, -, hblock⟩ := h.exists_ofTokens_eq
  exact positional_move hfront hback h.waits_eq_false (by rw [hblock]) zs

/-- All that is read of the tokens stays the same when a block changes places with tokens
that hold no flag of its name. -/
theorem IsBlock.readsAs (h : IsBlock flags flag block) (hfront : waits flags xs = false)
    (hback : waits flags (xs ++ ys) = false)
    (hapart : ∀ hit ∈ (ofTokens flags ys).hits, hit.flag.name ≠ flag.name) (zs : List String) :
    (ofTokens flags (xs ++ block ++ ys ++ zs)).ReadsAs
      (ofTokens flags (xs ++ ys ++ block ++ zs)) := by
  obtain ⟨value, -, hblock⟩ := h.exists_ofTokens_eq
  refine readsAs_move hfront hback h.waits_eq_false (by rw [hblock]) ?_ zs
  intro hit hhit other hother
  rw [hblock, List.mem_singleton] at hother
  rw [hother]
  exact hapart hit hhit

end Blocks

/-! ## Switches -/

/-- The token is a switch that may stand behind `xs` as well as behind `xs` and
`ys`: no flag waits for its value in either place. -/
structure IsLoose (flags : List Flag) (xs ys : List String) (token : String) : Prop where
  switch : ∃ flag, matchFlag? flags token = some flag ∧ flag.isSwitch = true
  front : waits flags xs = false
  back : waits flags (xs ++ ys) = false

theorem IsLoose.positional_eq {token : String} (h : IsLoose flags xs ys token)
    (zs : List String) :
    (ofTokens flags (xs ++ [token] ++ ys ++ zs)).positional =
      (ofTokens flags (xs ++ ys ++ [token] ++ zs)).positional := by
  obtain ⟨flag, hflag, hswitch⟩ := h.switch
  exact (IsBlock.switch hflag hswitch).positional_eq h.front h.back zs

theorem IsLoose.readsAs {token : String} (h : IsLoose flags xs ys token)
    (hapart : ∀ flag, matchFlag? flags token = some flag →
      ∀ hit ∈ (ofTokens flags ys).hits, hit.flag.name ≠ flag.name) (zs : List String) :
    (ofTokens flags (xs ++ [token] ++ ys ++ zs)).ReadsAs
      (ofTokens flags (xs ++ ys ++ [token] ++ zs)) := by
  obtain ⟨flag, hflag, hswitch⟩ := h.switch
  exact (IsBlock.switch hflag hswitch).readsAs h.front h.back (hapart flag hflag) zs

end TokenSplit

end Parlance
