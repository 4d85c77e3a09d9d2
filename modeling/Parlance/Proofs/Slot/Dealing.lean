import Parlance.Proofs.Slot.Step

/-!
# Tokens dealt out

How many tokens there are tells exactly which parameters get one. If there are enough,
every parameter that needs a token has one, those that are spare go to the optional
parameters at the front, and a greedy parameter takes all that remain (`Slot.Dealt`). If
there are too few, they go to the parameters at the front that need one, and no optional
parameter has one (`Slot.skipped_of_short`, `Slot.filledOf_of_short`).
-/

set_option autoImplicit false

namespace Parlance

/-! ## Kinds of parameters -/

namespace Parameter

variable {p : Parameter} {ps : List Parameter}

theorem needsToken_eq_isRequired (hgreedy : p.isGreedy = false) :
    p.needsToken = p.isRequired := by
  unfold isGreedy at hgreedy
  unfold needsToken isRequired
  cases hkind : p.kind <;> simp_all

theorem isRequired_eq_false_of_greedy (hgreedy : p.isGreedy = true) : p.isRequired = false := by
  unfold isGreedy at hgreedy
  unfold isRequired
  cases hkind : p.kind <;> simp_all

theorem isOptional_eq_false_of_greedy (hgreedy : p.isGreedy = true) : p.isOptional = false := by
  unfold isGreedy at hgreedy
  unfold isOptional
  cases hkind : p.kind <;> simp_all

theorem isRequired_of_isOptional (hoptional : p.isOptional = true) : p.isRequired = false := by
  cases hrequired : p.isRequired with
  | false => rfl
  | true =>
    rw [isOptional_of_isRequired hrequired] at hoptional
    cases hoptional

/-- A parameter of a row that is not optional either must be given or is greedy. -/
theorem isRequired_of_not_optional (hflag : p.isFlag = false) (hgreedy : p.isGreedy = false)
    (hoptional : p.isOptional = false) : p.isRequired = true := by
  rcases isSingle_of_not_greedy hflag hgreedy with h | h
  · rw [hoptional] at h
    cases h
  · exact h

/-- Parameters none of which is greedy are optional or must be given. -/
theorem length_eq_countP (hflags : ∀ p ∈ ps, p.isFlag = false)
    (hgreedy : ∀ p ∈ ps, p.isGreedy = false) :
    ps.length = ps.countP isRequired + ps.countP isOptional := by
  have hnot : ps.countP isOptional = ps.countP fun p => !p.isRequired := by
    refine List.countP_congr fun p hp => ?_
    cases hoptional : p.isOptional with
    | true => simp [isRequired_of_isOptional hoptional]
    | false => simp [isRequired_of_not_optional (hflags p hp) (hgreedy p hp) hoptional]
  rw [hnot, List.length_eq_countP_add_countP isRequired]
  simp

end Parameter

namespace Slot

variable {count cursor spare taken : Nat} {p : Parameter} {ps : List Parameter} {slot : Slot}
  {slots : List Slot}

/-- Number of tokens that parameters need: one for each fixed word and each required
value, and one if the last is a greedy one without a fallback. -/
def need (ps : List Parameter) : Nat :=
  ps.countP Parameter.isRequired +
    if ps.getLast?.any fun p => p.isGreedy && p.fallback?.isNone then 1 else 0

theorem need_eq_countP (hgreedy : ∀ p ∈ ps.dropLast, p.isGreedy = false) :
    need ps = ps.countP Parameter.needsToken := by
  rcases List.eq_nil_or_concat ps with rfl | ⟨front, last, rfl⟩
  · rfl
  · rw [List.concat_eq_append] at hgreedy ⊢
    rw [List.dropLast_concat] at hgreedy
    have hfront : front.countP Parameter.isRequired = front.countP Parameter.needsToken :=
      List.countP_congr fun p hp => by rw [Parameter.needsToken_eq_isRequired (hgreedy p hp)]
    rw [need, List.countP_append, List.countP_append, hfront, List.getLast?_concat, Nat.add_assoc]
    cases hlast : last.isGreedy with
    | true =>
      simp [hlast, Parameter.isRequired_eq_false_of_greedy hlast,
        Parameter.needsToken_of_greedy hlast, List.countP_cons]
    | false => simp [hlast, Parameter.needsToken_eq_isRequired hlast, List.countP_cons]

/-! ## What slots hold -/

/-- At least one token goes to the slot. -/
def isFilled : Slot → Bool
  | token _ => true
  | greedy start stop => start < stop
  | skipped => false
  | missing => false

/-- For each parameter of a kind, in their order, whether a token goes to its slot. -/
def filledOf (kind : Parameter → Bool) (ps : List Parameter) (slots : List Slot) : List Bool :=
  ((ps.zip slots).filter fun pair => kind pair.1).map fun pair => pair.2.isFilled

theorem filledOf_cons_of_pos {kind : Parameter → Bool} (h : kind p = true) :
    filledOf kind (p :: ps) (slot :: slots) = slot.isFilled :: filledOf kind ps slots := by
  simp [filledOf, h]

theorem filledOf_cons_of_neg {kind : Parameter → Bool} (h : kind p = false) :
    filledOf kind (p :: ps) (slot :: slots) = filledOf kind ps slots := by
  simp [filledOf, h]

/-- Each parameter gets its slot out of what the parameters in front of it leave. -/
theorem exists_gives_of_mem_zip {pair : Parameter × Slot}
    (h : pair ∈ ps.zip (assignFrom count cursor ps).1) :
    ∃ cursor behind next, Gives count cursor pair.1 behind pair.2 next := by
  induction ps generalizing cursor with
  | nil => simp at h
  | cons p ps ih =>
    obtain ⟨slot, next, hgives, hassign⟩ := exists_gives count cursor p ps
    rw [hassign] at h
    rcases List.mem_cons.1 h with rfl | h
    · exact ⟨cursor, ps, next, hgives⟩
    · exact ih h

/-! ## Enough tokens -/

/-- The tokens from `cursor` on, out of `count`, are dealt out to the parameters, which
need all but `spare` of them: optional parameters get one as long as any is spare. The
tokens before `taken` are taken in the end. -/
inductive Dealt (count : Nat) : Nat → Nat → List Parameter → List Slot → Nat → Prop where
  | done (cursor spare : Nat) : Dealt count cursor spare [] [] cursor
  | given {cursor spare : Nat} {p : Parameter} {ps : List Parameter} {slots : List Slot}
      {taken : Nat} (hrequired : p.isRequired = true)
      (behind : Dealt count (cursor + 1) spare ps slots taken) :
      Dealt count cursor spare (p :: ps) (token cursor :: slots) taken
  | spared {cursor spare : Nat} {p : Parameter} {ps : List Parameter} {slots : List Slot}
      {taken : Nat} (hoptional : p.isOptional = true)
      (behind : Dealt count (cursor + 1) spare ps slots taken) :
      Dealt count cursor (spare + 1) (p :: ps) (token cursor :: slots) taken
  | skipped {cursor : Nat} {p : Parameter} {ps : List Parameter} {slots : List Slot}
      {taken : Nat} (hoptional : p.isOptional = true)
      (behind : Dealt count cursor 0 ps slots taken) :
      Dealt count cursor 0 (p :: ps) (Slot.skipped :: slots) taken
  | rest {cursor spare : Nat} {p : Parameter} (hgreedy : p.isGreedy = true)
      (hneeds : p.fallback? = none → cursor < count) :
      Dealt count cursor spare [p] [greedy cursor count] count

/-- Enough tokens are dealt out to parameters of which only the last may be greedy. -/
theorem dealt_assignFrom (hflags : ∀ p ∈ ps, p.isFlag = false)
    (hgreedy : ∀ p ∈ ps.dropLast, p.isGreedy = false)
    (hcount : cursor + ps.countP Parameter.needsToken + spare = count) :
    Dealt count cursor spare ps (assignFrom count cursor ps).1 (assignFrom count cursor ps).2 := by
  induction ps generalizing cursor spare with
  | nil => exact .done cursor spare
  | cons p ps ih =>
    rw [List.forall_mem_cons] at hflags
    obtain ⟨hlast, hlater⟩ := forall_dropLast_cons_iff.1 hgreedy
    obtain ⟨slot, next, hgives, hassign⟩ := exists_gives count cursor p ps
    rw [hassign]
    cases hgives with
    | greedy hp =>
      obtain rfl := eq_nil_of_greedy hlast hp
      have hmax : max count cursor = count := by omega
      rw [hmax]
      refine .rest hp fun hnone => ?_
      have hneeds : p.needsToken = true := by
        rw [Parameter.needsToken_of_greedy hp, hnone]
        rfl
      rw [List.countP_cons_of_pos hneeds] at hcount
      omega
    | token hp hlt hspare =>
      cases hoptional : p.isOptional with
      | true =>
        rw [Parameter.countP_needsToken_of_optional hoptional] at hcount
        have hmore := hspare hoptional
        obtain ⟨left, rfl⟩ : ∃ left, spare = left + 1 := ⟨spare - 1, by omega⟩
        exact .spared hoptional (ih hflags.2 hlater (by omega))
      | false =>
        have hsingle := Parameter.isSingle_of_not_greedy hflags.1 hp
        rw [hsingle.countP_needsToken_of_not_optional hoptional] at hcount
        exact .given (Parameter.isRequired_of_not_optional hflags.1 hp hoptional)
          (ih hflags.2 hlater (by omega))
    | skipped hoptional hspare =>
      rw [Parameter.countP_needsToken_of_optional hoptional] at hcount
      obtain rfl : spare = 0 := by omega
      exact .skipped hoptional (ih hflags.2 hlater hcount)
    | missing hp hoptional hle =>
      have hsingle := Parameter.isSingle_of_not_greedy hflags.1 hp
      rw [hsingle.countP_needsToken_of_not_optional hoptional] at hcount
      omega

/-! ## What is dealt out -/

/-- Where the tokens end that go to parameters that are not greedy. -/
def upTo (cursor spare : Nat) (ps : List Parameter) : Nat :=
  cursor + ps.countP Parameter.isRequired + min (ps.countP Parameter.isOptional) spare

theorem upTo_cons_of_isRequired (h : p.isRequired = true) :
    upTo cursor spare (p :: ps) = upTo (cursor + 1) spare ps := by
  have hoptional := Parameter.isOptional_of_isRequired h
  rw [upTo, upTo, List.countP_cons_of_pos h, List.countP_cons_of_neg (by simp [hoptional])]
  omega

theorem upTo_succ_cons_of_isOptional (h : p.isOptional = true) :
    upTo cursor (spare + 1) (p :: ps) = upTo (cursor + 1) spare ps := by
  have hrequired := Parameter.isRequired_of_isOptional h
  rw [upTo, upTo, List.countP_cons_of_pos h, List.countP_cons_of_neg (by simp [hrequired])]
  omega

theorem upTo_zero_cons_of_isOptional (h : p.isOptional = true) :
    upTo cursor 0 (p :: ps) = upTo cursor 0 ps := by
  have hrequired := Parameter.isRequired_of_isOptional h
  rw [upTo, upTo, List.countP_cons_of_pos h, List.countP_cons_of_neg (by simp [hrequired])]
  omega

theorem upTo_of_isGreedy (h : p.isGreedy = true) : upTo cursor spare [p] = cursor := by
  simp [upTo, Parameter.isRequired_eq_false_of_greedy h, Parameter.isOptional_eq_false_of_greedy h]

namespace Dealt

theorem missing_not_mem (h : Dealt count cursor spare ps slots taken) : missing ∉ slots := by
  induction h with
  | done => exact List.not_mem_nil
  | given _ _ ih | spared _ _ ih | skipped _ _ ih => simpa using ih
  | rest => simp

/-- Fixed words and required values have a token. -/
theorem exists_token (h : Dealt count cursor spare ps slots taken) :
    ∀ pair ∈ ps.zip slots, pair.1.isRequired = true → ∃ index, pair.2 = token index := by
  induction h with
  | done => simp
  | given _ _ ih | spared _ _ ih =>
    rw [List.zip_cons_cons, List.forall_mem_cons]
    exact ⟨fun _ => ⟨_, rfl⟩, ih⟩
  | skipped hoptional _ ih =>
    rw [List.zip_cons_cons, List.forall_mem_cons]
    exact ⟨by simp [Parameter.isRequired_of_isOptional hoptional], ih⟩
  | rest hgreedy => simp [Parameter.isRequired_eq_false_of_greedy hgreedy]

/-- The spare tokens go to the optional parameters at the front. -/
theorem filledOf_isOptional (h : Dealt count cursor spare ps slots taken) :
    filledOf Parameter.isOptional ps slots =
      List.replicate (min (ps.countP Parameter.isOptional) spare) true ++
        List.replicate (ps.countP Parameter.isOptional - spare) false := by
  induction h with
  | done => simp [filledOf]
  | given hrequired _ ih =>
    have hoptional := Parameter.isOptional_of_isRequired hrequired
    rw [filledOf_cons_of_neg hoptional, ih, List.countP_cons_of_neg (by simp [hoptional])]
  | spared hoptional _ ih =>
    rw [filledOf_cons_of_pos hoptional, ih, List.countP_cons_of_pos hoptional,
      Nat.add_min_add_right, Nat.add_sub_add_right, List.replicate_succ]
    rfl
  | skipped hoptional _ ih =>
    rw [filledOf_cons_of_pos hoptional, ih, List.countP_cons_of_pos hoptional]
    simp [isFilled, List.replicate_succ]
  | rest hgreedy => simp [filledOf, Parameter.isOptional_eq_false_of_greedy hgreedy]

/-- A greedy parameter has all tokens that the others leave, at least one if it has no
fallback. -/
theorem greedy_eq (h : Dealt count cursor spare ps slots taken) :
    ∀ pair ∈ ps.zip slots, pair.1.isGreedy = true →
      pair.2 = greedy (upTo cursor spare ps) count ∧
      (pair.1.fallback? = none → pair.2.isFilled = true) := by
  induction h with
  | done => simp
  | given hrequired _ ih =>
    have hsingle : Parameter.IsSingle _ := .inr hrequired
    rw [List.zip_cons_cons, List.forall_mem_cons, upTo_cons_of_isRequired hrequired]
    exact ⟨by simp [hsingle.isGreedy_eq_false], ih⟩
  | spared hoptional _ ih =>
    have hsingle : Parameter.IsSingle _ := .inl hoptional
    rw [List.zip_cons_cons, List.forall_mem_cons, upTo_succ_cons_of_isOptional hoptional]
    exact ⟨by simp [hsingle.isGreedy_eq_false], ih⟩
  | skipped hoptional _ ih =>
    have hsingle : Parameter.IsSingle _ := .inl hoptional
    rw [List.zip_cons_cons, List.forall_mem_cons, upTo_zero_cons_of_isOptional hoptional]
    exact ⟨by simp [hsingle.isGreedy_eq_false], ih⟩
  | rest hgreedy hneeds =>
    intro pair hpair _
    obtain rfl := List.mem_singleton.1 hpair
    rw [upTo_of_isGreedy hgreedy]
    exact ⟨rfl, fun hnone => by simpa [isFilled] using hneeds hnone⟩

/-- A greedy parameter takes the tokens to the end, the others one each at most. -/
theorem taken_eq (h : Dealt count cursor spare ps slots taken) :
    taken = if ps.any Parameter.isGreedy then count else upTo cursor spare ps := by
  induction h with
  | done => simp [upTo]
  | given hrequired _ ih =>
    have hsingle : Parameter.IsSingle _ := .inr hrequired
    rw [ih, List.any_cons, hsingle.isGreedy_eq_false, Bool.false_or,
      upTo_cons_of_isRequired hrequired]
  | spared hoptional _ ih =>
    have hsingle : Parameter.IsSingle _ := .inl hoptional
    rw [ih, List.any_cons, hsingle.isGreedy_eq_false, Bool.false_or,
      upTo_succ_cons_of_isOptional hoptional]
  | skipped hoptional _ ih =>
    have hsingle : Parameter.IsSingle _ := .inl hoptional
    rw [ih, List.any_cons, hsingle.isGreedy_eq_false, Bool.false_or,
      upTo_zero_cons_of_isOptional hoptional]
  | rest hgreedy => simp [hgreedy]

end Dealt

/-! ## Too few tokens -/

/-- If no token is spare, no optional parameter has one. -/
theorem skipped_of_short (hcount : count ≤ cursor + ps.countP Parameter.needsToken) :
    ∀ pair ∈ ps.zip (assignFrom count cursor ps).1, pair.1.isOptional = true →
      pair.2 = skipped := by
  induction ps generalizing cursor with
  | nil => simp
  | cons p ps ih =>
    obtain ⟨slot, next, hgives, hassign⟩ := exists_gives count cursor p ps
    rw [hassign, List.zip_cons_cons, List.forall_mem_cons]
    cases hgives with
    | greedy hp =>
      rw [List.countP_cons] at hcount
      refine ⟨by simp [Parameter.isOptional_eq_false_of_greedy hp], ih (by omega)⟩
    | token hp hlt hspare =>
      cases hoptional : p.isOptional with
      | true =>
        rw [Parameter.countP_needsToken_of_optional hoptional] at hcount
        have hmore := hspare hoptional
        omega
      | false =>
        rw [List.countP_cons] at hcount
        refine ⟨by simp, ih ?_⟩
        split at hcount <;> omega
    | skipped hoptional hspare =>
      rw [Parameter.countP_needsToken_of_optional hoptional] at hcount
      exact ⟨fun _ => rfl, ih hcount⟩
    | missing hp hoptional hle => exact ⟨by simp [hoptional], ih (by omega)⟩

/-- If no token is spare, the tokens go to the parameters at the front that need one. -/
theorem filledOf_of_short (hflags : ∀ p ∈ ps, p.isFlag = false)
    (hgreedy : ∀ p ∈ ps.dropLast, p.isGreedy = false) (hcursor : cursor ≤ count)
    (hcount : count ≤ cursor + ps.countP Parameter.needsToken) :
    filledOf Parameter.needsToken ps (assignFrom count cursor ps).1 =
      List.replicate (count - cursor) true ++
        List.replicate (cursor + ps.countP Parameter.needsToken - count) false := by
  induction ps generalizing cursor with
  | nil =>
    obtain rfl : cursor = count := Nat.le_antisymm hcursor hcount
    simp [filledOf]
  | cons p ps ih =>
    rw [List.forall_mem_cons] at hflags
    obtain ⟨hlast, hlater⟩ := forall_dropLast_cons_iff.1 hgreedy
    obtain ⟨slot, next, hgives, hassign⟩ := exists_gives count cursor p ps
    rw [hassign]
    cases hgives with
    | greedy hp =>
      obtain rfl := eq_nil_of_greedy hlast hp
      cases hneeds : p.needsToken with
      | true =>
        rw [List.countP_cons_of_pos hneeds] at hcount
        rw [filledOf_cons_of_pos hneeds]
        obtain rfl | rfl : count = cursor ∨ count = cursor + 1 := by
          simp only [List.countP_nil] at hcount
          omega
        · simp [filledOf, isFilled, hneeds]
        · simp [filledOf, isFilled, hneeds]
      | false =>
        rw [List.countP_cons_of_neg (by simp [hneeds])] at hcount ⊢
        obtain rfl : cursor = count := Nat.le_antisymm hcursor hcount
        simp [filledOf, hneeds]
    | token hp hlt hspare =>
      cases hoptional : p.isOptional with
      | true =>
        rw [Parameter.countP_needsToken_of_optional hoptional] at hcount
        have hmore := hspare hoptional
        omega
      | false =>
        have hsingle := Parameter.isSingle_of_not_greedy hflags.1 hp
        have hneeds := hsingle.needsToken_of_not_optional hoptional
        have hgiven : count - cursor = count - (cursor + 1) + 1 := by omega
        have hleft : cursor + (ps.countP Parameter.needsToken + 1) - count =
            cursor + 1 + ps.countP Parameter.needsToken - count := by omega
        rw [List.countP_cons_of_pos hneeds] at hcount ⊢
        rw [filledOf_cons_of_pos hneeds, ih hflags.2 hlater hlt (by omega), hgiven, hleft,
          List.replicate_succ]
        rfl
    | skipped hoptional hspare =>
      have hneeds := Parameter.needsToken_of_optional hoptional
      rw [Parameter.countP_needsToken_of_optional hoptional] at hcount ⊢
      rw [filledOf_cons_of_neg hneeds, ih hflags.2 hlater hcursor hcount]
    | missing hp hoptional hle =>
      have hsingle := Parameter.isSingle_of_not_greedy hflags.1 hp
      have hneeds := hsingle.needsToken_of_not_optional hoptional
      obtain rfl : cursor = count := Nat.le_antisymm hcursor hle
      rw [filledOf_cons_of_pos hneeds, ih hflags.2 hlater hcursor (by omega),
        List.countP_cons_of_pos hneeds]
      simp [isFilled, List.replicate_succ]

/-- Parameters that need a token have one where none is missing and no greedy parameter
without a fallback is left empty. -/
theorem isFilled_of_needsToken (hmissing : missing ∉ (assignFrom count cursor ps).1)
    (hgreedy : ∀ pair ∈ ps.zip (assignFrom count cursor ps).1, pair.1.isGreedy = true →
      pair.1.fallback? = none → pair.2.isFilled = true) :
    ∀ pair ∈ ps.zip (assignFrom count cursor ps).1, pair.1.needsToken = true →
      pair.2.isFilled = true := by
  rintro ⟨p, slot⟩ hpair hneeds
  obtain ⟨cursor, behind, next, hgives⟩ := exists_gives_of_mem_zip hpair
  cases hgives with
  | greedy hp =>
    refine hgreedy _ hpair hp ?_
    rw [Parameter.needsToken_of_greedy hp] at hneeds
    exact Option.isNone_iff_eq_none.1 hneeds
  | token => rfl
  | skipped hoptional =>
    rw [Parameter.needsToken_of_optional hoptional] at hneeds
    cases hneeds
  | missing => exact absurd (List.of_mem_zip hpair).2 hmissing

end Slot

end Parlance
