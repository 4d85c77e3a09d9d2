import Parlance.Proofs.Usage.RoundTrip
import Parlance.Proofs.ValueType.Overlap

/-!
# Ambiguous usages

Of usages of fixed width that are read from compact forms, two are ambiguous if and only
if they are alike as to fixed words and one row of tokens fits both
(`Usage.isAmbiguousWith_iff_of_ofCompact`). In any case it does not matter which of two
usages is compared with the other.
-/

set_option autoImplicit false

namespace Parlance

variable {Act : Type}

/-! ## Either way round -/

theorem Parameter.overlaps_comm (p q : Parameter) : p.overlaps q = q.overlaps p := by
  unfold overlaps
  cases hp : p.isLiteral <;> cases hq : q.isLiteral
  case true.true =>
    rw [Bool.eq_iff_iff]
    simp only [List.any_eq_true]
    constructor
    · rintro ⟨x, hx, y, hy, hsame⟩
      exact ⟨y, hy, x, hx, by rwa [Text.sameFolded_comm]⟩
    · rintro ⟨y, hy, x, hx, hsame⟩
      exact ⟨x, hx, y, hy, by rwa [Text.sameFolded_comm]⟩
  case false.false =>
    cases p.type? with
    | none => cases q.type? <;> rfl
    | some type =>
      cases q.type? with
      | none => rfl
      | some other => exact type.overlaps_comm other
  all_goals rfl

theorem all_zip_overlaps_comm (ps qs : List Parameter) :
    ((ps.zip qs).all fun (x, y) => x.overlaps y) =
      (qs.zip ps).all fun (x, y) => x.overlaps y := by
  induction ps generalizing qs with
  | nil => rw [List.zip_nil_left, List.zip_nil_right]
  | cons p ps ih =>
    cases qs with
    | nil => rfl
    | cons q qs => simp only [List.zip_cons_cons, List.all_cons, ih, p.overlaps_comm q]

theorem Usage.isAmbiguousWith_comm (a b : Usage Act) :
    a.isAmbiguousWith b = b.isAmbiguousWith a := by
  rw [isAmbiguousWith, isAmbiguousWith, all_zip_overlaps_comm, Bool.beq_comm]

/-! ## One parameter against another -/

/-- The type of the parameter, if it has one, can be written. -/
def Parameter.HasReadableType (p : Parameter) : Prop :=
  ∀ type ∈ p.type?, type.IsReadable

theorem Parameter.IsReadable.hasReadableType {p : Parameter} (h : p.IsReadable) :
    p.HasReadableType := by
  rintro type htype
  cases h with
  | literal => cases htype
  | required hname hreadable | optional hname hreadable =>
    obtain rfl := Option.some.inj htype
    exact hreadable
  | greedy =>
    obtain rfl := Option.some.inj htype
    exact ⟨by decide, by decide⟩
  | flag nonempty undashed plain hreadable => exact hreadable type htype

theorem Usage.hasReadableType_of_ofCompact {text : String} {usage : Usage Act}
    (h : ofCompact text = .ok usage) : ∀ p ∈ usage.parameters, p.HasReadableType := by
  intro p hp
  obtain ⟨ps, hread, rfl⟩ := ofCompact_eq_ok_iff.1 h
  obtain ⟨q, hq, hplaced⟩ := exists_of_mem_numberFrom hp
  have hmem : some q ∈ (Text.words text).map Parameter.ofElement? := by
    rw [readElements_eq_ok_iff.1 hread]
    exact List.mem_map_of_mem hq
  obtain ⟨element, helement, heq⟩ := List.mem_map.1 hmem
  have htype : p.type? = q.type? := by rw [hplaced]; rfl
  rw [Parameter.HasReadableType, htype]
  exact (Parameter.isReadable_of_ofElement? (Text.forall_mem_words helement).2 heq).hasReadableType

section Required

variable {p q : Parameter}

theorem Parameter.kind_of_isRequired (h : p.isRequired = true) :
    (∃ aliases, p.kind = .literal aliases) ∨ ∃ type, p.kind = .required type := by
  cases hkind : p.kind with
  | literal aliases => exact .inl ⟨aliases, rfl⟩
  | required type => exact .inr ⟨type, rfl⟩
  | _ => simp [isRequired, hkind] at h

theorem Matcher.accepts_literal {aliases : List String} (h : p.kind = .literal aliases)
    (token : String) : Matcher.accepts {} p token =
      (p.name :: aliases).any fun name => Text.sameFolded name token := by
  simp [Matcher.accepts, Parameter.acceptsWith, Parameter.literalNames, h, Text.sameWord]

theorem Matcher.accepts_required {type : ValueType} (h : p.kind = .required type)
    (token : String) : Matcher.accepts {} p token = type.accepts token := by
  have haccepts : Resolvers.accepts {} type token = type.accepts token :=
    Resolvers.accepts_eq rfl type token
  simpa [Matcher.accepts, Parameter.acceptsWith, h] using haccepts

/-- Parameters of fixed width overlap if and only if they are both fixed words or both
values, and some token fits both. -/
theorem Parameter.overlaps_iff (hp : p.isRequired = true) (hq : q.isRequired = true)
    (hptype : p.HasReadableType) (hqtype : q.HasReadableType) :
    p.overlaps q = true ↔ p.isLiteral = q.isLiteral ∧
      ∃ token, Matcher.accepts {} p token = true ∧ Matcher.accepts {} q token = true := by
  rcases kind_of_isRequired hp with ⟨aliases, hkind⟩ | ⟨type, hkind⟩ <;>
    rcases kind_of_isRequired hq with ⟨others, hother⟩ | ⟨other, hother⟩
  · -- The common token of two fixed words is a name of the first.
    have hoverlaps : p.overlaps q = (p.name :: aliases).any fun x =>
        (q.name :: others).any (Text.sameFolded x) := by
      simp [overlaps, isLiteral, literalNames, hkind, hother]
    have hliteral : p.isLiteral = q.isLiteral := by simp [isLiteral, hkind, hother]
    simp only [hoverlaps, Matcher.accepts_literal hkind, Matcher.accepts_literal hother,
      hliteral, List.any_eq_true, true_and]
    constructor
    · rintro ⟨x, hx, y, hy, hsame⟩
      exact ⟨x, ⟨x, hx, Text.sameFolded_refl x⟩, y, hy, by rwa [Text.sameFolded_comm]⟩
    · rintro ⟨token, ⟨x, hx, hxtoken⟩, y, hy, hytoken⟩
      rw [Text.sameFolded_comm] at hytoken
      exact ⟨x, hx, y, hy, Text.sameFolded_trans hxtoken hytoken⟩
  · simp [overlaps, isLiteral, hkind, hother]
  · simp [overlaps, isLiteral, hkind, hother]
  · have hoverlaps : p.overlaps q = type.overlaps other := by
      simp [overlaps, isLiteral, type?, hkind, hother]
    have htype : type.IsReadable := hptype type (by simp [type?, hkind])
    have htypeOther : other.IsReadable := hqtype other (by simp [type?, hother])
    have hliteral : p.isLiteral = q.isLiteral := by simp [isLiteral, hkind, hother]
    simp only [hoverlaps, Matcher.accepts_required hkind, Matcher.accepts_required hother,
      hliteral, htype.overlaps_iff htypeOther, true_and]

/-- The same of two rows of parameters. -/
theorem all_zip_overlaps_iff {ps qs : List Parameter} (hlength : ps.length = qs.length)
    (hps : ∀ p ∈ ps, p.isRequired = true ∧ p.HasReadableType)
    (hqs : ∀ q ∈ qs, q.isRequired = true ∧ q.HasReadableType) :
    ((ps.zip qs).all fun (x, y) => x.overlaps y) = true ↔
      ps.map Parameter.isLiteral = qs.map Parameter.isLiteral ∧
        ∃ tokens, Matcher.AcceptsEach {} ps tokens ∧ Matcher.AcceptsEach {} qs tokens := by
  induction ps generalizing qs with
  | nil =>
    obtain rfl := List.length_eq_zero_iff.1 hlength.symm
    simp only [List.zip_nil_left, List.all_nil, List.map_nil, true_and, true_iff]
    exact ⟨[], .nil, .nil⟩
  | cons p ps ih =>
    obtain ⟨q, qs, rfl⟩ := List.exists_cons_of_length_eq_add_one hlength.symm
    rw [List.forall_mem_cons] at hps hqs
    rw [List.zip_cons_cons, List.all_cons, Bool.and_eq_true,
      Parameter.overlaps_iff hps.1.1 hqs.1.1 hps.1.2 hqs.1.2,
      ih (Nat.succ.inj hlength) hps.2 hqs.2, List.map_cons, List.map_cons, List.cons.injEq]
    constructor
    · rintro ⟨⟨hliteral, token, hp, hq⟩, hliterals, tokens, heach, hother⟩
      exact ⟨⟨hliteral, hliterals⟩, token :: tokens, .cons hp heach, .cons hq hother⟩
    · rintro ⟨⟨hliteral, hliterals⟩, tokens, heach, hother⟩
      cases heach with
      | cons hp heach =>
        cases hother with
        | cons hq hother => exact ⟨⟨hliteral, _, hp, hq⟩, hliterals, _, heach, hother⟩

end Required

/-! ## Exactness -/

/-- Two usages of fixed width that compact forms describe are ambiguous if and only if
they have as many positional parameters, fixed words at the same places, and a row of
tokens that each of them accepts; and then so are they the other way round. -/
theorem Usage.isAmbiguousWith_iff_of_ofCompact {textA textB : String} {a b : Usage Act}
    (ha : ofCompact textA = .ok a) (hb : ofCompact textB = .ok b)
    (hfixedA : ∀ p ∈ a.positional, p.isRequired = true)
    (hfixedB : ∀ p ∈ b.positional, p.isRequired = true) :
    (a.isAmbiguousWith b = true ↔
      a.positional.length = b.positional.length ∧
        a.positional.map Parameter.isLiteral = b.positional.map Parameter.isLiteral ∧
        ∃ tokens, Matcher.AcceptsEach {} a.positional tokens ∧
          Matcher.AcceptsEach {} b.positional tokens) ∧
    a.isAmbiguousWith b = b.isAmbiguousWith a := by
  refine ⟨?_, a.isAmbiguousWith_comm b⟩
  have hreadable : ∀ {text : String} {usage : Usage Act}, ofCompact text = .ok usage →
      (∀ p ∈ usage.positional, p.isRequired = true) →
      ∀ p ∈ usage.positional, p.isRequired = true ∧ p.HasReadableType :=
    fun h hfixed p hp => ⟨hfixed p hp, hasReadableType_of_ofCompact h p (List.mem_filter.1 hp).1⟩
  rw [isAmbiguousWith, Bool.and_eq_true, beq_iff_eq]
  exact and_congr_right fun hlength =>
    all_zip_overlaps_iff hlength (hreadable ha hfixedA) (hreadable hb hfixedB)

/-- A choice that has a numeral among its words is ambiguous with a number, and no row of
tokens fits both a duration and a number. -/
theorem Usage.isAmbiguousWith_iff_of_ofCompact_paying :
    ∃ choosing number duration : Usage Unit,
      ofCompact "pay|give <amount:{all,1e3}>" = .ok choosing ∧
      ofCompact "pay <amount:number>" = .ok number ∧
      ofCompact "pay <time:duration>" = .ok duration ∧
      (∃ tokens, Matcher.AcceptsEach {} choosing.positional tokens ∧
        Matcher.AcceptsEach {} number.positional tokens) ∧
      ¬ ∃ tokens, Matcher.AcceptsEach {} number.positional tokens ∧
        Matcher.AcceptsEach {} duration.positional tokens := by
  obtain ⟨choosing, number, duration, hchoosing, hnumber, hduration, hfixed, hambiguous, hclear⟩ :
      ∃ choosing number duration : Usage Unit,
        ofCompact "pay|give <amount:{all,1e3}>" = .ok choosing ∧
        ofCompact "pay <amount:number>" = .ok number ∧
        ofCompact "pay <time:duration>" = .ok duration ∧
        (∀ usage ∈ [choosing, number, duration], ∀ p ∈ usage.positional, p.isRequired = true) ∧
        choosing.isAmbiguousWith number = true ∧
        (number.isAmbiguousWith duration = false ∧
          number.positional.length = duration.positional.length ∧
          number.positional.map Parameter.isLiteral =
            duration.positional.map Parameter.isLiteral) :=
    ⟨_, _, _, rfl, rfl, rfl, by decide, by decide, by decide⟩
  refine ⟨choosing, number, duration, hchoosing, hnumber, hduration, ?_, ?_⟩
  · have hiff := (isAmbiguousWith_iff_of_ofCompact hchoosing hnumber (hfixed _ (by simp))
      (hfixed _ (by simp))).1
    exact (hiff.1 hambiguous).2.2
  · intro htokens
    have hiff := (isAmbiguousWith_iff_of_ofCompact hnumber hduration (hfixed _ (by simp))
      (hfixed _ (by simp))).1
    have hfalse := hiff.2 ⟨hclear.2.1, hclear.2.2, htokens⟩
    rw [hclear.1] at hfalse
    cases hfalse

end Parlance
