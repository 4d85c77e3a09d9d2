import Parlance.Proofs.Command.WellFormed
import Parlance.Proofs.Resolution.Outcome

/-!
# Bounds in resolving

Bounds stand on numbers, wherever their parameter stands in a usage. What a positional
parameter takes from a token is held against its bounds, and so it lies within them. The
bounds of flags are checked when a usage is verified, and never read again: a usage resolves
as if its flags had none (`Matcher.within_bounds_of_resolve`).
-/

set_option autoImplicit false

namespace Parlance

variable {Act : Type}

/-! ## Numbers -/

/-- The value is what the token stands for by the type of the parameter, and it is the
number `x`. -/
structure Matcher.ReadsNumber (m : Matcher) (p : Parameter) (token : String) (value : Value)
    (x : Float) : Prop where
  converts : ∃ type, p.type? = some type ∧ m.resolvers.convert type p.name token = .ok value
  isNumber : value.float? = some x

namespace Parameter.AllowsBounds

variable {p : Parameter} {bounds : Bounds}

/-- A parameter that allows bounds is no fixed word, and not greedy. -/
theorem isLiteral_and_isGreedy (h : p.AllowsBounds bounds) :
    p.isLiteral = false ∧ p.isGreedy = false := by
  have hnumeric := h.numeric
  cases hkind : p.kind <;> simp_all [type?, isLiteral, isGreedy]

/-- Whatever is converted for a parameter that allows bounds is a number. -/
theorem exists_readsNumber {m : Matcher} {type : ValueType} {token : String} {value : Value}
    (h : p.AllowsBounds bounds) (htype : p.type? = some type)
    (hvalue : m.resolvers.convert type p.name token = .ok value) :
    ∃ x, m.ReadsNumber p token value x := by
  have hnumeric : type = .integer ∨ type = .float := by simpa [htype] using h.numeric
  have hnumber : ∃ x, value.float? = some x := by
    rcases hnumeric with rfl | rfl
    · cases hread : Resolvers.integer? token with
      | none => simp [Resolvers.convert, Resolvers.builtIn?, hread] at hvalue
      | some n =>
        have hsame : .integer n = value := by
          simpa [Resolvers.convert, Resolvers.builtIn?, hread] using hvalue
        exact ⟨Float.ofInt n, by rw [← hsame]; rfl⟩
    · cases hread : Resolvers.float? token with
      | none => simp [Resolvers.convert, Resolvers.builtIn?, hread] at hvalue
      | some x =>
        have hsame : .float x = value := by
          simpa [Resolvers.convert, Resolvers.builtIn?, hread] using hvalue
        exact ⟨x, by rw [← hsame]; rfl⟩
  obtain ⟨x, hx⟩ := hnumber
  exact ⟨x, ⟨type, htype, hvalue⟩, hx⟩

end Parameter.AllowsBounds

/-! ## Where values come from -/

/-- The token is one that the parameter has its value from: a token of its slot, or the one
behind the last occurrence of its flag. -/
inductive Usage.Gets (usage : Usage Act) (flags : List Flag) (tokens : List String)
    (p : Parameter) (token : String) : Prop where
  | slot {slot : Slot}
      (hslot : (p, slot) ∈ usage.slotted (TokenSplit.ofTokens flags tokens).positional)
      (htoken : token ∈ slot.tokensIn (TokenSplit.ofTokens flags tokens).positional)
  | flag {flag : Flag} {hit : FlagHit} (hflag : p.flag? = some flag)
      (hlast : TokenSplit.OccursLast flags tokens flag hit) (hvalue : hit.value = .raw token)

theorem Slot.tokensIn_of_not_isFilled {slot : Slot} (h : slot.isFilled = false)
    (tokens : List String) : slot.tokensIn tokens = [] := by
  cases slot with
  | token index => cases h
  | greedy start stop =>
    have hle : stop ≤ start := by simpa [isFilled] using h
    rw [tokensIn_greedy, Nat.sub_eq_zero_of_le hle, List.take_zero]
  | skipped => rfl
  | missing => rfl

theorem Parameter.name_and_type_of_flag? {p : Parameter} {flag : Flag} (h : p.flag? = some flag) :
    flag.name = p.name ∧ flag.type = p.type? := by
  cases hkind : p.kind with
  | flag aliases type fallback =>
    simp only [flag?, hkind, Option.some.injEq] at h
    simp [type?, hkind, ← h]
  | _ => simp [flag?, hkind] at h

namespace Matcher

variable {m : Matcher} {source : Source} {tokens : List String} {p : Parameter}
  {bounds : Bounds} {token : String}

/-- What a positional parameter with bounds yields from a token is a number within them. -/
theorem Yields.contains {slot : Slot} {value : Option Value} (hallows : p.AllowsBounds bounds)
    (hbounds : p.bounds = some bounds) (htoken : token ∈ slot.tokensIn tokens)
    (h : m.Yields source tokens p slot value) :
    ∃ own x, value = some own ∧ m.ReadsNumber p token own x ∧ bounds.contains x = true := by
  obtain ⟨hliteral, hgreedy⟩ := hallows.isLiteral_and_isGreedy
  cases h with
  | word hword => simp [hword] at hliteral
  | @token index type given own _ _ htype hgiven hvalue hwithin =>
    obtain rfl : token = given := by simpa [Slot.tokensIn, Slot.indices, hgiven] using htoken
    obtain ⟨x, hreads⟩ := hallows.exists_readsNumber htype hvalue
    have hcontains := hwithin bounds hbounds
    rw [hreads.isNumber, Option.all_some] at hcontains
    exact ⟨own, x, rfl, hreads, hcontains⟩
  | rest hrest => simp [hrest] at hgreedy
  | fallback _ hempty => simp [Slot.tokensIn_of_not_isFilled hempty] at htoken
  | left => simp [Slot.tokensIn, Slot.indices] at htoken

/-- What a flag with bounds yields from a token is a number. -/
theorem YieldsFlag.exists_readsNumber {flags : List Flag} {flag : Flag} {hit : FlagHit}
    {value : Option Value} (hallows : p.AllowsBounds bounds) (hflag : p.flag? = some flag)
    (hlast : TokenSplit.OccursLast flags tokens flag hit) (hraw : hit.value = .raw token)
    (h : m.YieldsFlag source flags tokens flag value) :
    ∃ own x, value = some own ∧ m.ReadsNumber p token own x := by
  obtain ⟨hname, htypes⟩ := Parameter.name_and_type_of_flag? hflag
  cases h with
  | present hswitch hother =>
    have hpresent := hother.isSwitch_iff.1 hswitch
    rw [← hlast.unique hother, hraw] at hpresent
    cases hpresent
  | @valued other type given own htype hother hgiven hvalue =>
    rw [← hlast.unique hother, hraw, FlagValue.raw.injEq] at hgiven
    rw [htypes] at htype
    rw [hname, ← hgiven] at hvalue
    obtain ⟨x, hreads⟩ := hallows.exists_readsNumber htype hvalue
    exact ⟨own, x, rfl, hreads⟩
  | fallback habsent => exact absurd hlast.same (habsent hit hlast.occurs)
  | off habsent => exact absurd hlast.same (habsent hit hlast.occurs)
  | left habsent => exact absurd hlast.same (habsent hit hlast.occurs)

end Matcher

/-! ## Bounds of flags -/

/-- The parameter without its bounds if it is a flag. -/
def Parameter.withoutFlagBounds (p : Parameter) : Parameter :=
  if p.isFlag then { p with bounds := none } else p

/-- The usage without the bounds of its flags. -/
def Usage.withoutFlagBounds (usage : Usage Act) : Usage Act :=
  { usage with parameters := usage.parameters.map Parameter.withoutFlagBounds }

theorem Usage.positional_withoutFlagBounds (usage : Usage Act) :
    usage.withoutFlagBounds.positional = usage.positional := by
  unfold positional withoutFlagBounds
  induction usage.parameters with
  | nil => rfl
  | cons p ps ih =>
    cases hflag : p.isFlag <;> simp_all [Parameter.withoutFlagBounds, Parameter.isFlag]

theorem Usage.flags_withoutFlagBounds (usage : Usage Act) :
    usage.withoutFlagBounds.flags = usage.flags := by
  unfold flags withoutFlagBounds
  rw [List.filterMap_map]
  refine List.filterMap_congr fun p _ => ?_
  unfold Function.comp Parameter.withoutFlagBounds
  split <;> rfl

/-- No bounds of a flag are ever read. -/
theorem Matcher.resolve_withoutFlagBounds (m : Matcher) (source : Source) (node : Node Act)
    (usage : Usage Act) (tokens : List String) (trailing : Trailing) :
    m.resolve source node usage.withoutFlagBounds tokens trailing =
      m.resolve source node usage tokens trailing := by
  unfold resolve Node.flagsFor
  rw [Usage.flags_withoutFlagBounds, Usage.positional_withoutFlagBounds]

/-! ## Verified usages -/

theorem Node.nodup_storedNames_of_verify {node : Node Act} {usage : Usage Act}
    (hverify : usage.verify = .ok ()) (hfree : node.scopeFlags = []) :
    (node.storedNames usage).Nodup := by
  rw [storedNames, hfree, List.map_nil, List.append_nil]
  exact (Usage.verify_eq_ok_iff.1 hverify).nodup_valueNames

/-- Where no free flags are in scope, each parameter of a verified usage that has bounds stores
the number that its token stands for; the number lies within the bounds if the parameter
is positional, and the bounds of flags change nothing. -/
theorem Matcher.within_bounds_of_resolve {m : Matcher} {source : Source} {node : Node Act}
    {usage : Usage Act} {tokens : List String} {trailing : Trailing} {arguments : Arguments}
    (hverify : usage.verify = .ok ()) (hfree : node.scopeFlags = [])
    (h : m.resolve source node usage tokens trailing = .ok arguments) :
    (∀ p ∈ usage.parameters, ∀ bounds, p.bounds = some bounds → ∀ token,
      usage.Gets (node.flagsFor usage) tokens p token →
      ∃ value x, arguments.get? p.name = some value ∧ m.ReadsNumber p token value x ∧
        (p.isFlag = false → bounds.contains x = true)) ∧
    m.resolve source node usage.withoutFlagBounds tokens trailing = .ok arguments := by
  have hdistinct := Node.nodup_storedNames_of_verify hverify hfree
  obtain ⟨hfill, hflagValue⟩ := fills_of_resolve h
  obtain ⟨hkeeps, hkeepsFlags⟩ := keeps_of_resolve hdistinct h
  refine ⟨?within, by rw [resolve_withoutFlagBounds, h]⟩
  case within =>
    intro p hp bounds hbounds token hgets
    have hallows := (Usage.verify_iff_isWellFormed.1 hverify).bounded p hp bounds hbounds
    -- Only in a slot has the value been held against the bounds.
    cases hgets with
    | slot hslot htoken =>
      obtain ⟨value, hvalue, hyields⟩ := exists_yields_of_slotted hfill _ hslot
      obtain ⟨own, x, rfl, hreads, hcontains⟩ := hyields.contains hallows hbounds htoken
      exact ⟨own, x, hkeeps _ hslot own hvalue, hreads, fun _ => hcontains⟩
    | @flag flag hit hflag hlast hraw =>
      have hmem : flag ∈ node.flagsFor usage :=
        List.mem_append_left _ (List.mem_filterMap.2 ⟨p, hp, hflag⟩)
      obtain ⟨value, hvalue⟩ := hflagValue flag hmem
      have hyields := yieldsFlag_of_flagValue (Node.nodup_flagsFor hdistinct) hmem hvalue
      obtain ⟨own, x, rfl, hreads⟩ := hyields.exists_readsNumber hallows hflag hlast hraw
      have hstored := hkeepsFlags flag hmem own hvalue
      rw [(Parameter.name_and_type_of_flag? hflag).1] at hstored
      have hisFlag := Parameter.isFlag_iff_exists_flag?.2 ⟨flag, hflag⟩
      exact ⟨own, x, hstored, hreads, by simp [hisFlag]⟩

/-- From one to sixty-four. -/
def stack : Bounds where
  least := some (Float.ofInt 1)
  greatest := some (Float.ofInt 64)

/-- Items that are stocked, at most a stack of them, and of which some are held back. -/
def stocking : Command Unit where
  name := "stock"
  usages := [.ofParameters [
    { name := "item", kind := .required .word },
    { name := "held", kind := .flag ["h"] (some .integer) none, bounds := some stack },
    { name := "amount", kind := .optional .integer none, bounds := some stack }]]

/-- The amount that is stored is within its bounds. -/
theorem Matcher.within_bounds_of_resolve_stocking :
    ∃ (e : EffectiveUsage Unit) (arguments : Arguments) (value : Value) (x : Float),
      stocking.link.effective = [e] ∧ e.usage.verify = .ok () ∧ stocking.link.scopeFlags = [] ∧
      resolve {} .console stocking.link e.usage ["apple", "-h", "8", "12"] .reject =
        .ok arguments ∧
      arguments.entries = [("amount", .integer 12), ("held", .integer 8),
        ("item", .text "apple")] ∧
      arguments.get? "amount" = some value ∧ value.float? = some x ∧ stack.contains x = true := by
  obtain ⟨e, p, arguments, heffective, hverify, hp, hname, hbounds, hflag, hgets, hresolve,
      hentries⟩ :
      ∃ (e : EffectiveUsage Unit) (p : Parameter) (arguments : Arguments),
        stocking.link.effective = [e] ∧ e.usage.verify = .ok () ∧ p ∈ e.usage.parameters ∧
        p.name = "amount" ∧ p.bounds = some stack ∧ p.isFlag = false ∧
        e.usage.Gets (stocking.link.flagsFor e.usage) ["apple", "-h", "8", "12"] p "12" ∧
        resolve {} .console stocking.link e.usage ["apple", "-h", "8", "12"] .reject =
          .ok arguments ∧
        arguments.entries = [("amount", .integer 12), ("held", .integer 8),
          ("item", .text "apple")] :=
    ⟨_, _, _, rfl, rfl, .tail _ (.tail _ (.head _)), rfl, rfl, rfl,
      .slot (.tail _ (.head _)) (.head _), rfl, rfl⟩
  obtain ⟨value, x, hvalue, hreads, hcontains⟩ :=
    (within_bounds_of_resolve hverify rfl hresolve).1 p hp stack hbounds "12" hgets
  rw [hname] at hvalue
  exact ⟨e, arguments, value, x, heffective, hverify, rfl, hresolve, hentries, hvalue,
    hreads.isNumber, hcontains hflag⟩

/-- A verified usage stores a number of a flag that is not within the bounds of the flag; the
same number is refused to a positional parameter with the same bounds. -/
theorem Matcher.beyond_bounds_stocking :
    ∃ (e : EffectiveUsage Unit) (p : Parameter) (arguments : Arguments) (x : Float),
      stocking.verify = .ok () ∧ stocking.link.effective = [e] ∧ e.usage.verify = .ok () ∧
      stocking.link.scopeFlags = [] ∧
      p ∈ e.usage.parameters ∧ p.bounds = some stack ∧
      e.usage.Gets (stocking.link.flagsFor e.usage) ["apple", "-h", "99"] p "99" ∧
      resolve {} .console stocking.link e.usage ["apple", "-h", "99"] .reject = .ok arguments ∧
      arguments.get? p.name = some (.integer 99) ∧ (Value.integer 99).float? = some x ∧
      stack.contains x = false ∧
      resolve {} .console stocking.link e.usage ["apple", "99"] .reject =
        .error (.outOfRange "amount" "99" "1..=64") := by
  refine ⟨_, _, _, _, rfl, rfl, rfl, rfl, .tail _ (.head _), rfl, ?gets, rfl, rfl, rfl, ?_, ?_⟩
  case gets =>
    exact .flag rfl (TokenSplit.occursLast_of_hit? (by decide) (.head _) rfl) rfl
  · rfl
  · rfl

end Parlance
