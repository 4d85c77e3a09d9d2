import Parlance.Proofs.Resolution.Storing
import Parlance.Proofs.Slot.Dealing
import Parlance.Proofs.Slot.Partition
import Parlance.Proofs.TokenSplit.Occurrences

/-!
# What resolving comes to

When all tokens must be used, a usage that resolves has used each of them once, and its
arguments are told by its slots and by the last occurrences of its flags: which names have
a value, and how each value comes from its tokens or from a fallback (`Matcher.Outcome`).
-/

set_option autoImplicit false

namespace Parlance

variable {Act : Type}

/-! ## What a parameter yields -/

/-- A positional parameter that has the slot has a value: it must be given and is no fixed
word, it is greedy, or it is optional and has a token or a fallback. -/
def Parameter.HasValue (p : Parameter) (slot : Slot) : Prop :=
  (p.isRequired = true ∧ p.isLiteral = false) ∨ p.isGreedy = true ∨
    (p.isOptional = true ∧ (slot.isFilled = true ∨ p.fallback?.isSome = true))

/-- The value that a positional parameter has when it gets the slot, if it has one. -/
inductive Matcher.Yields (m : Matcher) (source : Source) (tokens : List String) (p : Parameter) :
    Slot → Option Value → Prop where
  /-- A fixed word is matched by its token. -/
  | word {index : Nat} {token : String} (hliteral : p.isLiteral = true)
      (htoken : tokens[index]? = some token) (haccepts : m.accepts p token = true) :
      Yields m source tokens p (.token index) none
  /-- A token is converted by the type of the parameter, within its bounds. -/
  | token {index : Nat} {type : ValueType} {token : String} {value : Value}
      (hliteral : p.isLiteral = false) (hsingle : p.IsSingle) (htype : p.type? = some type)
      (htoken : tokens[index]? = some token)
      (hvalue : m.resolvers.convert type p.name token = .ok value)
      (hbounds : ∀ bounds, p.bounds = some bounds → value.float?.all bounds.contains = true) :
      Yields m source tokens p (.token index) (some value)
  /-- A greedy parameter has its tokens with single spaces between. -/
  | rest {start stop : Nat} (hgreedy : p.isGreedy = true) (hlt : start < stop) :
      Yields m source tokens p (.greedy start stop)
        (some (.text (" ".intercalate ((Slot.greedy start stop).tokensIn tokens))))
  /-- Without a token there is the fallback. -/
  | fallback {slot : Slot} {fallback : Fallback} {value : Value}
      (hkind : p.isGreedy = true ∨ p.isOptional = true) (hempty : slot.isFilled = false)
      (hfallback : p.fallback? = some fallback)
      (hvalue : m.fallbackValue source p.name p.type? fallback = .ok value) :
      Yields m source tokens p slot (some value)
  /-- An optional parameter may be left without a value. -/
  | left (hoptional : p.isOptional = true) (hfallback : p.fallback? = none) :
      Yields m source tokens p .skipped none

namespace Matcher

variable {m : Matcher} {source : Source} {tokens : List String} {p : Parameter} {slot : Slot}
  {value : Option Value}

theorem Yields.isSome_iff (h : m.Yields source tokens p slot value) :
    value.isSome = true ↔ p.HasValue slot := by
  unfold Parameter.HasValue
  cases h with
  | word hliteral =>
    have hrequired := Parameter.isRequired_of_isLiteral hliteral
    have hsingle : p.IsSingle := .inr hrequired
    simp [hliteral, hsingle.isGreedy_eq_false, Parameter.isOptional_of_isRequired hrequired]
  | token hliteral hsingle =>
    rcases hsingle with hoptional | hrequired
    · simp [hoptional, Slot.isFilled]
    · simp [hrequired, hliteral]
  | rest hgreedy => simp [hgreedy]
  | fallback hkind hempty hfallback =>
    rcases hkind with hgreedy | hoptional
    · simp [hgreedy]
    · simp [hoptional, hfallback]
  | left hoptional hfallback =>
    have hsingle : p.IsSingle := .inl hoptional
    simp [Parameter.isRequired_of_isOptional hoptional, hsingle.isGreedy_eq_false, hfallback,
      Slot.isFilled]

/-! ### Filling slots -/

theorem convert_eq_ok {token : String} {value : Value} (h : m.convert p token = .ok value) :
    m.resolvers.convert (p.type?.getD .string) p.name token = .ok value ∧
      ∀ bounds, p.bounds = some bounds → value.float?.all bounds.contains = true := by
  obtain ⟨converted, hconvert, h⟩ := bind_eq_ok_iff.1 h
  cases hbounds : p.bounds with
  | none =>
    rw [hbounds] at h
    obtain rfl := Except.ok.inj h
    exact ⟨hconvert, by simp⟩
  | some bounds =>
    rw [hbounds] at h
    simp only at h
    split at h
    · next hcontains =>
      obtain rfl := Except.ok.inj h
      exact ⟨hconvert, by simpa using hcontains⟩
    · cases h

theorem ownFallback_eq_ok (h : m.ownFallback source p = .ok value) :
    (p.fallback? = none ∧ value = none) ∨ ∃ fallback own, p.fallback? = some fallback ∧
      m.fallbackValue source p.name p.type? fallback = .ok own ∧ value = some own := by
  unfold ownFallback at h
  split at h
  · next hfallback => exact .inl ⟨hfallback, (Except.ok.inj h).symm⟩
  · next fallback hfallback =>
    obtain ⟨own, hown, rfl⟩ := map_eq_ok_iff.1 h
    exact .inr ⟨fallback, own, hfallback, hown, rfl⟩

/-- A slot that is filled yields its value. -/
theorem yields_of_fill {count cursor next : Nat} {behind : List Parameter}
    (hflag : p.isFlag = false) (hgives : Slot.Gives count cursor p behind slot next)
    (h : m.fill source tokens p slot = .ok value) : m.Yields source tokens p slot value := by
  cases hgives with
  | greedy hgreedy =>
    simp only [fill] at h
    split at h
    · next hlt =>
      obtain rfl := Except.ok.inj h
      rw [← Slot.tokensIn_greedy]
      exact .rest hgreedy hlt
    · next hle =>
      split at h
      · cases h
      · next fallback hsome =>
        obtain ⟨hnone, -⟩ | ⟨fallback, own, hfallback, hown, rfl⟩ := ownFallback_eq_ok h
        · rw [hsome] at hnone
          cases hnone
        · exact .fallback (.inl hgreedy) (by simpa [Slot.isFilled] using hle) hfallback hown
  | token hgreedy =>
    simp only [fill] at h
    split at h
    · cases h
    · next token htoken =>
      split at h
      · next hliteral =>
        split at h
        · next haccepts =>
          obtain rfl := Except.ok.inj h
          exact .word hliteral htoken haccepts
        · cases h
      · next hliteral =>
        have hsingle := Parameter.isSingle_of_not_greedy hflag hgreedy
        obtain ⟨converted, hconvert, rfl⟩ := map_eq_ok_iff.1 h
        obtain ⟨hconvert, hbounds⟩ := convert_eq_ok hconvert
        obtain ⟨type, htype⟩ := hsingle.exists_type? (Bool.eq_false_iff.2 hliteral)
        rw [htype] at hconvert
        exact .token (Bool.eq_false_iff.2 hliteral) hsingle htype htoken hconvert hbounds
  | skipped hoptional =>
    obtain ⟨hfallback, rfl⟩ | ⟨fallback, own, hfallback, hown, rfl⟩ := ownFallback_eq_ok h
    · exact .left hoptional hfallback
    · exact .fallback (.inr hoptional) rfl hfallback hown
  | missing => cases h

end Matcher

/-! ## What a flag yields -/

/-- A flag in effect has a value: it is a switch, it occurs, or it has a fallback. -/
def Flag.HasValue (flags : List Flag) (tokens : List String) (flag : Flag) : Prop :=
  flag.isSwitch = true ∨
    (∃ hit ∈ (TokenSplit.ofTokens flags tokens).hits, hit.flag = flag) ∨
    flag.fallback.isSome = true

/-- The value that one of the flags in effect has, if it has one. -/
inductive Matcher.YieldsFlag (m : Matcher) (source : Source) (flags : List Flag)
    (tokens : List String) (flag : Flag) : Option Value → Prop where
  /-- A switch that occurs is on. -/
  | present {hit : FlagHit} (hswitch : flag.isSwitch = true)
      (hlast : TokenSplit.OccursLast flags tokens flag hit) :
      YieldsFlag m source flags tokens flag (some (.bool true))
  /-- The token behind the last occurrence is converted by the type of the flag. -/
  | valued {hit : FlagHit} {type : ValueType} {token : String} {value : Value}
      (htype : flag.type = some type) (hlast : TokenSplit.OccursLast flags tokens flag hit)
      (htoken : hit.value = .raw token)
      (hvalue : m.resolvers.convert type flag.name token = .ok value) :
      YieldsFlag m source flags tokens flag (some value)
  /-- Without an occurrence there is the fallback, a truth value for a switch. -/
  | fallback {fallback : Fallback} {value : Value}
      (habsent : ∀ hit ∈ (TokenSplit.ofTokens flags tokens).hits, hit.flag ≠ flag)
      (hfallback : flag.fallback = some fallback)
      (hvalue : m.fallbackValue source flag.name (some (flag.type.getD .boolean)) fallback =
        .ok value) :
      YieldsFlag m source flags tokens flag (some value)
  /-- A switch is off otherwise. -/
  | off (habsent : ∀ hit ∈ (TokenSplit.ofTokens flags tokens).hits, hit.flag ≠ flag)
      (hfallback : flag.fallback = none) (hswitch : flag.isSwitch = true) :
      YieldsFlag m source flags tokens flag (some (.bool false))
  /-- A flag that takes a value may be left without one. -/
  | left (habsent : ∀ hit ∈ (TokenSplit.ofTokens flags tokens).hits, hit.flag ≠ flag)
      (hfallback : flag.fallback = none) (hvalued : flag.isSwitch = false) :
      YieldsFlag m source flags tokens flag none

namespace Matcher

variable {m : Matcher} {source : Source} {flags : List Flag} {tokens : List String} {flag : Flag}
  {value : Option Value}

theorem YieldsFlag.isSome_iff (h : m.YieldsFlag source flags tokens flag value) :
    value.isSome = true ↔ flag.HasValue flags tokens := by
  unfold Flag.HasValue
  cases h with
  | present hswitch => simp [hswitch]
  | valued htype hlast =>
    exact iff_of_true rfl (.inr (.inl ⟨_, hlast.occurs, hlast.same⟩))
  | fallback habsent hfallback => simp [hfallback]
  | off habsent hfallback hswitch => simp [hswitch]
  | left habsent hfallback hvalued =>
    simpa [hvalued, hfallback] using habsent

/-- A flag in effect with a name of its own yields its value. -/
theorem yieldsFlag_of_flagValue (hdistinct : (flags.map Flag.name).Nodup) (hflag : flag ∈ flags)
    (h : m.flagValue source (TokenSplit.ofTokens flags tokens) flag = .ok value) :
    m.YieldsFlag source flags tokens flag value := by
  unfold flagValue at h
  cases hhit : (TokenSplit.ofTokens flags tokens).hit? flag.name with
  | none =>
    have habsent := TokenSplit.not_mem_of_hit?_eq_none hhit
    simp only [hhit, Option.map_none] at h
    split at h
    · next fallback hfallback =>
      obtain ⟨own, hown, rfl⟩ := map_eq_ok_iff.1 h
      exact .fallback habsent hfallback hown
    · next hfallback =>
      obtain rfl := Except.ok.inj h
      split
      · next hswitch => exact .off habsent hfallback hswitch
      · next hvalued => exact .left habsent hfallback (Bool.eq_false_iff.2 hvalued)
  | some hit =>
    have hlast := TokenSplit.occursLast_of_hit? hdistinct hflag hhit
    have hswitch := hlast.isSwitch_iff
    simp only [hhit, Option.map_some] at h
    split at h
    · next hvalue =>
      obtain rfl := Except.ok.inj h
      exact .present (hswitch.2 (Option.some.inj hvalue)) hlast
    · next token hvalue =>
      split at h
      · next type htype =>
        obtain ⟨own, hown, rfl⟩ := map_eq_ok_iff.1 h
        exact .valued htype hlast (Option.some.inj hvalue) hown
      · next htype =>
        have hpresent := hswitch.1 (by simp [Flag.isSwitch, htype])
        rw [Option.some.inj hvalue] at hpresent
        cases hpresent
    · cases h
    · next hvalue => cases hvalue

end Matcher

/-! ## What a usage comes to -/

/-- The positional parameters of a usage, each with the slot that it gets of the tokens. -/
def Usage.slotted (usage : Usage Act) (tokens : List String) : List (Parameter × Slot) :=
  usage.positional.zip (Slot.assign usage.positional tokens.length).1

theorem mem_names_storeAll {arguments : Arguments} {entries : List (String × Option Value)}
    {name : String} : name ∈ (storeAll arguments entries).names ↔
      name ∈ arguments.names ∨ ∃ value, (name, some value) ∈ entries := by
  induction entries generalizing arguments with
  | nil => simp [storeAll]
  | cons entry entries ih =>
    obtain ⟨own, value⟩ := entry
    rw [storeAll, List.foldl_cons, ← storeAll, ih]
    cases value with
    | none => simp [Matcher.store]
    | some value =>
      simp [Matcher.store, NameMap.mem_names_insert, exists_or, or_assoc, or_left_comm]

/-- Which names have a value, where each item of a list has one value at most. -/
theorem exists_mem_map_iff {α : Type} {items : List α} {entry : α → String × Option Value}
    {nameOf : α → String} {hasValue : α → Prop} {name : String}
    (h : ∀ item ∈ items, ∃ value, entry item = (nameOf item, value) ∧
      (value.isSome = true ↔ hasValue item)) :
    (∃ value, (name, some value) ∈ items.map entry) ↔
      ∃ item ∈ items, nameOf item = name ∧ hasValue item := by
  constructor
  · rintro ⟨own, hmem⟩
    obtain ⟨item, hitem, heq⟩ := List.mem_map.1 hmem
    obtain ⟨value, hentry, hvalue⟩ := h item hitem
    obtain ⟨hname, hsome⟩ := Prod.mk.inj (hentry.symm.trans heq)
    exact ⟨item, hitem, hname, hvalue.1 (by rw [hsome]; rfl)⟩
  · rintro ⟨item, hitem, rfl, hhas⟩
    obtain ⟨value, hentry, hvalue⟩ := h item hitem
    obtain ⟨own, rfl⟩ := Option.isSome_iff_exists.1 (hvalue.2 hhas)
    exact ⟨own, List.mem_map.2 ⟨item, hitem, hentry⟩⟩

namespace Matcher

variable {m : Matcher} {source : Source}

theorem exists_fill_of_fillAll {tokens : List String} {pairs : List (Parameter × Slot)}
    {arguments result : Arguments} (h : m.fillAll source tokens arguments pairs = .ok result) :
    ∀ pair ∈ pairs, ∃ value, m.fill source tokens pair.1 pair.2 = .ok value := by
  induction pairs generalizing arguments with
  | nil => simp
  | cons pair pairs ih =>
    obtain ⟨value, hvalue, h⟩ := bind_eq_ok_iff.1 h
    exact List.forall_mem_cons.2 ⟨⟨value, hvalue⟩, ih h⟩

theorem exists_flagValue_of_fillFlags {split : TokenSplit} {flags : List Flag}
    {arguments result : Arguments} (h : m.fillFlags source split arguments flags = .ok result) :
    ∀ flag ∈ flags, ∃ value, m.flagValue source split flag = .ok value := by
  induction flags generalizing arguments with
  | nil => simp
  | cons flag flags ih =>
    obtain ⟨value, hvalue, h⟩ := bind_eq_ok_iff.1 h
    exact List.forall_mem_cons.2 ⟨⟨value, hvalue⟩, ih h⟩

/-- The parts of a resolution that succeeds: its slots and its flags. -/
theorem fills_of_resolve {node : Node Act} {usage : Usage Act} {tokens : List String}
    {trailing : Trailing} {arguments : Arguments}
    (h : m.resolve source node usage tokens trailing = .ok arguments) :
    let flags := node.flagsFor usage
    let split := TokenSplit.ofTokens flags tokens
    (∀ pair ∈ usage.slotted split.positional, ∃ value,
      m.fill source split.positional pair.1 pair.2 = .ok value) ∧
    ∀ flag ∈ flags, ∃ value, m.flagValue source split flag = .ok value := by
  intro flags split
  obtain ⟨filled, hfill, h⟩ := bind_eq_ok_iff.1 h
  split at h
  · cases h
  · exact ⟨exists_fill_of_fillAll hfill, exists_flagValue_of_fillFlags h⟩

/-- The parts of a resolution that succeeds and may leave no token behind. -/
theorem parts_of_resolve {node : Node Act} {usage : Usage Act} {tokens : List String}
    {arguments : Arguments} (h : m.resolve source node usage tokens .reject = .ok arguments) :
    let flags := node.flagsFor usage
    let split := TokenSplit.ofTokens flags tokens
    (∀ pair ∈ usage.slotted split.positional, ∃ value,
      m.fill source split.positional pair.1 pair.2 = .ok value) ∧
    (∀ flag ∈ flags, ∃ value, m.flagValue source split flag = .ok value) ∧
    split.positional.length ≤ (Slot.assign usage.positional split.positional.length).2 := by
  intro flags split
  obtain ⟨hfill, hflagValue⟩ := fills_of_resolve h
  refine ⟨hfill, hflagValue, ?_⟩
  obtain ⟨filled, -, h⟩ := bind_eq_ok_iff.1 h
  split at h
  · cases h
  · next htaken => exact Nat.le_of_not_lt fun hlt => htaken (by simpa [Slot.assign] using hlt)

/-- The arguments are those that all of the tokens give to the usage, with the flags in
effect. -/
structure Outcome (m : Matcher) (source : Source) (usage : Usage Act) (flags : List Flag)
    (tokens : List String) (arguments : Arguments) : Prop where
  /-- The names are those of the parameters and flags that have a value. -/
  names : ∀ name, name ∈ arguments.names ↔
    (∃ pair ∈ usage.slotted (TokenSplit.ofTokens flags tokens).positional,
      pair.1.name = name ∧ pair.1.HasValue pair.2) ∨
    ∃ flag ∈ flags, flag.name = name ∧ flag.HasValue flags tokens
  parameterValues : ∀ pair ∈ usage.slotted (TokenSplit.ofTokens flags tokens).positional,
    ∃ value, m.Yields source (TokenSplit.ofTokens flags tokens).positional pair.1 pair.2 value ∧
      ∀ own, value = some own → arguments.get? pair.1.name = some own
  flagValues : ∀ flag ∈ flags, ∃ value, m.YieldsFlag source flags tokens flag value ∧
    ∀ own, value = some own → arguments.get? flag.name = some own
  /-- Read from left to right, the slots have the positional tokens, each of them once. -/
  partition : (usage.slotted (TokenSplit.ofTokens flags tokens).positional).flatMap
      (fun pair => pair.2.tokensIn (TokenSplit.ofTokens flags tokens).positional) =
    (TokenSplit.ofTokens flags tokens).positional

end Matcher

theorem Usage.flatMap_slotted {usage : Usage Act} {tokens : List String}
    (htaken : tokens.length ≤ (Slot.assign usage.positional tokens.length).2) :
    (usage.slotted tokens).flatMap (fun pair => pair.2.tokensIn tokens) = tokens := by
  have hslots : (usage.slotted tokens).map Prod.snd =
      (Slot.assign usage.positional tokens.length).1 :=
    List.map_snd_zip (Nat.le_of_eq (Slot.length_assignFrom _ _ _))
  have hmap : (usage.slotted tokens).flatMap (fun pair => pair.2.tokensIn tokens) =
      ((usage.slotted tokens).map Prod.snd).flatMap (Slot.tokensIn tokens) := by
    rw [List.flatMap_map]
  rw [hmap, hslots, Slot.flatMap_tokensIn, List.take_of_length_le htaken]

theorem Node.nodup_flagsFor {node : Node Act} {usage : Usage Act}
    (hdistinct : (node.storedNames usage).Nodup) :
    ((node.flagsFor usage).map Flag.name).Nodup := by
  have hperm := (valueNames_perm usage.parameters).append_right (node.scopeFlags.map Flag.name)
  have hall := hperm.nodup_iff.1 hdistinct
  rw [List.append_assoc] at hall
  rw [flagsFor, List.map_append]
  exact (List.sublist_append_right _ _).nodup hall

namespace Matcher

variable {m : Matcher} {source : Source} {usage : Usage Act} {flags : List Flag}
  {tokens : List String}

/-- The slots of a usage yield what they are filled with. -/
theorem exists_yields_of_slotted
    (h : ∀ pair ∈ usage.slotted tokens, ∃ value,
      m.fill source tokens pair.1 pair.2 = .ok value) :
    ∀ pair ∈ usage.slotted tokens, ∃ value, m.fill source tokens pair.1 pair.2 = .ok value ∧
      m.Yields source tokens pair.1 pair.2 value := by
  intro pair hpair
  obtain ⟨value, hvalue⟩ := h pair hpair
  obtain ⟨cursor, behind, next, hgives⟩ := Slot.exists_gives_of_mem_zip hpair
  have hflag : pair.1.isFlag = false := by
    simpa using (List.mem_filter.1 (List.of_mem_zip hpair).1).2
  exact ⟨value, hvalue, yields_of_fill hflag hgives hvalue⟩

/-- The names that are stored are those of the parameters and flags that have a value. -/
theorem mem_names_stored_iff
    (hyields : ∀ pair ∈ usage.slotted tokens, ∃ value,
      m.fill source tokens pair.1 pair.2 = .ok value ∧
        m.Yields source tokens pair.1 pair.2 value)
    {input : List String}
    (hyieldsFlag : ∀ flag ∈ flags, ∃ value,
      m.flagValue source (TokenSplit.ofTokens flags input) flag = .ok value ∧
        m.YieldsFlag source flags input flag value) (name : String) :
    name ∈ (storeAll {} ((usage.slotted tokens).map (m.filled source tokens) ++
        flags.map (m.flagged source (TokenSplit.ofTokens flags input)))).names ↔
      (∃ pair ∈ usage.slotted tokens, pair.1.name = name ∧ pair.1.HasValue pair.2) ∨
        ∃ flag ∈ flags, flag.name = name ∧ flag.HasValue flags input := by
  have hparameters : ∀ pair ∈ usage.slotted tokens, ∃ value,
      m.filled source tokens pair = (pair.1.name, value) ∧
      (value.isSome = true ↔ pair.1.HasValue pair.2) := by
    intro pair hpair
    obtain ⟨value, hvalue, hyields⟩ := hyields pair hpair
    exact ⟨value, filled_of_fill hvalue, hyields.isSome_iff⟩
  have hflagged : ∀ flag ∈ flags, ∃ value,
      m.flagged source (TokenSplit.ofTokens flags input) flag = (flag.name, value) ∧
      (value.isSome = true ↔ flag.HasValue flags input) := by
    intro flag hflag
    obtain ⟨value, hvalue, hyields⟩ := hyieldsFlag flag hflag
    exact ⟨value, flagged_of_flagValue hvalue, hyields.isSome_iff⟩
  rw [mem_names_storeAll, ← exists_mem_map_iff hparameters, ← exists_mem_map_iff hflagged,
    ← exists_or]
  simp [NameMap.names]

end Matcher

/-- Under distinct names, a usage that resolves with no token left behind comes to exactly
what its tokens, fallbacks and flags give it, whatever kinds of parameters it has. -/
theorem Matcher.outcome_of_resolve {m : Matcher} {source : Source} {node : Node Act}
    {usage : Usage Act} {tokens : List String} {arguments : Arguments}
    (hdistinct : (node.storedNames usage).Nodup)
    (h : m.resolve source node usage tokens .reject = .ok arguments) :
    m.Outcome source usage (node.flagsFor usage) tokens arguments := by
  obtain ⟨hfill, hflagValue, htaken⟩ := parts_of_resolve h
  obtain ⟨hkeeps, hkeepsFlags⟩ := keeps_of_resolve hdistinct h
  have hyields := exists_yields_of_slotted hfill
  have hyieldsFlag : ∀ flag ∈ node.flagsFor usage, ∃ value,
      m.flagValue source (TokenSplit.ofTokens (node.flagsFor usage) tokens) flag = .ok value ∧
      m.YieldsFlag source (node.flagsFor usage) tokens flag value := by
    intro flag hflag
    obtain ⟨value, hvalue⟩ := hflagValue flag hflag
    exact ⟨value, hvalue, yieldsFlag_of_flagValue (Node.nodup_flagsFor hdistinct) hflag hvalue⟩
  refine ⟨?names, ?parameterValues, ?flagValues, Usage.flatMap_slotted htaken⟩
  case names =>
    rw [eq_storeAll_of_resolve h]
    exact mem_names_stored_iff hyields hyieldsFlag
  case parameterValues =>
    intro pair hpair
    obtain ⟨value, hvalue, hyields⟩ := hyields pair hpair
    refine ⟨value, hyields, ?_⟩
    rintro own rfl
    exact hkeeps pair hpair own hvalue
  case flagValues =>
    intro flag hflag
    obtain ⟨value, hvalue, hyields⟩ := hyieldsFlag flag hflag
    refine ⟨value, hyields, ?_⟩
    rintro own rfl
    exact hkeepsFlags flag hflag own hvalue

/-- A mailbox from which letters are sent, with a free switch. -/
def posting : Command Unit where
  name := "mail"
  usages := [.ofParameters [{ name := "box", kind := .required .word }]]
  freeFlags := [{ name := "silent" }]
  children := [{
    name := "send"
    attachment := .main
    usages := [.ofParameters [
      { name := "player", kind := .required .word },
      { name := "copies", kind := .optional .integer none },
      { name := "at", kind := .optional .word (some (.raw "noon")) },
      { name := "text", kind := .greedy none },
      { name := "stamps", kind := .flag [] (some .integer) none }]] }]

/-- The tokens behind the word of the mailbox command. -/
def letter : List String :=
  ["home", "send", "-stamps", "1", "steve", "2", "hello", "--stamps", "3"]

/-- A letter is sent: the one spare token is the number of copies, the time is the fallback,
and of the stamps the last ones count. -/
theorem Matcher.outcome_of_resolve_posting :
    ∃ (node : Node Unit) (e : EffectiveUsage Unit) (arguments : Arguments),
      posting.link.children = [node] ∧ node.effective = [e] ∧ (node.storedNames e.usage).Nodup ∧
      Matcher.resolve {} .console node e.usage letter .reject = .ok arguments ∧
      arguments.entries = [("at", .text "noon"), ("box", .text "home"), ("copies", .integer 2),
        ("player", .text "steve"), ("silent", .bool false), ("stamps", .integer 3),
        ("text", .text "hello")] ∧
      Matcher.Outcome {} .console e.usage (node.flagsFor e.usage) letter arguments := by
  refine ⟨_, _, _, rfl, rfl, ?distinct, rfl, rfl, ?outcome⟩
  case distinct => decide
  case outcome => exact Matcher.outcome_of_resolve (by decide) rfl

end Parlance
