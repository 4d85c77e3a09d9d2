import Parlance.Proofs.Selection.Finding
import Parlance.Proofs.Slot.Required
import Parlance.Resolution

/-!
# Selection and resolution agree

Selecting a usage and resolving it take the tokens apart anew, each by itself.
They agree: once the tokens match a usage, or reach the subcommand whose default
usage is taken, resolving that usage can fail only because a token, a fallback
or a flag has no value of its type.
-/

set_option autoImplicit false

namespace Parlance

variable {Act : Type}

/-! ## Errors of conversion -/

/-- A token, a fallback or a flag does not have a value that may be stored. The
other errors say that words are missing, superfluous or not the expected ones. -/
def ResolutionError.IsOfValue : ResolutionError → Prop
  | typeConversion _ _ _ | outOfRange _ _ _ | missingFlagValue _ | unknownType _ => True
  | unknownSubcommand _ _ | missingRequiredArgument _ | tooManyArguments _ => False

theorem Resolvers.isOfValue_of_convert_error {resolvers : Resolvers} {type : ValueType}
    {name token : String} {e : ResolutionError}
    (h : resolvers.convert type name token = .error e) : e.IsOfValue := by
  unfold convert at h
  simp only at h
  split at h
  · next error hfound =>
    -- Only a custom type can lack its resolver.
    cases type with
    | custom key =>
      cases hresolver : resolvers.find? key with
      | none =>
        simp only [hresolver, Except.error.injEq] at hfound h
        rw [← h, ← hfound]
        trivial
      | some resolver => simp [hresolver] at hfound
    | _ => cases hfound
  · cases h
  · rw [← Except.error.inj h]
    trivial

namespace Matcher

variable {m : Matcher} {source : Source} {e : ResolutionError}

theorem isOfValue_of_convert_error {p : Parameter} {token : String}
    (h : m.convert p token = .error e) : e.IsOfValue := by
  rcases bind_eq_error_iff.1 h with h | ⟨value, -, h⟩
  · exact Resolvers.isOfValue_of_convert_error h
  · split at h
    · cases h
    split at h
    · cases h
    · rw [← Except.error.inj h]
      trivial

theorem isOfValue_of_fallbackValue_error {name : String} {type : Option ValueType}
    {fallback : Fallback} (h : m.fallbackValue source name type fallback = .error e) :
    e.IsOfValue := by
  cases fallback with
  | value value => cases h
  | raw token =>
    cases type with
    | none => cases h
    | some type => exact Resolvers.isOfValue_of_convert_error h
  | supplied supplier => cases h

theorem isOfValue_of_ownFallback_error {p : Parameter}
    (h : m.ownFallback source p = .error e) : e.IsOfValue := by
  unfold ownFallback at h
  split at h
  · cases h
  · exact isOfValue_of_fallbackValue_error (map_eq_error_iff.1 h)

theorem isOfValue_of_flagValue_error {split : TokenSplit} {flag : Flag}
    (h : m.flagValue source split flag = .error e) : e.IsOfValue := by
  unfold flagValue at h
  split at h
  · cases h
  · split at h
    · exact Resolvers.isOfValue_of_convert_error (map_eq_error_iff.1 h)
    · cases h
  · rw [← Except.error.inj h]
    trivial
  · split at h
    · exact isOfValue_of_fallbackValue_error (map_eq_error_iff.1 h)
    · cases h

theorem isOfValue_of_fillFlags_error {split : TokenSplit} {flags : List Flag}
    {arguments : Arguments} (h : m.fillFlags source split arguments flags = .error e) :
    e.IsOfValue := by
  induction flags generalizing arguments with
  | nil => cases h
  | cons flag flags ih =>
    rcases bind_eq_error_iff.1 h with h | ⟨value, -, h⟩
    · exact isOfValue_of_flagValue_error h
    · exact ih h

/-! ## Parameters that are served -/

/-- A parameter that is served is filled, unless its token or its fallback has no
value. -/
theorem isOfValue_of_fill_error {tokens : List String} {p : Parameter} {slot : Slot}
    (hserves : m.Serves tokens p slot) (h : m.fill source tokens p slot = .error e) :
    e.IsOfValue := by
  cases slot with
  | token index =>
    obtain ⟨token, htoken, haccepts⟩ := hserves
    simp only [fill, htoken, haccepts, if_true] at h
    split at h
    · cases h
    · exact isOfValue_of_convert_error (map_eq_error_iff.1 h)
  | skipped => exact isOfValue_of_ownFallback_error h
  | greedy start stop =>
    simp only [fill] at h
    split at h
    · cases h
    · next hempty =>
      obtain ⟨fallback, hfallback⟩ := Option.isSome_iff_exists.1 (hserves.resolve_left hempty)
      rw [hfallback] at h
      exact isOfValue_of_ownFallback_error h
  | missing => exact hserves.elim

theorem isOfValue_of_fillAll_error {tokens : List String} {pairs : List (Parameter × Slot)}
    (hserves : ∀ pair ∈ pairs, m.Serves tokens pair.1 pair.2) {arguments : Arguments}
    (h : m.fillAll source tokens arguments pairs = .error e) : e.IsOfValue := by
  induction pairs generalizing arguments with
  | nil => cases h
  | cons pair pairs ih =>
    rw [List.forall_mem_cons] at hserves
    rcases bind_eq_error_iff.1 h with h | ⟨value, -, h⟩
    · exact isOfValue_of_fill_error hserves.1 h
    · exact ih hserves.2 h

/-- A usage whose parameters are all served resolves, unless some value is
missing; tokens may be left over only where they are passed over. -/
theorem isOfValue_of_resolve_error {node : Node Act} {usage : Usage Act} {tokens : List String}
    {trailing : Trailing} {positional : List String}
    (hpositional : positional = (TokenSplit.ofTokens (node.flagsFor usage) tokens).positional)
    (hserves : ∀ pair ∈ usage.positional.zip (Slot.assign usage.positional positional.length).1,
      m.Serves positional pair.1 pair.2)
    (htaken : (Slot.assign usage.positional positional.length).2 = positional.length ∨
      trailing = .ignore)
    (h : m.resolve source node usage tokens trailing = .error e) : e.IsOfValue := by
  subst hpositional
  rcases bind_eq_error_iff.1 h with h | ⟨arguments, -, h⟩
  · exact isOfValue_of_fillAll_error hserves h
  · split at h
    · next hleft =>
      -- Leftover tokens are excluded on both ways.
      simp only [Bool.and_eq_true, decide_eq_true_eq, beq_iff_eq] at hleft
      rcases htaken with htaken | htaken
      · exact absurd htaken (Nat.ne_of_lt hleft.1)
      · rw [htaken] at hleft
        cases hleft.2
    · exact isOfValue_of_fillFlags_error h

/-! ## Default usages -/

/-- Parameters in front that accept the first tokens are served by them. -/
theorem serves_of_acceptsAll {ps : List Parameter} {tokens : List String} {cursor : Nat}
    (hcount : cursor + ps.length ≤ tokens.length)
    (haccepts : m.acceptsAll ps (tokens.drop cursor) = true) :
    ∀ pair ∈ ps.zip ((List.range' cursor ps.length).map Slot.token),
      m.Serves tokens pair.1 pair.2 := by
  induction ps generalizing cursor with
  | nil => simp
  | cons p ps ih =>
    rw [List.length_cons] at hcount
    have hlt : cursor < tokens.length := by omega
    have hnext : cursor + 1 + ps.length ≤ tokens.length := by omega
    rw [List.drop_eq_getElem_cons hlt] at haccepts
    simp only [acceptsAll, List.zip_cons_cons, List.all_cons, Bool.and_eq_true] at haccepts
    rw [List.length_cons, List.range'_succ, List.map_cons, List.zip_cons_cons, List.forall_mem_cons]
    exact ⟨⟨tokens[cursor], List.getElem?_eq_getElem hlt, haccepts.1⟩, ih hnext haccepts.2⟩

theorem acceptsAll_numberFrom {next : Nat} {ps : List Parameter} {tokens : List String} :
    m.acceptsAll (Usage.numberFrom next ps) tokens = m.acceptsAll ps tokens := by
  have hmap : ∀ qs : List Parameter, m.acceptsAll qs tokens =
      ((qs.map m.accepts).zip tokens).all fun (accepts, token) => accepts token := by
    intro qs
    rw [List.zip_map_left, List.all_map]
    rfl
  rw [hmap, hmap, Usage.map_numberFrom fun _ _ => rfl]

end Matcher

namespace Node.IsSound

variable {node : Node Act}

theorem positional_effectiveDefault (h : node.IsSound) :
    node.effectiveDefault.positional = Usage.numberFrom 0 node.positionalLead := by
  rw [h.effectiveDefault, Usage.behind, h.defaultEmpty, List.append_nil]
  exact Usage.filter_numberFrom 0 node.lead

/-- The default usage of a node has the flags that are in effect on the way to
the node. -/
theorem flagsFor_effectiveDefault (h : node.IsSound) :
    node.flagsFor node.effectiveDefault = node.flagsOnPath := by
  rw [flagsFor, flagsOnPath, h.effectiveDefault, Usage.behind, h.defaultEmpty, List.append_nil,
    Usage.flags, Usage.filterMap_numberFrom fun _ _ => rfl]

theorem isRequired_positionalLead (h : node.IsSound) :
    ∀ p ∈ node.positionalLead, p.isRequired = true := by
  intro p hp
  obtain ⟨hp, hflag⟩ := List.mem_filter.1 hp
  exact h.leadRequired p hp (by simpa using hflag)

end Node.IsSound

namespace Matcher

variable {m : Matcher} {source : Source} {e : ResolutionError}

/-- Tokens that the lead of a node accepts serve the node's default usage, and
the usage takes no others. -/
theorem serves_effectiveDefault {node : Node Act} (h : node.IsSound) {positional : List String}
    (hcount : node.positionalLead.length ≤ positional.length)
    (haccepts : m.acceptsAll node.positionalLead positional = true) :
    (∀ pair ∈ node.effectiveDefault.positional.zip
        (Slot.assign node.effectiveDefault.positional positional.length).1,
      m.Serves positional pair.1 pair.2) ∧
    (Slot.assign node.effectiveDefault.positional positional.length).2 =
      node.positionalLead.length := by
  have hlength := Usage.length_numberFrom 0 node.positionalLead
  have hrequired : ∀ p ∈ Usage.numberFrom 0 node.positionalLead, p.isRequired = true :=
    fun p hp => Usage.isRequired_of_mem_numberFrom h.isRequired_positionalLead hp
  rw [h.positional_effectiveDefault,
    Slot.assign_of_isRequired hrequired (hlength.symm ▸ hcount)]
  refine ⟨serves_of_acceptsAll (by omega) ?_, hlength⟩
  rw [List.drop_zero, acceptsAll_numberFrom]
  exact haccepts

end Matcher

/-! ## Selected usages -/

/-- What becomes of leftover tokens: they are passed over only for the default
usage of a subcommand. -/
def Selection.trailing : Selection Act → Trailing
  | incomplete _ => .ignore
  | complete _ _ | failure _ => .reject

theorem Matcher.acceptsAll_of_reach {m : Matcher} {node : Node Act} {tokens : List String}
    {literal : Parameter} (h : m.reach? node tokens = some literal) :
    node.positionalLead.length ≤ (TokenSplit.ofTokens node.flagsOnPath tokens).positional.length ∧
      m.acceptsAll node.positionalLead (TokenSplit.ofTokens node.flagsOnPath tokens).positional
        = true := by
  unfold reach? Node.literalSlot? at h
  cases hlength : node.positionalLead.length with
  | zero => simp [hlength] at h
  | succ slot =>
    simp only [hlength, Option.ite_none_right_eq_some, Bool.and_eq_true, decide_eq_true_eq] at h
    exact h.1

/-- The usage that is selected below the root of a sound tree is served by the tokens, and
uses all of them unless leftover tokens are passed over. -/
theorem Matcher.serves_of_select {m : Matcher} {root : Node Act} (hroot : root.IsSoundTree)
    (hlead : root.lead = []) {tokens : List String} {usage : Usage Act}
    (husage : (m.select root tokens).selection.usage? = some usage) {positional : List String}
    (hpositional : positional = (TokenSplit.ofTokens
      ((m.select root tokens).selection.node.flagsFor usage) tokens).positional) :
    (∀ pair ∈ usage.positional.zip (Slot.assign usage.positional positional.length).1,
      m.Serves positional pair.1 pair.2) ∧
    ((Slot.assign usage.positional positional.length).2 = positional.length ∨
      (m.select root tokens).selection.trailing = .ignore) := by
  have hcases := m.select_cases root tokens
  generalize (m.select root tokens).selection = selection at hcases husage hpositional
  subst hpositional
  rcases hcases with hfinds | ⟨rfl, hnone⟩ | rfl
  · cases hfinds with
    | usage hdescent he hmatches =>
      cases husage
      exact ⟨hmatches.1, .inl hmatches.2⟩
    | @anchor trail node literal hdescent hreach =>
      cases husage
      have hsound := hroot trail node hdescent
      obtain ⟨hcount, haccepts⟩ := acceptsAll_of_reach hreach
      rw [← hsound.flagsFor_effectiveDefault] at hcount haccepts
      exact ⟨(serves_effectiveDefault hsound hcount haccepts).1, .inr rfl⟩
  · cases husage
    have hlength : root.positionalLead = [] := by simp [Node.positionalLead, hlead]
    have hcount : root.positionalLead.length ≤ ([] : List String).length := by simp [hlength]
    have haccepts : m.acceptsAll root.positionalLead [] = true := by simp [hlength, acceptsAll]
    obtain ⟨hserves, htaken⟩ := serves_effectiveDefault hroot.isSound hcount haccepts
    rw [hlength] at htaken
    have hempty : (TokenSplit.ofTokens (root.flagsFor root.effectiveDefault) tokens).positional =
        [] := by
      rw [hroot.isSound.flagsFor_effectiveDefault, hnone]
    rw [Selection.node, hempty]
    exact ⟨hserves, .inl htaken⟩
  · cases husage

/-- Resolving the usage that is selected below the root of a sound tree fails
only for want of a value. -/
theorem Matcher.isOfValue_of_resolve_select_error {m : Matcher} {source : Source}
    {e : ResolutionError} {root : Node Act} (hroot : root.IsSoundTree) (hlead : root.lead = [])
    {tokens : List String} {usage : Usage Act}
    (husage : (m.select root tokens).selection.usage? = some usage)
    (h : m.resolve source (m.select root tokens).selection.node usage tokens
      (m.select root tokens).selection.trailing = .error e) : e.IsOfValue := by
  obtain ⟨hserves, htaken⟩ := serves_of_select hroot hlead husage rfl
  exact isOfValue_of_resolve_error rfl hserves htaken h

end Parlance
