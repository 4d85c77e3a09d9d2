import Parlance.Proofs.Engine.Permissions
import Parlance.Proofs.Resolution.Reading
import Parlance.Proofs.Selection.Asking

/-!
# Moving a switch

A switch of the selected usage may stand anywhere among the tokens, as far as that
usage is concerned. Other usages, and the subcommands on the way, take the tokens
apart by flags of their own, and a switch that is none of theirs is a positional
token to them. So a command comes out the same, wherever the switch stands, exactly
if all candidates that are asked on the way answer the same
(`Engine.Reached.prepare_of_moved_switch`).
-/

set_option autoImplicit false

namespace Parlance

open TokenSplit (IsLoose)

variable {Act : Type}

/-! ## Selections -/

namespace Matcher

variable {m : Matcher} {tokens other : List String} {root node : Node Act} {usage : Usage Act}

/-- A node one of whose usages matches the tokens is never left empty-handed. -/
theorem walk_found_ne_none {e : EffectiveUsage Act} (he : e ∈ node.effective)
    (hmatches : m.Matches node tokens e.usage) : (m.walk tokens node).found ≠ none := by
  intro hnone
  rw [walk_found_eq, Option.or_eq_none_iff, Option.or_eq_none_iff, Option.map_eq_none_iff,
    Option.map_eq_none_iff] at hnone
  cases hown : decide (0 < e.ownLiterals) with
  | true => exact tryUsages_found_ne_none (List.mem_filter.2 ⟨he, hown⟩) hmatches hnone.1
  | false =>
    have hnoWords : decide (e.ownLiterals = 0) = true := by
      rw [decide_eq_false_iff_not] at hown
      simpa using hown
    exact tryUsages_found_ne_none (List.mem_filter.2 ⟨he, hnoWords⟩) hmatches hnone.2.2

/-- A usage that is found at a node is one of its usages, and matches. -/
theorem exists_effective_of_walk_found
    (h : (m.walk tokens root).found = some (.complete node usage)) :
    ∃ e ∈ node.effective, e.usage = usage ∧ m.Matches node tokens usage := by
  cases finds_of_walk_found h with
  | @usage trail node e hdescent he hmatches => exact ⟨e, he, rfl, hmatches⟩

theorem selection_eq (m : Matcher) (root : Node Act) (tokens : List String) :
    (m.select root tokens).selection = (m.walk tokens root).found.getD
      (if (TokenSplit.ofTokens root.flagsOnPath tokens).positional.isEmpty then
        .complete root root.effectiveDefault else .failure root) := rfl

/-- If tokens select a usage for want of anything found, it is the default usage of
the root. -/
theorem eq_default_of_found_none (hnone : (m.walk tokens root).found = none)
    (hselect : (m.select root tokens).selection = .complete node usage) :
    node = root ∧ usage = root.effectiveDefault ∧
      (TokenSplit.ofTokens root.flagsOnPath tokens).positional = [] := by
  rw [selection_eq, hnone, Option.getD_none] at hselect
  split at hselect
  · next hempty =>
    obtain ⟨rfl, rfl⟩ := Selection.complete.inj hselect
    exact ⟨rfl, rfl, List.isEmpty_iff.1 hempty⟩
  · cases hselect

/-- Tokens that the usage reads alike match it alike. -/
theorem Matches.congr
    (h : (TokenSplit.ofTokens (node.flagsFor usage) tokens).positional =
      (TokenSplit.ofTokens (node.flagsFor usage) other).positional)
    (hmatches : m.Matches node tokens usage) : m.Matches node other usage := by
  rw [Matches, ← h]
  exact hmatches

/-- Token lists that select one usage, and that this usage reads alike, find the
same on their walks. -/
theorem walk_found_of_selection
    (hpositional : (TokenSplit.ofTokens (node.flagsFor usage) tokens).positional =
      (TokenSplit.ofTokens (node.flagsFor usage) other).positional)
    (hselect : (m.select root other).selection = .complete node usage)
    (hfound : (m.walk tokens root).found = some (.complete node usage)) :
    (m.walk other root).found = some (.complete node usage) := by
  cases hother : (m.walk other root).found with
  | some selection =>
    rw [selection_eq, hother, Option.getD_some] at hselect
    rw [hselect]
  | none =>
    obtain ⟨e, he, rfl, hmatches⟩ := exists_effective_of_walk_found hfound
    obtain ⟨rfl, -, -⟩ := eq_default_of_found_none hother hselect
    exact absurd hother (walk_found_ne_none he (hmatches.congr hpositional))

/-- Token lists that the selected usage reads alike select it both, exactly if all
candidates that are asked on the way answer both alike. -/
theorem selection_eq_iff (hsound : root.IsSoundTree)
    (hselect : (m.select root tokens).selection = .complete node usage)
    (hpositional : (TokenSplit.ofTokens (node.flagsFor usage) tokens).positional =
      (TokenSplit.ofTokens (node.flagsFor usage) other).positional) :
    (m.select root other).selection = .complete node usage ↔
      ∀ candidate ∈ m.asked tokens root, candidate.admits m other = candidate.admits m tokens := by
  constructor
  · intro hother
    refine admits_eq_of_walk_found_eq hsound ?_
    cases htokens : (m.walk tokens root).found with
    | some selection =>
      rw [selection_eq, htokens, Option.getD_some] at hselect
      subst hselect
      exact walk_found_of_selection hpositional hother htokens
    | none =>
      cases hfound : (m.walk other root).found with
      | none => rfl
      | some selection =>
        rw [selection_eq, hfound, Option.getD_some] at hother
        subst hother
        rw [walk_found_of_selection hpositional.symm hselect hfound] at htokens
        cases htokens
  · intro hadmits
    have hfound := walk_found_congr hadmits
    cases htokens : (m.walk tokens root).found with
    | some selection =>
      rw [selection_eq, htokens, Option.getD_some] at hselect
      rw [selection_eq, hfound, htokens, Option.getD_some, hselect]
    | none =>
      obtain ⟨rfl, rfl, hempty⟩ := eq_default_of_found_none htokens hselect
      rw [hsound.isSound.flagsFor_effectiveDefault, hempty] at hpositional
      rw [selection_eq, hfound, htokens, Option.getD_none, ← hpositional]
      rfl

end Matcher

/-! ## Prepared commands -/

namespace Engine

variable {engine : Engine Act} {source : Source} {label : String} {tokens other : List String}
  {root node : Node Act} {usage : Usage Act} {invocation : Invocation Act}

theorem allow_congr {trailing : Trailing}
    (h : engine.matcher.resolve source node usage tokens trailing =
      engine.matcher.resolve source node usage other trailing) :
    engine.allow source root node usage trailing label tokens =
      engine.allow source root node usage trailing label other := by
  simp only [allow, h]

/-- A command that is prepared completely runs a usage that its tokens select. -/
theorem selection_of_prepare_complete (hroot : engine.command? label = some root)
    (h : (engine.prepare source label tokens).2 = .ok (.complete invocation)) :
    ∃ node, (engine.matcher.select root tokens).selection = .complete node invocation.usage ∧
      node.path = invocation.path := by
  obtain ⟨root', usage, hroot', husage⟩ := exists_usage?_of_prepare h (by simp) (by simp)
  obtain rfl : root = root' := Option.some.inj (hroot.symm.trans hroot')
  rw [prepare_of_usage? hroot husage] at h
  generalize (engine.matcher.select root tokens).selection = selection at h husage ⊢
  obtain ⟨allowed, hallow, houtcome⟩ := map_eq_ok_iff.1 h
  obtain ⟨hpath, rfl, -⟩ := forall_holds_of_allow hallow
  cases selection with
  | complete node selected =>
    obtain rfl : allowed = invocation := Outcome.complete.inj houtcome
    obtain rfl : selected = allowed.usage := Option.some.inj husage
    exact ⟨node, rfl, hpath.symm⟩
  | incomplete node => cases houtcome
  | failure node => cases husage

/-- Token lists that the selected usage resolves alike prepare alike, exactly if
both select it. -/
theorem Reached.prepare_eq_iff (h : engine.Reached) (hroot : engine.command? label = some root)
    (hselect : (engine.matcher.select root tokens).selection = .complete node usage)
    (hcomplete : (engine.prepare source label tokens).2 = .ok (.complete invocation))
    (hresolve : engine.matcher.resolve source node usage other .reject =
      engine.matcher.resolve source node usage tokens .reject) :
    engine.prepare source label other = engine.prepare source label tokens ↔
      (engine.matcher.select root other).selection = .complete node usage := by
  constructor
  · intro hsame
    rw [← hsame] at hcomplete
    obtain ⟨node', hselect', hpath'⟩ := selection_of_prepare_complete hroot hcomplete
    rw [hsame] at hcomplete
    obtain ⟨node'', hselect'', hpath''⟩ := selection_of_prepare_complete hroot hcomplete
    obtain ⟨rfl, rfl⟩ := Selection.complete.inj (hselect.symm.trans hselect'')
    -- Both nodes have the path of the invocation, so they are one.
    obtain ⟨trail, hdescent⟩ := engine.matcher.exists_descent_select root tokens
    obtain ⟨way, hway⟩ := engine.matcher.exists_descent_select root other
    rw [hselect] at hdescent
    rw [hselect'] at hway
    obtain ⟨-, rfl⟩ :=
      (h.isSoundTree hroot).trail_eq hway hdescent (hpath'.trans hpath''.symm)
    exact hselect'
  · intro hselect'
    have husage : (engine.matcher.select root tokens).selection.usage? = some usage := by
      rw [hselect]
      rfl
    have husage' : (engine.matcher.select root other).selection.usage? = some usage := by
      rw [hselect']
      rfl
    rw [prepare_of_usage? hroot husage, prepare_of_usage? hroot husage', hselect, hselect']
    have hallow : engine.allow source root node usage .reject label other =
        engine.allow source root node usage .reject label tokens := allow_congr hresolve
    rw [Selection.trailing, Selection.node, hallow]

/-- Whether a switch may stand elsewhere. Let a command be prepared completely, with
a switch of the selected usage behind `xs` and `ys`, let no flag of that usage wait
for its value behind `xs` or behind both, and let `ys` hold no occurrence of a flag
named like the switch. With the switch between `xs` and `ys`, that usage still
resolves to the same arguments, and the command is prepared the same, exactly if
every candidate that was asked on the way gives the same answer. One for which the
token is such a switch, too, gives the same answer. -/
theorem Reached.prepare_of_moved_switch (h : engine.Reached)
    (hroot : engine.command? label = some root) {xs ys zs : List String} {token : String}
    (hselect : (engine.matcher.select root (xs ++ ys ++ [token] ++ zs)).selection =
      .complete node usage)
    (hcomplete : (engine.prepare source label (xs ++ ys ++ [token] ++ zs)).2 =
      .ok (.complete invocation))
    (hloose : IsLoose (node.flagsFor usage) xs ys token)
    (hapart : ∀ flag, matchFlag? (node.flagsFor usage) token = some flag →
      ∀ hit ∈ (TokenSplit.ofTokens (node.flagsFor usage) ys).hits, hit.flag.name ≠ flag.name) :
    let placed := xs ++ ys ++ [token] ++ zs
    let moved := xs ++ [token] ++ ys ++ zs
    (∀ trailing, engine.matcher.resolve source node usage moved trailing =
      engine.matcher.resolve source node usage placed trailing) ∧
    (engine.prepare source label moved = engine.prepare source label placed ↔
      ∀ candidate ∈ engine.matcher.asked placed root,
        candidate.admits engine.matcher moved = candidate.admits engine.matcher placed) ∧
    ∀ candidate : Candidate Act, IsLoose candidate.flags xs ys token →
      candidate.admits engine.matcher moved = candidate.admits engine.matcher placed := by
  intro placed moved
  have hresolve : ∀ trailing, engine.matcher.resolve source node usage moved trailing =
      engine.matcher.resolve source node usage placed trailing :=
    fun trailing => Matcher.resolve_congr (hloose.readsAs hapart zs) trailing
  refine ⟨hresolve, ?_, ?_⟩
  · rw [h.prepare_eq_iff hroot hselect hcomplete (hresolve .reject)]
    exact Matcher.selection_eq_iff (h.isSoundTree hroot) hselect (hloose.positional_eq zs).symm
  · intro candidate hcandidate
    exact Candidate.admits_congr (hcandidate.positional_eq zs)

/-- A command with a switch, and with a subcommand that does not know the switch. -/
def banning : Command Unit where
  name := "ban"
  usages := [.ofParameters [
    { name := "player", kind := .required .string },
    { name := "silent", kind := .flag ["s"] none none },
    { name := "reason", kind := .greedy none }]]
  children := [{ name := "list", usages := [{}] }]

/-- The switch may stand within the reason or in front of it. -/
theorem Reached.prepare_of_moved_switch_banning :
    let engine : Engine Unit := { commands := [banning.link] }
    (∃ invocation, (engine.prepare .console "ban" ["ann", "rude", "-s", "words"]).2 =
        .ok (.complete invocation) ∧
      invocation.arguments.get? "silent" = some (.bool true) ∧
      invocation.arguments.get? "reason" = some (.text "rude words")) ∧
    engine.prepare .console "ban" ["ann", "-s", "rude", "words"] =
      engine.prepare .console "ban" ["ann", "rude", "-s", "words"] := by
  intro engine
  have hregister : Engine.register {} banning = .ok engine := rfl
  obtain ⟨invocation, hcomplete, hsilent, hreason⟩ : ∃ invocation,
      (engine.prepare .console "ban" (["ann"] ++ ["rude"] ++ ["-s"] ++ ["words"])).2 =
        .ok (.complete invocation) ∧
      invocation.arguments.get? "silent" = some (.bool true) ∧
      invocation.arguments.get? "reason" = some (.text "rude words") :=
    ⟨_, rfl, rfl, rfl⟩
  refine ⟨⟨invocation, hcomplete, hsilent, hreason⟩, ?_⟩
  have hroot : engine.command? "ban" = some banning.link := rfl
  have hmoved := Reached.prepare_of_moved_switch (.register (.start {}) hregister) hroot rfl
    hcomplete ⟨⟨_, rfl, rfl⟩, by decide, by decide⟩
    fun flag _ hit hhit => (List.not_mem_nil hhit).elim
  exact hmoved.2.1.2 (by decide)

/-- A command whose subcommand has a switch. -/
def enrolling : Command Unit where
  name := "member"
  children := [{
    name := "add"
    usages := [.ofParameters [
      { name := "who", kind := .required .string },
      { name := "quiet", kind := .flag [] none none }]] }]

/-- The switch of a subcommand's usage is none in front of the subcommand's word: there
it keeps the tokens from reaching the subcommand. -/
theorem Reached.switch_unknown_enrolling :
    let engine : Engine Unit := { commands := [enrolling.link] }
    engine.Reached ∧ ∃ root node usage invocation flag failure,
      engine.command? "member" = some root ∧
      (engine.matcher.select root ["add", "-quiet", "ann"]).selection = .complete node usage ∧
      (engine.prepare .console "member" ["add", "-quiet", "ann"]).2 =
        .ok (.complete invocation) ∧
      flag ∈ usage.flags ∧ matchFlag? (node.flagsFor usage) "-quiet" = some flag ∧
      IsLoose (node.flagsFor usage) [] ["add"] "-quiet" ∧
      (TokenSplit.ofTokens (node.flagsFor usage) ["add"]).hits = [] ∧
      (engine.prepare .console "member" ["-quiet", "add", "ann"]).2 = .ok (.failure failure) := by
  intro engine
  have hregister : Engine.register {} enrolling = .ok engine := rfl
  refine ⟨.register (.start {}) hregister, enrolling.link, _, _, _, _, _, rfl, rfl, rfl, ?_, rfl,
    ⟨⟨_, rfl, rfl⟩, by decide, by decide⟩, rfl, rfl⟩
  exact List.mem_cons_self

end Engine

end Parlance
