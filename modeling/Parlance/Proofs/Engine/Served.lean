import Parlance.Proofs.Definition.Building
import Parlance.Proofs.Engine.Running

/-!
# Engines that one action serves

In an engine whose commands all come from trees that were registered with one action,
whatever usage is selected has that action. So a dispatch that is answered with an
invocation has called the action with it, once, and a dispatch that ends before has called
nothing (`Engine.ServedBy.dispatch_calls`).
-/

set_option autoImplicit false

namespace Parlance

variable {Act : Type}

/-- The engine comes about from an empty one by a host that registers its commands with
trees alone, all of them with the action `act`. -/
inductive Engine.ServedBy (act : Act) : Engine Act → Prop where
  | start (config : Config) : ServedBy act { config }
  | registerTree {engine : Engine Act} (h : ServedBy act engine) (tree : TreeDefinition) :
      ServedBy act (engine.registerTree (some act) tree).1
  | registerType {engine : Engine Act} (h : ServedBy act engine) (key : String)
      (resolver : Resolver) : ServedBy act (engine.registerType key resolver)
  | setGate {engine : Engine Act} (h : ServedBy act engine) (gate : Gate Act) :
      ServedBy act (engine.setGate gate)
  | execute {engine : Engine Act} (h : ServedBy act engine) (perform : Performer Act)
      (invocation : Invocation Act) (source : Source) :
      ServedBy act (engine.execute perform invocation source).engine

/-! ## Selected usages -/

/-- The usage that tokens select is one that a node of the tree offers. -/
theorem Matcher.exists_offers_of_select {m : Matcher} {root : Node Act} {tokens : List String}
    {usage : Usage Act} (h : (m.select root tokens).selection.usage? = some usage) :
    ∃ trail node, root.Descent trail node ∧ node.Offers usage := by
  rcases m.select_cases root tokens with hfinds | ⟨hdefault, -⟩ | hfailure
  · cases hselection : (m.select root tokens).selection with
    | complete node selected =>
      rw [hselection] at hfinds h
      obtain rfl := Option.some.inj h
      cases hfinds with
      | usage hdescent he hmatches => exact ⟨_, node, hdescent, .inl ⟨_, he, rfl⟩⟩
    | incomplete node =>
      rw [hselection] at hfinds h
      cases hfinds with
      | anchor hdescent hreach => exact ⟨_, node, hdescent, .inr (Option.some.inj h).symm⟩
    | failure node =>
      rw [hselection] at h
      cases h
  · rw [hdefault] at h
    exact ⟨[], root, .here root, .inr (Option.some.inj h).symm⟩
  · rw [hfailure] at h
    cases h

namespace Engine

variable {engine : Engine Act} {act : Act}

/-! ## Registered commands -/

/-- Every root is linked from a command that has the action everywhere. -/
def HasCarryingRoots (engine : Engine Act) (action : Option Act) : Prop :=
  ∀ root ∈ engine.commands, ∃ command : Command Act, command.Carries action ∧
    root = command.link

theorem HasCarryingRoots.registerAll {action : Option Act} (h : engine.HasCarryingRoots action)
    (ds : List CommandDefinition) :
    (engine.registerAll action ds).1.HasCarryingRoots action := by
  induction ds generalizing engine with
  | nil => exact h
  | cons d ds ih =>
    rw [Engine.registerAll]
    split
    · next next hregister =>
      obtain ⟨command, hbuild, hcommand⟩ := bind_eq_ok_iff.1 hregister
      obtain ⟨-, -, rfl⟩ := register_eq_ok_iff.1 hcommand
      apply ih
      intro root hroot
      rcases List.mem_append.1 hroot with hroot | hroot
      · exact h root hroot
      · exact ⟨command, d.carries_of_build hbuild, List.mem_singleton.1 hroot⟩
    · exact ih h

theorem ServedBy.hasCarryingRoots (h : engine.ServedBy act) :
    engine.HasCarryingRoots (some act) := by
  induction h with
  | start config => simp [HasCarryingRoots]
  | registerTree _ tree ih => exact ih.registerAll tree.commands
  | registerType _ key resolver ih => exact ih
  | setGate _ gate ih => exact ih
  | execute _ perform invocation source ih =>
    rw [HasCarryingRoots, commands_execute]
    exact ih

/-- Whatever usage is prepared has the action. -/
theorem ServedBy.action_of_grants (h : engine.ServedBy act) {source : Source} {label : String}
    {tokens : List String} {invocation : Invocation Act}
    (hgrants : engine.Grants source label tokens invocation) :
    invocation.usage.action = some act := by
  obtain ⟨root, hroot, husage⟩ := hgrants.selected
  obtain ⟨command, hcarries, rfl⟩ := h.hasCarryingRoots root (List.mem_of_find?_eq_some hroot)
  obtain ⟨trail, node, hdescent, hoffers⟩ := Matcher.exists_offers_of_select husage
  exact hcarries.action_of_offers hdescent hoffers

/-! ## Dispatching -/

/-- Let all commands come from trees with one action. A dispatch that is answered with an
invocation, complete or not, has called the action exactly once, with what the invocation
holds, and the call succeeded. One that matches nothing or is refused has called nothing.
An answer that the action failed means exactly one call, which failed. -/
theorem ServedBy.dispatch_calls (h : engine.ServedBy act) (perform : Performer Act)
    (source : Source) (label : String) (tokens : List String) :
    let step := engine.dispatch perform source label tokens
    let performances := step.events.filterMap Event.performance?
    (∀ invocation, step.answer = .ok (.complete invocation) ∨
        step.answer = .ok (.incomplete invocation) →
      invocation.label = label ∧ performances = [⟨act, invocation.call source, .ok ()⟩]) ∧
    (EndsBeforeAction step.answer → performances = []) ∧
    ∀ command causes, step.answer = .error (.actionFailed command causes) →
      ∃ call : Call Act, performances = [⟨act, call, .error causes⟩] ∧
        call.source = source ∧ call.label = label ∧ command = " ".intercalate call.path := by
  intro step performances
  have hcomes : engine.Comes perform source label tokens step := engine.dispatch_comes _ _ _ _
  refine ⟨?_, ?_, ?_⟩
  · intro invocation hanswer
    have houtcome : ∃ outcome, step.answer = .ok outcome ∧
        outcome.invocation? = some invocation := by
      rcases hanswer with hanswer | hanswer
      · exact ⟨_, hanswer, rfl⟩
      · exact ⟨_, hanswer, rfl⟩
    obtain ⟨outcome, hanswer, hinvocation⟩ := houtcome
    obtain ⟨hgrants, hran⟩ := hcomes.of_ok hanswer hinvocation
    exact ⟨hgrants.called, hran act (h.action_of_grants hgrants)⟩
  · intro hends
    exact filterMap_eq_nil_of_questions (fun _ _ => rfl) (hcomes.of_endsBeforeAction hends).1
  · intro command causes hfailed
    obtain ⟨events, ran, invocation, hquestions, hevents, hgrants, haction, hcommand⟩ :=
      hcomes.of_actionFailed hfailed
    obtain rfl : ran = act := Option.some.inj (haction.symm.trans (h.action_of_grants hgrants))
    refine ⟨invocation.call source, ?_, rfl, hgrants.called, hcommand⟩
    show step.events.filterMap Event.performance? = _
    rw [hevents, List.filterMap_append, filterMap_eq_nil_of_questions (fun _ _ => rfl) hquestions]
    rfl

/-- A greeting, and a subcommand without any usage of its own. -/
def greetingTree : TreeDefinition where
  commands := [{
    name := "greet"
    usages := [.bare "<name>"]
    subcommands := [{ name := "back", aliases := ["b"] }] }]

/-- The console calls the subcommand by its alias. -/
def greetingBack : Step Unit (Outcome Unit) :=
  (Engine.registerTree {} (some ()) greetingTree).1.dispatch (fun _ _ => .ok ()) .console "greet"
    ["b"]

/-- With its default usage the subcommand runs the action of the tree. -/
theorem ServedBy.dispatch_calls_greeting :
    ∃ invocation, greetingBack.answer = .ok (.incomplete invocation) ∧
      invocation.path = ["greet", "back"] ∧ invocation.label = "greet" ∧
      greetingBack.events.filterMap Event.performance? =
        [⟨(), invocation.call .console, .ok ()⟩] := by
  have hpath : (match greetingBack.answer with
      | .ok (.incomplete invocation) => invocation.path == ["greet", "back"]
      | _ => false) = true := by decide +kernel
  split at hpath
  · next invocation hanswer =>
    have hserved : (Engine.registerTree {} (some ()) greetingTree).1.ServedBy () :=
      .registerTree (.start {}) greetingTree
    have hcalls := (hserved.dispatch_calls (fun _ _ => .ok ()) .console "greet" ["b"]).1
      invocation (.inr hanswer)
    exact ⟨invocation, hanswer, beq_iff_eq.1 hpath, hcalls⟩
  · cases hpath

end Engine

end Parlance
