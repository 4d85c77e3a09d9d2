import Parlance.Definition
import Parlance.Proofs.Command.Passage
import Parlance.Proofs.Resolution.StoredNames

/-!
# Actions of described commands

Building a definition puts one action on every usage of the command and of those below it,
and on their default usages (`CommandDefinition.carries_of_build`). Linking changes the
parameters of a usage and its place, never its action, so whatever a node of the linked
tree offers still has that action (`Command.Carries.action_of_offers`).
-/

set_option autoImplicit false

namespace Parlance

variable {Act : Type} {action : Option Act}

/-! ## Declared commands -/

/-- Every usage of the command has the action, its default usage included. -/
structure Declaration.Carries (d : Declaration Act) (action : Option Act) : Prop where
  usages : ∀ usage ∈ d.usages, usage.action = action
  default : d.defaultUsage.action = action

/-- The command and all those below it have the action everywhere. -/
def Command.Carries (command : Command Act) (action : Option Act) : Prop :=
  ∀ (above : List (Command Act)) (node : Command Act), command.Passage above node →
    node.toDeclaration.Carries action

/-! ## Building -/

theorem UsageDefinition.action_of_build {d : UsageDefinition} {usage : Usage Act}
    (h : d.build action = .ok usage) : usage.action = action := by
  cases d with
  | bare compact =>
    obtain ⟨plain, -, hbuilt⟩ := bind_eq_ok_iff.1 h
    rw [← Except.ok.inj hbuilt]
  | detailed compact permission description hints =>
    obtain ⟨parameters, -, hbuilt⟩ := bind_eq_ok_iff.1 h
    rw [← Except.ok.inj hbuilt]

theorem UsageDefinition.action_of_buildAll {ds : List UsageDefinition} {usages : List (Usage Act)}
    (h : UsageDefinition.buildAll action ds = .ok usages) :
    ∀ usage ∈ usages, usage.action = action := by
  induction ds generalizing usages with
  | nil =>
    rw [← Except.ok.inj h]
    simp
  | cons d ds ih =>
    obtain ⟨first, hfirst, h⟩ := bind_eq_ok_iff.1 h
    obtain ⟨others, hothers, h⟩ := bind_eq_ok_iff.1 h
    rw [← Except.ok.inj h, List.forall_mem_cons]
    exact ⟨action_of_build hfirst, ih hothers⟩

mutual

/-- Building puts the action on every usage and default usage of the whole tree. -/
theorem CommandDefinition.carries_of_build : ∀ (d : CommandDefinition) {command : Command Act},
    d.build action = .ok command → command.Carries action
  | ⟨name, aliases, description, permission, usages, flags, subcommands, attachment,
      ignoresPermission⟩, command, h => by
    obtain ⟨builtUsages, husages, h⟩ := bind_eq_ok_iff.1 h
    obtain ⟨children, hchildren, h⟩ := bind_eq_ok_iff.1 h
    rw [← Except.ok.inj h]
    exact Command.forall_passage_iff.2 ⟨⟨UsageDefinition.action_of_buildAll husages, rfl⟩,
      CommandDefinition.carries_of_buildAll subcommands hchildren⟩

theorem CommandDefinition.carries_of_buildAll :
    ∀ (ds : List CommandDefinition) {commands : List (Command Act)},
    CommandDefinition.buildAll action ds = .ok commands →
    ∀ command ∈ commands, command.Carries action
  | [], commands, h => by
    rw [← Except.ok.inj h]
    simp
  | d :: ds, commands, h => by
    obtain ⟨first, hfirst, h⟩ := bind_eq_ok_iff.1 h
    obtain ⟨others, hothers, h⟩ := bind_eq_ok_iff.1 h
    rw [← Except.ok.inj h, List.forall_mem_cons]
    exact ⟨CommandDefinition.carries_of_build d hfirst,
      CommandDefinition.carries_of_buildAll ds hothers⟩

end

/-! ## Linking -/

/-- Linking keeps the actions: whatever a node of the tree offers has the action that the
command carries. -/
theorem Command.Carries.action_of_offers {command : Command Act} (h : command.Carries action)
    {trail : List (Node Act)} {node : Node Act} (hdescent : command.link.Descent trail node)
    {usage : Usage Act} (husage : node.Offers usage) : usage.action = action := by
  obtain ⟨above, below, path, hpassage, rfl⟩ := exists_passage_of_descent hdescent rfl
  have hcarries := h above below hpassage
  rcases husage with ⟨e, he, rfl⟩ | rfl
  · rw [effective_linkUnder, mem_arrange] at he
    obtain ⟨declared, hdeclared, heq⟩ := EffectiveUsage.exists_of_mem_behind he
    rw [heq]
    exact hcarries.usages declared hdeclared
  · rw [effectiveDefault_linkUnder]
    exact hcarries.default

end Parlance
