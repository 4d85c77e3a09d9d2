import Parlance.Engine.Dispatch
import Parlance.Engine.Tree
import Parlance.Proofs.Command.Tree

/-!
# Engines in use

The engines that come about from an empty one by registering commands, trees,
types and gates, and by running what was prepared. Each step keeps that every
root is linked from a verified command, so every engine in use has such roots.
-/

set_option autoImplicit false

namespace Parlance

variable {Act : Type}

/-- An engine that comes about from an empty one by the steps of a host. A
registration that fails leaves the engine as it is and is no step. -/
inductive Engine.Reached : Engine Act → Prop where
  | start (config : Config) : Reached { config }
  | register {engine next : Engine Act} {command : Command Act} (h : Reached engine)
      (hregister : engine.register command = .ok next) : Reached next
  | registerTree {engine : Engine Act} (h : Reached engine) (action : Option Act)
      (tree : TreeDefinition) : Reached (engine.registerTree action tree).1
  | registerType {engine : Engine Act} (h : Reached engine) (key : String)
      (resolver : Resolver) : Reached (engine.registerType key resolver)
  | setGate {engine : Engine Act} (h : Reached engine) (gate : Gate Act) :
      Reached (engine.setGate gate)
  | execute {engine : Engine Act} (h : Reached engine) (perform : Performer Act)
      (invocation : Invocation Act) (source : Source) :
      Reached (engine.execute perform invocation source).engine

namespace Engine

/-- Every root is linked from a command that was verified. -/
def HasVerifiedRoots (engine : Engine Act) : Prop :=
  ∀ root ∈ engine.commands, ∃ command : Command Act, command.verify = .ok () ∧
    root = command.link

/-! ## Steps -/

/-- A registration succeeds for a verified command none of whose labels is taken,
and adds its tree to the roots. -/
theorem register_eq_ok_iff {engine next : Engine Act} {command : Command Act} :
    engine.register command = .ok next ↔ command.verify = .ok () ∧
      (command.names.find? fun name => (engine.command? name).isSome) = none ∧
      next = { engine with commands := engine.commands ++ [command.link] } := by
  rw [register, check_bind_eq_ok_iff]
  refine and_congr_right fun _ => ?_
  cases command.names.find? fun name => (engine.command? name).isSome with
  | some taken => simp [throw, throwThe, MonadExceptOf.throw]
  | none => exact ⟨fun h => ⟨rfl, (Except.ok.inj h).symm⟩, fun h => h.2 ▸ rfl⟩

theorem HasVerifiedRoots.register {engine next : Engine Act} {command : Command Act}
    (h : engine.HasVerifiedRoots) (hregister : engine.register command = .ok next) :
    next.HasVerifiedRoots := by
  obtain ⟨hverify, -, rfl⟩ := register_eq_ok_iff.1 hregister
  intro root hroot
  rcases List.mem_append.1 hroot with hroot | hroot
  · exact h root hroot
  · exact ⟨command, hverify, List.mem_singleton.1 hroot⟩

theorem HasVerifiedRoots.registerAll {engine : Engine Act} (h : engine.HasVerifiedRoots)
    (action : Option Act) (ds : List CommandDefinition) :
    (engine.registerAll action ds).1.HasVerifiedRoots := by
  induction ds generalizing engine with
  | nil => exact h
  | cons d ds ih =>
    rw [Engine.registerAll]
    split
    · next next hregister =>
      obtain ⟨command, -, hcommand⟩ := bind_eq_ok_iff.1 hregister
      exact ih (h.register hcommand)
    · exact ih h

theorem commands_execute (engine : Engine Act) (perform : Performer Act)
    (invocation : Invocation Act) (source : Source) :
    (engine.execute perform invocation source).engine.commands = engine.commands := by
  unfold execute
  split
  · rfl
  · simp only
    split
    · rfl
    · split <;> rfl

/-! ## Engines in use -/

/-- Every engine in use has verified roots. -/
theorem Reached.hasVerifiedRoots {engine : Engine Act} (h : engine.Reached) :
    engine.HasVerifiedRoots := by
  induction h with
  | start config => simp [HasVerifiedRoots]
  | register _ hregister ih => exact ih.register hregister
  | registerTree _ action tree ih => exact ih.registerAll action tree.commands
  | registerType _ key resolver ih => exact ih
  | setGate _ gate ih => exact ih
  | execute _ perform invocation source ih =>
    rw [HasVerifiedRoots, commands_execute]
    exact ih

/-- The root of a label is linked from a verified command. -/
theorem Reached.exists_verified {engine : Engine Act} (h : engine.Reached) {label : String}
    {root : Node Act} (hroot : engine.command? label = some root) :
    ∃ command : Command Act, command.verify = .ok () ∧ root = command.link :=
  h.hasVerifiedRoots root (List.mem_of_find?_eq_some hroot)

theorem Reached.isSoundTree {engine : Engine Act} (h : engine.Reached) {label : String}
    {root : Node Act} (hroot : engine.command? label = some root) : root.IsSoundTree := by
  obtain ⟨command, hverify, rfl⟩ := h.exists_verified hroot
  exact Command.isSoundTree_link hverify

end Engine

end Parlance
