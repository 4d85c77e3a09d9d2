import Parlance.Command.Verify
import Parlance.Config
import Parlance.Engine.Gate
import Parlance.Matcher
import Parlance.NameMap
import Parlance.Text.Lower

/-!
# Engines

The commands that are registered, and what else is needed to run them. A root
command is found by its name or an alias, whatever the letter case: `Engine.command?`
searches the commands for it, and `Roster` is the map of labels that the engine keeps
so as not to search.
-/

set_option autoImplicit false

namespace Parlance

/-- Registered commands with settings, resolvers and gates. -/
structure Engine (Act : Type) where
  config : Config := {}
  /-- Roots in the order of their registration, linked. -/
  commands : List (Node Act) := []
  resolvers : Resolvers := {}
  /-- Gates in the order in which they were set; the last is in force. -/
  gates : List (GateBook Act) := []

variable {Act : Type}

/-! ## Labels -/

/-- The label, letter case apart, is a name or alias of the command. -/
def Declaration.isLabeled (d : Declaration Act) (label : String) : Bool :=
  d.names.any fun name => Text.lower name == Text.lower label

namespace Engine

/-- The root that has the label. -/
def command? (engine : Engine Act) (label : String) : Option (Node Act) :=
  engine.commands.find? fun root => root.isLabeled label

/-! ## Registration -/

/-- The engine with the command added, once it is verified and none of its
labels is taken. -/
def register (engine : Engine Act) (command : Command Act) :
    Except RegistrationError (Engine Act) := do
  command.verify
  match command.names.find? fun name => (engine.command? name).isSome with
  | some taken => throw (.duplicateCommand taken)
  | none => return { engine with commands := engine.commands ++ [command.link] }

end Engine

/-! ## The map of labels -/

/-- The roots of an engine with its own map of labels. The map says nothing that the
roots do not say, so `Engine` itself goes without. -/
structure Roster (Act : Type) where
  /-- Roots in the order of their registration, linked. -/
  roots : List (Node Act) := []
  /-- Places of the roots by label, in small letters. -/
  places : NameMap Nat := {}

namespace Roster

/-- The places with one more for every name. -/
def indexed (places : NameMap Nat) (place : Nat) (names : List String) : NameMap Nat :=
  names.foldl (fun places name => places.insert (Text.lower name) place) places

/-- Registers a command as the engine does, with the map in place of a search: what
comes of it, and what the roster holds then. -/
def register (roster : Roster Act) (command : Command Act) :
    Except RegistrationError Unit × Roster Act :=
  match command.verify with
  | .error e => (.error e, roster)
  | .ok () =>
    match command.names.find? fun name => (roster.places.get? (Text.lower name)).isSome with
    | some taken => (.error (.duplicateCommand taken), roster)
    | none =>
      (.ok (), {
        roots := roster.roots ++ [command.link]
        places := indexed roster.places roster.roots.length command.names })

/-- The root that has the label, by the map. -/
def root? (roster : Roster Act) (label : String) : Option (Node Act) :=
  (roster.places.get? (Text.lower label)).bind fun place => roster.roots[place]?

end Roster

namespace Engine

/-! ## Settings -/

/-- Registers a resolver for a custom type. -/
def registerType (engine : Engine Act) (key : String) (resolver : Resolver) : Engine Act :=
  { engine with resolvers := engine.resolvers.register key resolver }

/-- Puts a gate in force. -/
def setGate (engine : Engine Act) (gate : Gate Act) : Engine Act :=
  { engine with gates := engine.gates ++ [{ gate }] }

/-! ## Views -/

/-- The matcher of the engine's settings. -/
def matcher (engine : Engine Act) : Matcher where
  resolvers := engine.resolvers
  exact := engine.config.caseSensitiveLiterals

/-- Index of the gate in force. -/
def gateInForce? (engine : Engine Act) : Option Nat :=
  match engine.gates.length with
  | 0 => none
  | n + 1 => some n

/-- The gate in force, if there is one, holds the run back. -/
def isHeldBack (engine : Engine Act) (run : Run Act) : Bool :=
  engine.gates.getLast?.any fun book => book.holdsBack run

/-- Has a gate record a run. -/
def record (engine : Engine Act) (index : Nat) (run : Run Act) : Engine Act :=
  { engine with gates := recordAt index run engine.gates }

end Engine

/-! ## Usage lines -/

/-- One usage behind the label, with its description as a comment. -/
def usageLine (label : String) (usage : Usage Act) : String :=
  let line := Text.trimEnd (label ++ " " ++ usage.compact)
  match usage.description with
  | some description => line ++ "  # " ++ description
  | none => line

mutual

/-- The usages of a node as declared, then those of the nodes below it. -/
def Node.usageLines (label : String) : Node Act → List String
  | ⟨d, path, lead, scopeFlags, effective, effectiveDefault, children⟩ =>
    let node : Node Act := ⟨d, path, lead, scopeFlags, effective, effectiveDefault, children⟩
    node.usagesAsDeclared.map (fun e => usageLine label e.usage)
      ++ Node.usageLinesAll label children

/-- The usages of nodes, one node after the other. -/
def Node.usageLinesAll (label : String) : List (Node Act) → List String
  | [] => []
  | child :: children => child.usageLines label ++ Node.usageLinesAll label children

end

/-- Every usage of a root command, behind its name. -/
def usageLines (root : Node Act) : List String :=
  root.usageLines root.name

/-- Every usage of the command that has the label. -/
def Engine.usages (engine : Engine Act) (label : String) : List String :=
  ((engine.command? label).map usageLines).getD []

end Parlance
