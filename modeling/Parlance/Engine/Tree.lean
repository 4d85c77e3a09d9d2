import Parlance.Definition
import Parlance.Engine.Registry

/-!
# Registering a tree

The commands of a definition are built and registered one after the other. One
that fails does not keep the others out.
-/

set_option autoImplicit false

namespace Parlance

variable {Act : Type}

namespace Engine

/-- Builds and registers one command. -/
def registerDefinition (engine : Engine Act) (action : Option Act) (d : CommandDefinition) :
    Except RegistrationError (Engine Act) := do
  let command ← d.build action
  engine.register command

/-- Registers all commands that can be; the answer are the faults of the others,
in their order. -/
def registerAll (engine : Engine Act) (action : Option Act) :
    List CommandDefinition → Engine Act × List RegistrationError
  | [] => (engine, [])
  | d :: ds =>
    match engine.registerDefinition action d with
    | .ok engine => engine.registerAll action ds
    | .error e =>
      let (engine, errors) := engine.registerAll action ds
      (engine, e :: errors)

/-- Registers the commands of a tree with an action for every usage. -/
def registerTree (engine : Engine Act) (action : Option Act) (tree : TreeDefinition) :
    Engine Act × List RegistrationError :=
  engine.registerAll action tree.commands

end Engine

end Parlance
