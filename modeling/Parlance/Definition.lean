import Parlance.Command
import Parlance.NameMap

/-!
# Definitions

Commands as they are described in a file, and how they are built. Usages are
given in compact form, and free flags with the token of their fallback.
-/

set_option autoImplicit false

namespace Parlance

/-! ## Descriptions -/

/-- A usage in compact form, alone or with what belongs to it. -/
inductive UsageDefinition where
  | bare (compact : String)
  /-- The hints are completions for the parameters of their names. -/
  | detailed (compact : String) (permission description : Option String)
      (hints : NameMap (List String))
  deriving Inhabited

/-- A free flag; without a type it is a switch. -/
structure FlagDefinition where
  name : String
  aliases : List String := []
  type : Option ValueType := none
  fallback : Option String := none
  deriving DecidableEq, Repr, Inhabited

/-- A command with its subcommands. -/
structure CommandDefinition where
  name : String
  aliases : List String := []
  description : Option String := none
  permission : Option String := none
  usages : List UsageDefinition := []
  flags : List FlagDefinition := []
  subcommands : List CommandDefinition := []
  attachment : Attachment := .direct
  ignoresPermission : Bool := false
  deriving Inhabited

/-- The commands of a file. -/
structure TreeDefinition where
  commands : List CommandDefinition := []
  deriving Inhabited

/-! ## Building -/

variable {Act : Type}

/-- The parameter with the hints for its name, if there are any. -/
def Parameter.hinted (hints : NameMap (List String)) (p : Parameter) : Parameter :=
  match hints.get? p.name with
  | some words => { p with suggestions := p.suggestions ++ words }
  | none => p

/-- The usage described, with an action. -/
def UsageDefinition.build (action : Option Act) :
    UsageDefinition → Except RegistrationError (Usage Act)
  | .bare compact => do
    let usage : Usage Act ← Usage.ofCompact compact
    return { usage with action }
  | .detailed compact permission description hints => do
    let parameters ← Usage.readElements (Text.words compact)
    let usage : Usage Act := .ofParameters (parameters.map (Parameter.hinted hints))
    return { usage with action, permission, description }

/-- The free flag described. -/
def FlagDefinition.build (d : FlagDefinition) : Flag where
  name := d.name
  aliases := d.aliases
  type := d.type
  fallback := d.fallback.map .raw
  free := true

/-- The usages described, or the first fault. -/
def UsageDefinition.buildAll (action : Option Act) :
    List UsageDefinition → Except RegistrationError (List (Usage Act))
  | [] => .ok []
  | d :: ds => do
    let usage ← d.build action
    return usage :: (← UsageDefinition.buildAll action ds)

mutual

/-- The command described, with the action on every usage and, if there is one,
on the default usages. The first malformed usage is the answer otherwise. -/
def CommandDefinition.build (action : Option Act) :
    CommandDefinition → Except RegistrationError (Command Act)
  | ⟨name, aliases, description, permission, usages, flags, subcommands, attachment,
      ignoresPermission⟩ => do
    let usages ← UsageDefinition.buildAll action usages
    let children ← CommandDefinition.buildAll action subcommands
    return {
      name, aliases, description, permission, usages, attachment, ignoresPermission
      defaultUsage := { action }
      freeFlags := flags.map FlagDefinition.build
      children }

/-- The subcommands described, or the first fault. -/
def CommandDefinition.buildAll (action : Option Act) :
    List CommandDefinition → Except RegistrationError (List (Command Act))
  | [] => .ok []
  | d :: ds => do
    let command ← d.build action
    return command :: (← CommandDefinition.buildAll action ds)

end

end Parlance
