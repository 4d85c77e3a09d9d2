import Parlance.RegistrationError
import Parlance.Usage.Element

/-!
# Usages

One way to use a command: a row of parameters, and the action that runs when
tokens match it. Actions are the host's; here they are only carried along.
-/

set_option autoImplicit false

namespace Parlance

/-- A row of parameters with what belongs to it. -/
structure Usage (Act : Type) where
  parameters : List Parameter := []
  action : Option Act := none
  permission : Option String := none
  description : Option String := none
  deriving Inhabited

namespace Usage

variable {Act : Type}

/-! ## Building -/

/-- Gives the parameters that are not flags their positions, counting from
`next`; flags get none. -/
def numberFrom (next : Nat) : List Parameter → List Parameter
  | [] => []
  | p :: ps =>
    if p.isFlag then { p with position := none } :: numberFrom next ps
    else { p with position := some next } :: numberFrom (next + 1) ps

/-- The usage of these parameters, with nothing else to it. -/
def ofParameters (parameters : List Parameter) : Usage Act where
  parameters := numberFrom 0 parameters

/-- The usage with more parameters in front, all numbered anew. -/
def behind (usage : Usage Act) (lead : List Parameter) : Usage Act :=
  { usage with parameters := numberFrom 0 (lead ++ usage.parameters) }

/-! ## Views -/

/-- The parameters that are not flags. -/
def positional (usage : Usage Act) : List Parameter :=
  usage.parameters.filter fun p => !p.isFlag

/-- The flags. -/
def flags (usage : Usage Act) : List Flag :=
  usage.parameters.filterMap Parameter.flag?

/-- Least number of tokens: fixed words and required values. -/
def minLength (usage : Usage Act) : Nat :=
  usage.positional.countP Parameter.isRequired

/-- Greatest number of tokens; none if a greedy parameter takes any number. -/
def maxLength (usage : Usage Act) : Option Nat :=
  if usage.positional.any Parameter.isGreedy then none else some usage.positional.length

/-- Number of fixed words. -/
def literalCount (usage : Usage Act) : Nat :=
  usage.parameters.countP Parameter.isLiteral

/-- The usage has no parameters at all. -/
def isEmpty (usage : Usage Act) : Bool :=
  usage.parameters.isEmpty

/-- The first parameter of a name. -/
def find? (usage : Usage Act) (name : String) : Option Parameter :=
  usage.parameters.find? fun p => p.name == name

/-! ## The compact form -/

/-- The usage in compact form: its elements with single spaces between. -/
def compact (usage : Usage Act) : String :=
  " ".intercalate (usage.parameters.map Parameter.element)

/-- The parameters that elements describe, or the first malformed element. -/
def readElements : List String → Except RegistrationError (List Parameter)
  | [] => .ok []
  | element :: elements =>
    match Parameter.ofElement? element with
    | none => .error (.invalidElement element)
    | some p => (readElements elements).map (p :: ·)

/-- The usage that a compact form describes. -/
def ofCompact (text : String) : Except RegistrationError (Usage Act) :=
  (readElements (Text.words text)).map ofParameters

end Usage

end Parlance
