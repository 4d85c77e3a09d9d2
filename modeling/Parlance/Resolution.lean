import Parlance.Arguments
import Parlance.Command
import Parlance.TokenSplit
import Parlance.Matcher
import Parlance.Slot

/-!
# Resolution

Turning the tokens of a chosen usage into arguments: positional parameters
first, in order, then the flags in effect. The first fault is the answer and
never leads to another usage.
-/

set_option autoImplicit false

namespace Parlance

variable {Act : Type}

/-- What becomes of tokens left behind the last parameter. -/
inductive Trailing where
  /-- They are an error. -/
  | reject
  /-- They are passed over. -/
  | ignore
  deriving DecidableEq, Repr, Inhabited

/-- The outcome of resolving a part. -/
abbrev Resolved (α : Type) := Except ResolutionError α

namespace Matcher

/-! ## Single values -/

/-- The value of a token for a positional parameter, within its bounds. -/
def convert (m : Matcher) (p : Parameter) (token : String) : Resolved Value := do
  let value ← m.resolvers.convert (p.type?.getD .string) p.name token
  match p.bounds with
  | none => return value
  | some bounds =>
    if value.float?.all bounds.contains then return value
    else throw (.outOfRange p.name value.display bounds.display)

/-- The value of a fallback for a type; a raw one converts like a token. -/
def fallbackValue (m : Matcher) (source : Source) (name : String) (type : Option ValueType) :
    Fallback → Resolved Value
  | .value value => .ok value
  | .raw token =>
    match type with
    | some type => m.resolvers.convert type name token
    | none => .ok (.text token)
  | .supplied supplier => .ok (supplier source)

/-- The fallback value of a positional parameter, if it has a fallback. -/
def ownFallback (m : Matcher) (source : Source) (p : Parameter) : Resolved (Option Value) :=
  match p.fallback? with
  | none => .ok none
  | some fallback => (m.fallbackValue source p.name p.type? fallback).map some

/-! ## Positional parameters -/

/-- What a positional parameter stores, given its slot; fixed words and
parameters left out without a fallback store nothing. -/
def fill (m : Matcher) (source : Source) (tokens : List String) (p : Parameter) :
    Slot → Resolved (Option Value)
  | .token index =>
    match tokens[index]? with
    | none => .error (.missingRequiredArgument p.name)
    | some token =>
      if p.isLiteral then
        if m.accepts p token then .ok none else .error (.unknownSubcommand p.name token)
      else (m.convert p token).map some
  | .greedy start stop =>
    if start < stop then
      .ok (some (.text (" ".intercalate ((tokens.drop start).take (stop - start)))))
    else
      match p.fallback? with
      | none => .error (.missingRequiredArgument p.name)
      | some _ => m.ownFallback source p
  | .skipped => m.ownFallback source p
  | .missing => .error (.missingRequiredArgument p.name)

/-- Stores a value under a name, if there is one. -/
def store (arguments : Arguments) (name : String) : Option Value → Arguments
  | none => arguments
  | some value => arguments.insert name value

/-- Stores what the positional parameters take from the tokens. -/
def fillAll (m : Matcher) (source : Source) (tokens : List String) (arguments : Arguments) :
    List (Parameter × Slot) → Resolved Arguments
  | [] => .ok arguments
  | (p, slot) :: rest => do
    let value ← m.fill source tokens p slot
    m.fillAll source tokens (store arguments p.name value) rest

/-! ## Flags -/

/-- What a flag stores: the value of its last occurrence, or of its fallback,
which for a switch is a truth value, or false for a switch without one. -/
def flagValue (m : Matcher) (source : Source) (split : TokenSplit) (flag : Flag) :
    Resolved (Option Value) :=
  match (split.hit? flag.name).map FlagHit.value with
  | some .present => .ok (some (.bool true))
  | some (.raw token) =>
    match flag.type with
    | some type => (m.resolvers.convert type flag.name token).map some
    | none => .ok (some (.text token))
  | some .missing => .error (.missingFlagValue flag.name)
  | none =>
    match flag.fallback with
    | some fallback =>
      (m.fallbackValue source flag.name (some (flag.type.getD .boolean)) fallback).map some
    | none => .ok (if flag.isSwitch then some (.bool false) else none)

/-- Stores what the flags take from the tokens. -/
def fillFlags (m : Matcher) (source : Source) (split : TokenSplit) (arguments : Arguments) :
    List Flag → Resolved Arguments
  | [] => .ok arguments
  | flag :: flags => do
    let value ← m.flagValue source split flag
    m.fillFlags source split (store arguments flag.name value) flags

/-! ## Usages -/

/-- The arguments that the tokens give to a usage of the node. -/
def resolve (m : Matcher) (source : Source) (node : Node Act) (usage : Usage Act)
    (tokens : List String) (trailing : Trailing) : Resolved Arguments := do
  let flags := node.flagsFor usage
  let split := TokenSplit.ofTokens flags tokens
  let (slots, taken) := Slot.assign usage.positional split.positional.length
  let arguments ← m.fillAll source split.positional {} (usage.positional.zip slots)
  if taken < split.positional.length && trailing == .reject then
    throw (.tooManyArguments (" ".intercalate (split.positional.drop taken)))
  m.fillFlags source split arguments flags

end Matcher

end Parlance
