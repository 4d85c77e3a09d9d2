import Parlance.ResolutionError
import Parlance.Source
import Parlance.Value
import Parlance.ValueType
import Parlance.Word

/-!
# Resolvers

How tokens become values of a type, and which completions a type knows. The
host registers a resolver for each custom type; the other types are built in.
-/

set_option autoImplicit false

namespace Parlance

/-- What the host provides for a custom type. -/
structure Resolver where
  /-- The value of a token. -/
  parse? : String → Option Value
  /-- Completions for a source and the beginning of a token. -/
  suggest : Source → String → List String := fun _ _ => []
  /-- A quick test for choosing a usage. -/
  accepts : String → Bool := fun _ => true
  deriving Inhabited

/-- The resolvers of custom types by key, the one registered last first. -/
structure Resolvers where
  byKey : List (String × Resolver) := []
  deriving Inhabited

namespace Resolvers

/-- Registers a resolver, in place of any earlier one of that key. -/
def register (resolvers : Resolvers) (key : String) (resolver : Resolver) : Resolvers :=
  ⟨(key, resolver) :: resolvers.byKey⟩

/-- The resolver of a key. -/
def find? (resolvers : Resolvers) (key : String) : Option Resolver :=
  resolvers.byKey.lookup key

/-! ## Built-in conversions -/

/-- A whole number of 64 bits: an optional sign and ASCII digits. -/
def integer? (token : String) : Option Int :=
  let (negative, digits) := Decimal.splitSign token.toList
  (Text.natural? digits).bind fun n =>
    let value : Int := if negative then -n else n
    if -(Word.half : Int) ≤ value && value < (Word.half : Int) then some value else none

/-- A double that is neither infinite nor undefined. -/
def float? (token : String) : Option Float :=
  (Decimal.read? token).filter Float.isFinite

/-- A truth value, in any case. -/
def bool? (token : String) : Option Bool :=
  match Text.smallLetters token with
  | "true" | "yes" | "on" => some true
  | "false" | "no" | "off" => some false
  | _ => none

/-- The declared spelling of a word of a choice. -/
def choice? (words : List String) (token : String) : Option String :=
  words.find? fun word => Text.sameFolded word token

/-- The value of a token of a built-in type; custom types have none here. -/
def builtIn? (type : ValueType) (token : String) : Option Value :=
  match type with
  | .string => some (.text token)
  | .word => if ValueType.word.accepts token then some (.text token) else none
  | .integer => (integer? token).map .integer
  | .float => (float? token).map .float
  | .boolean => (bool? token).map .bool
  | .duration => (Duration.parse? token).map .duration
  | .choice words => (choice? words token).map .text
  | .custom _ => none

/-! ## All types -/

/-- The token could be a value of the type; a custom type without a resolver
takes every token. -/
def accepts (resolvers : Resolvers) (type : ValueType) (token : String) : Bool :=
  match type with
  | .custom key => (resolvers.find? key).all fun resolver => resolver.accepts token
  | builtIn => builtIn.accepts token

/-- The value of a token for the parameter of a name. -/
def convert (resolvers : Resolvers) (type : ValueType) (parameter token : String) :
    Except ResolutionError Value :=
  let found : Except ResolutionError (Option Value) :=
    match type with
    | .custom key =>
      match resolvers.find? key with
      | some resolver => .ok (resolver.parse? token)
      | none => .error (.unknownType key)
    | builtIn => .ok (builtIn? builtIn token)
  match found with
  | .error e => .error e
  | .ok (some value) => .ok value
  | .ok none => .error (.typeConversion parameter token type.name)

/-- Durations that are offered as completions. -/
def sampleDurations : List String := ["30s", "5m", "1h", "1d", "7d"]

/-- Completions that the type itself knows. -/
def suggestions (resolvers : Resolvers) (type : ValueType) (source : Source) (start : String) :
    List String :=
  match type with
  | .boolean => ["true", "false"]
  | .choice words => words
  | .duration => sampleDurations
  | .custom key => ((resolvers.find? key).map fun r => r.suggest source start).getD []
  | .string | .word | .integer | .float => []

end Resolvers

end Parlance
