import Parlance.Flag

/-!
# Parameters

The letters that usages are written in: fixed words, required, optional and
greedy values, and flags.
-/

set_option autoImplicit false

namespace Parlance

/-! ## Bounds -/

/-- The numbers between two ends, both included; a missing end is no bound. -/
structure Bounds where
  least : Option Float := none
  greatest : Option Float := none
  deriving Repr, Inhabited

namespace Bounds

/-- The number is within the bounds. -/
def contains (bounds : Bounds) (x : Float) : Bool :=
  bounds.least.all (fun least => least ≤ x) && bounds.greatest.all (fun greatest => x ≤ greatest)

/-- Two ends, if there are two, are in order. -/
def areOrdered (bounds : Bounds) : Bool :=
  match bounds.least, bounds.greatest with
  | some least, some greatest => least ≤ greatest
  | _, _ => true

/-- The bounds as they are written in messages. -/
def display (bounds : Bounds) : String :=
  let write := Decimal.Layout.plain.write
  match bounds.least, bounds.greatest with
  | some least, some greatest => write least ++ "..=" ++ write greatest
  | some least, none => ">= " ++ write least
  | none, some greatest => "<= " ++ write greatest
  | none, none => "any"

end Bounds

/-! ## Parameters -/

/-- What a parameter matches. -/
inductive Parameter.Kind where
  /-- One word, or one of its aliases. -/
  | literal (aliases : List String)
  /-- A value that must be given. -/
  | required (type : ValueType)
  /-- A value that may be left out. -/
  | optional (type : ValueType) (fallback : Option Fallback)
  /-- All tokens that are left, as one text. -/
  | greedy (fallback : Option Fallback)
  /-- A flag named like the parameter. -/
  | flag (aliases : List String) (type : Option ValueType) (fallback : Option Fallback)
  deriving Inhabited

/-- A named place in a usage. -/
structure Parameter where
  name : String
  kind : Parameter.Kind
  /-- Completions offered before those of the type. -/
  suggestions : List String := []
  /-- Completions for a source and the beginning of a token. -/
  suggester : Option (Source → String → List String) := none
  bounds : Option Bounds := none
  /-- Index among the parameters of the usage that are not flags. -/
  position : Option Nat := none
  deriving Inhabited

namespace Parameter

/-- The parameter of a flag. -/
def ofFlag (flag : Flag) : Parameter where
  name := flag.name
  kind := .flag flag.aliases flag.type flag.fallback

/-- The parameter with one more alias; only words and flags have aliases. -/
def withAlias (p : Parameter) (extra : String) : Parameter :=
  match p.kind with
  | .literal aliases => { p with kind := .literal (aliases ++ [extra]) }
  | .flag aliases type fallback => { p with kind := .flag (aliases ++ [extra]) type fallback }
  | _ => p

/-- The parameter with a fallback; words and required values take none. -/
def withFallback (p : Parameter) (fallback : Fallback) : Parameter :=
  match p.kind with
  | .optional type _ => { p with kind := .optional type fallback }
  | .greedy _ => { p with kind := .greedy fallback }
  | .flag aliases type _ => { p with kind := .flag aliases type fallback }
  | _ => p

/-! ## Kinds -/

/-- A fixed word. -/
def isLiteral (p : Parameter) : Bool :=
  p.kind matches .literal _

/-- Must be filled by a token: a required value or a fixed word. -/
def isRequired (p : Parameter) : Bool :=
  p.kind matches .required _ | .literal _

/-- A value that may be left out. -/
def isOptional (p : Parameter) : Bool :=
  p.kind matches .optional _ _

/-- Takes all tokens that are left. -/
def isGreedy (p : Parameter) : Bool :=
  p.kind matches .greedy _

/-- A flag. -/
def isFlag (p : Parameter) : Bool :=
  p.kind matches .flag _ _ _

/-! ## Views -/

/-- The flag, of a flag's parameter. -/
def flag? (p : Parameter) : Option Flag :=
  match p.kind with
  | .flag aliases type fallback => some { name := p.name, aliases, type, fallback }
  | _ => none

/-- The type of the value; fixed words and switches have none. -/
def type? (p : Parameter) : Option ValueType :=
  match p.kind with
  | .literal _ => none
  | .required type => some type
  | .optional type _ => some type
  | .greedy _ => some .string
  | .flag _ type _ => type

/-- What stands in for a missing value. -/
def fallback? (p : Parameter) : Option Fallback :=
  match p.kind with
  | .optional _ fallback => fallback
  | .greedy fallback => fallback
  | .flag _ _ fallback => fallback
  | _ => none

/-- The word and its aliases, of a fixed word. -/
def literalNames (p : Parameter) : List String :=
  match p.kind with
  | .literal aliases => p.name :: aliases
  | _ => []

/-- The names that the parameter takes up in its usage: all names of a flag,
the name alone of another parameter. -/
def claimedNames (p : Parameter) : List String :=
  match p.kind with
  | .flag aliases _ _ => p.name :: aliases
  | _ => [p.name]

/-! ## Tokens -/

/-- The token could fill the parameter, where `shape` tests the shape of a type
and `exact` says whether letter case counts in fixed words. -/
def acceptsWith (shape : ValueType → String → Bool) (exact : Bool) (p : Parameter)
    (token : String) : Bool :=
  match p.kind with
  | .literal _ => p.literalNames.any fun name => Text.sameWord exact name token
  | .required type => shape type token
  | .optional type _ => shape type token
  | .greedy _ => true
  | .flag _ _ _ => true

/-- The token could fill the parameter by the shape of its type alone. -/
def accepts (p : Parameter) (token : String) (exact : Bool) : Bool :=
  p.acceptsWith ValueType.accepts exact token

/-- Needs a token of its own: a required value, a fixed word, or a greedy
parameter without a fallback. -/
def needsToken (p : Parameter) : Bool :=
  match p.kind with
  | .literal _ => true
  | .required _ => true
  | .optional _ _ => false
  | .greedy fallback => fallback.isNone
  | .flag _ _ _ => false

end Parameter

end Parlance
