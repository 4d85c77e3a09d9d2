import Parlance.Flag

/-!
# Splitting tokens

The tokens of a command taken apart into flags, their values, and the
positional tokens that remain. A token behind dashes that names no known flag
is positional, so a negative number reaches its parameter.
-/

set_option autoImplicit false

namespace Parlance

/-! ## Flag tokens -/

/-- The word behind one dash or two, if there is one. -/
def flagWord? (token : String) : Option String :=
  match token.toList with
  | ['-', '-'] => none
  | '-' :: '-' :: cs => some (String.ofList cs)
  | ['-'] => none
  | '-' :: cs => some (String.ofList cs)
  | _ => none

/-- The first of the flags that the token names. -/
def matchFlag? (flags : List Flag) (token : String) : Option Flag :=
  (flagWord? token).bind fun word => flags.find? fun flag => flag.isNamed word

/-! ## Splitting -/

/-- What an occurrence of a flag carries. -/
inductive FlagValue where
  /-- A switch. -/
  | present
  /-- The token behind a flag that takes a value. -/
  | raw (token : String)
  /-- No usable token behind a flag that takes a value. -/
  | missing
  deriving DecidableEq, Repr, Inhabited

/-- One occurrence of a flag. -/
structure FlagHit where
  flag : Flag
  /-- Index of the flag's token. -/
  index : Nat
  value : FlagValue
  deriving Inhabited

/-- Tokens taken apart, both lists in the order of the tokens. -/
structure TokenSplit where
  positional : List String := []
  hits : List FlagHit := []
  deriving Inhabited

namespace TokenSplit

/-- The split with one more positional token in front. -/
def addPositional (token : String) (split : TokenSplit) : TokenSplit :=
  { split with positional := token :: split.positional }

/-- The split with one more occurrence in front. -/
def addHit (flag : Flag) (index : Nat) (value : FlagValue) (split : TokenSplit) : TokenSplit :=
  { split with hits := ⟨flag, index, value⟩ :: split.hits }

/-- Splits tokens of which the first has the given index. A flag that takes a
value takes the next token, unless that names a flag itself. -/
def splitFrom (flags : List Flag) (index : Nat) : List String → TokenSplit
  | [] => {}
  | token :: tokens =>
    match matchFlag? flags token with
    | none => (splitFrom flags (index + 1) tokens).addPositional token
    | some flag =>
      if flag.isSwitch then (splitFrom flags (index + 1) tokens).addHit flag index .present
      else
        match tokens with
        | [] => TokenSplit.addHit flag index .missing {}
        | next :: rest =>
          if (matchFlag? flags next).isSome then
            (splitFrom flags (index + 1) (next :: rest)).addHit flag index .missing
          else (splitFrom flags (index + 2) rest).addHit flag index (.raw next)

/-- Takes all tokens apart. -/
def ofTokens (flags : List Flag) (tokens : List String) : TokenSplit :=
  splitFrom flags 0 tokens

/-- The last occurrence of the flag of a name. -/
def hit? (split : TokenSplit) (name : String) : Option FlagHit :=
  (split.hits.filter fun hit => hit.flag.name == name).getLast?

end TokenSplit

end Parlance
