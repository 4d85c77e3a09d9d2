import Parlance.Parameter

/-!
# Slots

Which tokens go to which parameters, decided by their number alone. An
optional parameter takes a token only if enough remain for all later
parameters that need one, so later tokens fill the needy parameters first.
-/

set_option autoImplicit false

namespace Parlance

/-- Where a positional parameter gets its value. -/
inductive Slot where
  /-- The positional token of this index. -/
  | token (index : Nat)
  /-- Nothing: an optional parameter left to its fallback. -/
  | skipped
  /-- The positional tokens from `start` up to but without `stop`. -/
  | greedy (start stop : Nat)
  /-- Nothing, though a token is needed. -/
  | missing
  deriving DecidableEq, Repr, Inhabited

namespace Slot

/-- Slots for parameters when the tokens before `cursor` are taken, out of
`count`; and the number of tokens taken in the end. -/
def assignFrom (count cursor : Nat) : List Parameter → List Slot × Nat
  | [] => ([], cursor)
  | p :: ps =>
    let (slot, next) :=
      match p.kind with
      | .greedy _ => (greedy cursor (max count cursor), max count cursor)
      | .optional _ _ =>
        if ps.countP Parameter.needsToken < count - cursor then (token cursor, cursor + 1)
        else (skipped, cursor)
      | _ => if cursor < count then (token cursor, cursor + 1) else (missing, cursor)
    let (slots, taken) := assignFrom count next ps
    (slot :: slots, taken)

/-- Slots for positional parameters and `count` tokens, and the number of
tokens taken. -/
def assign (params : List Parameter) (count : Nat) : List Slot × Nat :=
  assignFrom count 0 params

end Slot

end Parlance
