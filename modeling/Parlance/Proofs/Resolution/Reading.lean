import Parlance.Proofs.TokenSplit.Parts
import Parlance.Resolution

/-!
# What resolving reads of the tokens

Resolving a usage looks at the positional tokens and at the last occurrence of each
flag in effect. Token lists that read alike resolve alike.
-/

set_option autoImplicit false

namespace Parlance.Matcher

variable {Act : Type} {m : Matcher} {source : Source}

theorem flagValue_congr {a b : TokenSplit} (h : a.ReadsAs b) (flag : Flag) :
    m.flagValue source a flag = m.flagValue source b flag := by
  rw [flagValue, flagValue, h.values flag.name]

theorem fillFlags_congr {a b : TokenSplit} (h : a.ReadsAs b) (flags : List Flag)
    (arguments : Arguments) :
    m.fillFlags source a arguments flags = m.fillFlags source b arguments flags := by
  induction flags generalizing arguments with
  | nil => rfl
  | cons flag flags ih =>
    rw [fillFlags, fillFlags, flagValue_congr h]
    simp only [ih]

/-- Tokens whose splits read alike resolve alike. -/
theorem resolve_congr {node : Node Act} {usage : Usage Act} {tokens other : List String}
    (h : (TokenSplit.ofTokens (node.flagsFor usage) tokens).ReadsAs
      (TokenSplit.ofTokens (node.flagsFor usage) other)) (trailing : Trailing) :
    m.resolve source node usage tokens trailing = m.resolve source node usage other trailing := by
  simp only [resolve, h.positional, fillFlags_congr h]

end Parlance.Matcher
