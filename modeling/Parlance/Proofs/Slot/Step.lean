import Parlance.Proofs.Slot.Kinds

/-!
# One slot after the other

What a parameter can get, when the tokens in front of it are taken: a greedy one
all that remain, another one the next token or none. `Slot.Gives` lists the cases
once, for every induction over the parameters of a usage.
-/

set_option autoImplicit false

namespace Parlance.Slot

/-- With the tokens before `cursor` taken, out of `count`, the parameter in front of
`ps` gets the slot, and the tokens before the last index are taken then. -/
inductive Gives (count cursor : Nat) (p : Parameter) (ps : List Parameter) : Slot → Nat → Prop where
  | greedy (hgreedy : p.isGreedy = true) :
      Gives count cursor p ps (.greedy cursor (max count cursor)) (max count cursor)
  | token (hgreedy : p.isGreedy = false) (hcursor : cursor < count)
      (hspare : p.isOptional = true → ps.countP Parameter.needsToken < count - cursor) :
      Gives count cursor p ps (.token cursor) (cursor + 1)
  | skipped (hoptional : p.isOptional = true)
      (hspare : count - cursor ≤ ps.countP Parameter.needsToken) :
      Gives count cursor p ps .skipped cursor
  | missing (hgreedy : p.isGreedy = false) (hoptional : p.isOptional = false)
      (hcursor : count ≤ cursor) : Gives count cursor p ps .missing cursor

/-- Parameters get their slots one after the other. -/
theorem exists_gives (count cursor : Nat) (p : Parameter) (ps : List Parameter) :
    ∃ slot next, Gives count cursor p ps slot next ∧
      assignFrom count cursor (p :: ps) =
        (slot :: (assignFrom count next ps).1, (assignFrom count next ps).2) := by
  rw [assignFrom]
  cases hkind : p.kind with
  | greedy fallback =>
    have hgreedy : p.isGreedy = true := by simp [Parameter.isGreedy, hkind]
    exact ⟨_, _, .greedy hgreedy, rfl⟩
  | optional type fallback =>
    have hgreedy : p.isGreedy = false := by simp [Parameter.isGreedy, hkind]
    have hoptional : p.isOptional = true := by simp [Parameter.isOptional, hkind]
    by_cases hspare : ps.countP Parameter.needsToken < count - cursor
    · have hcursor : cursor < count := by omega
      exact ⟨_, _, .token hgreedy hcursor fun _ => hspare, by simp [hspare]⟩
    · exact ⟨_, _, .skipped hoptional (Nat.le_of_not_lt hspare), by simp [hspare]⟩
  | literal | required | flag =>
    have hgreedy : p.isGreedy = false := by simp [Parameter.isGreedy, hkind]
    have hoptional : p.isOptional = false := by simp [Parameter.isOptional, hkind]
    by_cases hcursor : cursor < count
    · have hspare : p.isOptional = true → ps.countP Parameter.needsToken < count - cursor := by
        simp [hoptional]
      exact ⟨_, _, .token hgreedy hcursor hspare, by simp [hcursor]⟩
    · exact ⟨_, _, .missing hgreedy hoptional (Nat.le_of_not_lt hcursor), by simp [hcursor]⟩

/-- A parameter that must be given takes the next token, if there is one. -/
theorem assignFrom_cons_of_isRequired {p : Parameter} (hp : p.isRequired = true)
    {count cursor : Nat} (hcursor : cursor < count) (ps : List Parameter) :
    assignFrom count cursor (p :: ps) =
      (token cursor :: (assignFrom count (cursor + 1) ps).1,
        (assignFrom count (cursor + 1) ps).2) := by
  have hsingle : p.IsSingle := .inr hp
  obtain ⟨slot, next, hgives, hassign⟩ := exists_gives count cursor p ps
  rw [hassign]
  cases hgives with
  | greedy hgreedy =>
    rw [hsingle.isGreedy_eq_false] at hgreedy
    cases hgreedy
  | token => rfl
  | skipped hoptional =>
    rw [Parameter.isOptional_of_isRequired hp] at hoptional
    cases hoptional
  | missing hgreedy hoptional hle => omega

/-- All but the last entry pass a test if and only if the first one does, when there are
others, and all but the last of these do. -/
theorem forall_dropLast_cons_iff {α : Type} {holds : α → Prop} {x : α} {xs : List α} :
    (∀ y ∈ (x :: xs).dropLast, holds y) ↔ (xs ≠ [] → holds x) ∧ ∀ y ∈ xs.dropLast, holds y := by
  cases xs with
  | nil => simp
  | cons y ys => simp

theorem eq_nil_of_greedy {p : Parameter} {ps : List Parameter}
    (hlast : ps ≠ [] → p.isGreedy = false) (hp : p.isGreedy = true) :
    ps = [] := by
  cases ps with
  | nil => rfl
  | cons first ps =>
    rw [hlast (List.cons_ne_nil first ps)] at hp
    cases hp

/-- The token of this index goes to the slot. -/
def holds (k : Nat) : Slot → Bool
  | token index => index == k
  | greedy start stop => start ≤ k && k < stop
  | skipped => false
  | missing => false

end Parlance.Slot
