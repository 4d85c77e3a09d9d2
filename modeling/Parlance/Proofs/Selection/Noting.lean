import Mathlib.Data.List.MinMax
import Parlance.Proofs.Selection.Asking

/-!
# What a selection notes

A walk notes parameters on its way: those that a usage it tries has served with tokens or
with a fallback for none, and the word of each subcommand that it reaches. What it has
noted in the end is what its candidates have noted, one after the other
(`Matcher.walk_accepted_eq`), and the last match is the first of the deepest
(`deepest_eq_argmax`).
-/

set_option autoImplicit false

namespace Parlance

variable {Act : Type}

/-! ## Usages -/

/-- The tokens that are left for the positional parameters of a usage. -/
def Node.tokensFor (node : Node Act) (usage : Usage Act) (tokens : List String) : List String :=
  (TokenSplit.ofTokens (node.flagsFor usage) tokens).positional

/-- The positional parameters of a usage with their slots. -/
def Node.allotted (node : Node Act) (usage : Usage Act) (tokens : List String) :
    List (Parameter × Slot) :=
  usage.positional.zip (Slot.assign usage.positional (node.tokensFor usage tokens).length).1

namespace Matcher

variable {m : Matcher} {tokens : List String} {pairs : List (Parameter × Slot)} {p : Parameter}
  {slot : Slot}

theorem fit_cons_snd_of_serves (h : m.Serves tokens p slot) :
    (m.fit tokens ((p, slot) :: pairs)).2 =
      (if slot = .skipped then [] else [p]) ++ (m.fit tokens pairs).2 := by
  cases slot with
  | token index =>
    obtain ⟨token, htoken, haccepts⟩ := h
    simp [fit, htoken, haccepts]
  | skipped => simp [fit]
  | greedy start stop =>
    have hserved : ¬ (decide (stop ≤ start) && p.fallback?.isNone) = true := by
      rcases h with hlt | hfallback
      · simp [Nat.not_le.2 hlt]
      · simp [← Option.not_isSome, hfallback]
    simp [fit, hserved]
  | missing => exact h.elim

theorem fit_cons_snd_of_not_serves (h : ¬ m.Serves tokens p slot) :
    (m.fit tokens ((p, slot) :: pairs)).2 = [] := by
  cases slot with
  | token index =>
    have hrejects : ¬ tokens[index]?.any (m.accepts p) = true := by
      intro hany
      obtain ⟨token, htoken, haccepts⟩ := (Option.any_eq_true _ _).1 hany
      exact h ⟨token, htoken, haccepts⟩
    simp [fit, hrejects]
  | skipped => exact (h trivial).elim
  | greedy start stop =>
    simp only [Serves, not_or, Nat.not_lt, Bool.not_eq_true, Option.isSome_eq_false_iff] at h
    simp [fit, h.1, h.2]
  | missing => rfl

/-- A usage notes the parameters that are served with something, up to the first that is
not served. -/
theorem mem_fit_snd_iff : p ∈ (m.fit tokens pairs).2 ↔
    ∃ front slot back, pairs = front ++ (p, slot) :: back ∧
      (∀ pair ∈ front, m.Serves tokens pair.1 pair.2) ∧ m.Serves tokens p slot ∧
      slot ≠ .skipped := by
  induction pairs with
  | nil => simp [fit]
  | cons pair pairs ih =>
    obtain ⟨q, first⟩ := pair
    by_cases hserves : m.Serves tokens q first
    · rw [fit_cons_snd_of_serves hserves, List.mem_append, ih]
      constructor
      · rintro (hhere | ⟨front, slot, back, rfl, hfront, hslot, hskipped⟩)
        · split at hhere
          · cases hhere
          · next hskipped =>
            obtain rfl := List.mem_singleton.1 hhere
            exact ⟨[], first, pairs, rfl, by simp, hserves, hskipped⟩
        · exact ⟨(q, first) :: front, slot, back, rfl,
            List.forall_mem_cons.2 ⟨hserves, hfront⟩, hslot, hskipped⟩
      · rintro ⟨front, slot, back, heq, hfront, hslot, hskipped⟩
        cases front with
        | nil =>
          obtain ⟨hpair, -⟩ := List.cons.inj heq
          obtain ⟨rfl, rfl⟩ := Prod.mk.inj hpair
          exact .inl (by simp [hskipped])
        | cons _ front =>
          obtain ⟨-, heq⟩ := List.cons.inj heq
          exact .inr ⟨front, slot, back, heq, (List.forall_mem_cons.1 hfront).2, hslot, hskipped⟩
    · rw [fit_cons_snd_of_not_serves hserves]
      simp only [List.not_mem_nil, false_iff]
      rintro ⟨front, slot, back, heq, hfront, hslot, -⟩
      cases front with
      | nil =>
        obtain ⟨hpair, -⟩ := List.cons.inj heq
        obtain ⟨rfl, rfl⟩ := Prod.mk.inj hpair
        exact hserves hslot
      | cons _ front =>
        obtain ⟨rfl, -⟩ := List.cons.inj heq
        exact hserves (hfront _ List.mem_cons_self)

end Matcher

/-! ## Walks -/

/-- The parameters that the candidate notes. -/
def Candidate.noted (m : Matcher) (tokens : List String) : Candidate Act → List Parameter
  | .ofUsage node usage => (m.tryUsage node tokens usage).accepted
  | .subcommand node => (m.reach? node tokens).toList

theorem Search.accepted_orElse {α : Type} (first : Search α) (second : Unit → Search α) :
    (first.orElse second).accepted =
      first.accepted ++ if first.found.isSome then [] else (second ()).accepted := by
  unfold Search.orElse
  cases first.found <;> simp

namespace Matcher

variable {m : Matcher} {tokens : List String} {node : Node Act}

theorem tryUsages_accepted_eq (es : List (EffectiveUsage Act)) :
    (m.tryUsages node tokens es).accepted =
      (upToFirst (Candidate.admits m tokens) (node.candidates es)).flatMap
        (Candidate.noted m tokens) := by
  induction es with
  | nil => rfl
  | cons e es ih =>
    rw [tryUsages, Search.accepted_orElse, Node.candidates, List.map_cons, upToFirst,
      List.flatMap_cons, ← Node.candidates, ih]
    congr 1
    cases hfound : (m.tryUsage node tokens e.usage).found.isSome <;>
      simp [Candidate.admits, hfound]

theorem walkAll_accepted_eq {children : List (Node Act)}
    (ih : ∀ child ∈ children, (m.walk tokens child).accepted =
      (m.asked tokens child).flatMap (Candidate.noted m tokens)) :
    (m.walkAll tokens children).accepted =
      (m.askedBelow tokens children).flatMap (Candidate.noted m tokens) := by
  induction children with
  | nil => rfl
  | cons child children ihRest =>
    rw [List.forall_mem_cons] at ih
    rw [walkAll, askedBelow, List.flatMap_cons]
    cases hreach : m.reach? child tokens with
    | none => simp [Candidate.noted, hreach, ihRest ih.2]
    | some literal => simp [Candidate.noted, hreach, ih.1]

/-- A walk notes what the candidates that it asks note. -/
theorem walk_accepted_eq (m : Matcher) (tokens : List String) (node : Node Act) :
    (m.walk tokens node).accepted =
      (m.asked tokens node).flatMap (Candidate.noted m tokens) := by
  induction node using Node.induct with
  | step node ih =>
    have hmap : ∀ es : List (EffectiveUsage Act),
        ((m.tryUsages node tokens es).map (Selection.complete node)).accepted =
          (m.tryUsages node tokens es).accepted := fun _ => rfl
    have hfound : ∀ es : List (EffectiveUsage Act),
        ((m.tryUsages node tokens es).map (Selection.complete node)).found.isSome =
          (m.tryUsages node tokens es).found.isSome := fun _ => Option.isSome_map
    rw [walk_eq, asked_eq, Search.accepted_orElse, Search.accepted_orElse, hmap, hmap, hfound,
      tryUsages_accepted_eq, tryUsages_accepted_eq, walkAll_accepted_eq ih, any_admits_eq,
      any_reach?_eq, List.flatMap_append]
    congr 1
    cases (m.tryUsages node tokens node.literalUsages).found.isSome <;>
      cases (m.walkAll tokens node.children).found.isSome <;> simp

end Matcher

/-! ## The deepest -/

/-- How far behind a parameter stands; one without a position stands in front of all
others. -/
def Parameter.depth (p : Parameter) : Nat :=
  match p.position with
  | none => 0
  | some index => index + 1

theorem Parameter.isBehind_eq (p other : Parameter) :
    p.isBehind other = decide (other.depth < p.depth) := by
  unfold isBehind depth
  cases p.position <;> cases other.position <;> simp

/-- The last match is the first of the deepest parameters. -/
theorem deepest_eq_argmax (ps : List Parameter) : deepest ps = ps.argmax Parameter.depth := by
  have hargmax : ps.argmax Parameter.depth =
      ps.foldl (List.argAux fun b c => c.depth < b.depth) none := rfl
  rw [hargmax]
  refine congrArg (fun step => ps.foldl step none) ?_
  funext best p
  cases best with
  | none => rfl
  | some b => simp [List.argAux, Parameter.isBehind_eq]

/-- Where the last match has no position, nothing was noted before it. -/
theorem head?_of_deepest {ps : List Parameter} {p : Parameter} (h : deepest ps = some p)
    (hdepth : p.depth = 0) : ps.head? = some p := by
  rw [deepest_eq_argmax] at h
  cases ps with
  | nil => cases h
  | cons q qs =>
    rw [List.argmax_cons] at h
    cases hlater : qs.argmax Parameter.depth with
    | none =>
      rw [hlater] at h
      exact h
    | some c =>
      rw [hlater] at h
      simp only at h
      split at h
      · next hlt =>
        obtain rfl := Option.some.inj h
        omega
      · exact h

end Parlance
