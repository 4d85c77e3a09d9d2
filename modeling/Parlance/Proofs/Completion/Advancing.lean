import Parlance.Completion

/-!
# Tokens one by one

Completion reads tokens from the left and follows every way to give them to
parameters at once. `Matcher.Consumes` is one such way: each token goes to a
parameter that accepts it, and only optional parameters are passed over. The
indices that completion keeps are exactly those that some way leads to
(`Completion.mem_advance_iff`).
-/

set_option autoImplicit false

namespace Parlance

/-! ## One way -/

/-- The token goes to one of the parameters, and those behind it are left; a greedy
one is left itself, for it takes further tokens. -/
inductive Matcher.Takes (m : Matcher) (token : String) :
    List Parameter → List Parameter → Prop where
  | here {p : Parameter} {ps : List Parameter} (haccepts : m.accepts p token = true) :
      Takes m token (p :: ps) (if p.isGreedy then p :: ps else ps)
  | pass {p : Parameter} {ps left : List Parameter} (hoptional : p.isOptional = true)
      (hlater : Takes m token ps left) : Takes m token (p :: ps) left

/-- The tokens go to parameters one after the other, and those parameters are left
that may take the next one. -/
inductive Matcher.Consumes (m : Matcher) :
    List String → List Parameter → List Parameter → Prop where
  | done (ps : List Parameter) : Consumes m [] ps ps
  | next {token : String} {tokens : List String} {ps between left : List Parameter}
      (htakes : m.Takes token ps between) (hrest : Consumes m tokens between left) :
      Consumes m (token :: tokens) ps left

namespace Matcher

variable {m : Matcher} {token : String} {tokens : List String} {p : Parameter}
  {ps left : List Parameter}

theorem Takes.here_of_not_greedy (hgreedy : p.isGreedy = false)
    (haccepts : m.accepts p token = true) : m.Takes token (p :: ps) ps := by
  have htakes : m.Takes token (p :: ps) (if p.isGreedy then p :: ps else ps) := .here haccepts
  rwa [hgreedy, if_neg Bool.false_ne_true] at htakes

theorem Takes.here_of_greedy (hgreedy : p.isGreedy = true) :
    m.Takes token (p :: ps) (p :: ps) := by
  have haccepts : m.accepts p token = true := by
    unfold Parameter.isGreedy at hgreedy
    unfold Matcher.accepts Parameter.acceptsWith
    split at hgreedy <;> simp_all
  have htakes : m.Takes token (p :: ps) (if p.isGreedy then p :: ps else ps) := .here haccepts
  rwa [hgreedy, if_pos rfl] at htakes

/-- A greedy parameter takes any row of tokens. -/
theorem Consumes.of_greedy (hgreedy : p.isGreedy = true) (tokens : List String) :
    m.Consumes tokens (p :: ps) (p :: ps) := by
  induction tokens with
  | nil => exact .done _
  | cons token tokens ih => exact .next (.here_of_greedy hgreedy) ih

/-- The last token goes to what the tokens in front of it leave. -/
theorem consumes_concat_iff : m.Consumes (tokens ++ [token]) ps left ↔
    ∃ between, m.Consumes tokens ps between ∧ m.Takes token between left := by
  induction tokens generalizing ps with
  | nil =>
    constructor
    · intro h
      cases h with
      | next htakes hrest =>
        cases hrest
        exact ⟨ps, .done ps, htakes⟩
    · rintro ⟨between, hconsumes, htakes⟩
      cases hconsumes
      exact .next htakes (.done left)
  | cons first tokens ih =>
    constructor
    · intro h
      cases h with
      | next htakes hrest =>
        obtain ⟨between, hconsumes, hlast⟩ := ih.1 hrest
        exact ⟨between, .next htakes hconsumes, hlast⟩
    · rintro ⟨between, hconsumes, hlast⟩
      cases hconsumes with
      | next htakes hrest => exact .next htakes (ih.2 ⟨between, hrest, hlast⟩)

end Matcher

namespace Completion

variable {m : Matcher} {token : String} {tokens : List String} {params : List Parameter}

/-! ## All ways at once -/

theorem exists_takes_of_mem_stepFrom {index i : Nat} {ps : List Parameter}
    (h : i ∈ stepFrom m token index ps) :
    ∃ k ≤ ps.length, i = index + k ∧ m.Takes token ps (ps.drop k) := by
  induction ps generalizing index with
  | nil => exact absurd h List.not_mem_nil
  | cons p ps ih =>
    rw [stepFrom, List.mem_append] at h
    rcases h with hhere | hlater
    · split at hhere
      · next haccepts =>
        rw [List.mem_singleton] at hhere
        cases hgreedy : p.isGreedy with
        | true =>
          rw [hgreedy, if_pos rfl] at hhere
          exact ⟨0, Nat.zero_le _, hhere, .here_of_greedy hgreedy⟩
        | false =>
          rw [hgreedy, if_neg Bool.false_ne_true] at hhere
          exact ⟨1, by simp, hhere, .here_of_not_greedy hgreedy haccepts⟩
      · exact absurd hhere List.not_mem_nil
    · split at hlater
      · next hoptional =>
        obtain ⟨k, hk, rfl, htakes⟩ := ih hlater
        exact ⟨k + 1, Nat.succ_le_succ hk, by omega, .pass hoptional htakes⟩
      · exact absurd hlater List.not_mem_nil

theorem exists_mem_stepFrom_of_takes {ps left : List Parameter} (h : m.Takes token ps left)
    (index : Nat) : ∃ k ≤ ps.length, left = ps.drop k ∧ index + k ∈ stepFrom m token index ps := by
  induction h generalizing index with
  | @here p ps haccepts =>
    rw [stepFrom, if_pos haccepts]
    cases p.isGreedy with
    | true => exact ⟨0, Nat.zero_le _, rfl, by simp⟩
    | false => exact ⟨1, by simp, rfl, by simp⟩
  | @pass p ps left hoptional hlater ih =>
    obtain ⟨k, hk, rfl, hmem⟩ := ih (index + 1)
    have hindex : index + (k + 1) = index + 1 + k := by omega
    refine ⟨k + 1, Nat.succ_le_succ hk, rfl, ?_⟩
    rw [stepFrom, hoptional, if_pos rfl, hindex]
    exact List.mem_append_right _ hmem

theorem mem_step_iff {current : List Nat} {j : Nat} : j ∈ step m params token current ↔
    j ≤ params.length ∧ ∃ i ∈ current, j ∈ stepFrom m token i (params.drop i) := by
  rw [step, List.mem_filter, List.mem_range, Nat.lt_succ_iff, List.contains_iff_mem,
    List.mem_flatMap]

/-- Every index that is kept behind the tokens is reached in some way from one that
was kept in front of them. -/
theorem exists_consumes_of_mem_foldl {current : List Nat} {j : Nat}
    (hcurrent : ∀ i ∈ current, i ≤ params.length)
    (h : j ∈ tokens.foldl (fun current token => step m params token current) current) :
    j ≤ params.length ∧ ∃ i ∈ current, m.Consumes tokens (params.drop i) (params.drop j) := by
  induction tokens generalizing current with
  | nil => exact ⟨hcurrent j h, j, h, .done _⟩
  | cons token tokens ih =>
    rw [List.foldl_cons] at h
    obtain ⟨hj, between, hbetween, hrest⟩ := ih (fun i hi => (mem_step_iff.1 hi).1) h
    obtain ⟨-, i, hi, hmem⟩ := mem_step_iff.1 hbetween
    obtain ⟨k, -, rfl, htakes⟩ := exists_takes_of_mem_stepFrom hmem
    rw [List.drop_drop] at htakes
    exact ⟨hj, i, hi, .next htakes hrest⟩

/-- Every way from an index that is kept leads to one that is kept. -/
theorem exists_mem_foldl_of_consumes {current : List Nat} {i : Nat} {left : List Parameter}
    (hi : i ∈ current) (hlength : i ≤ params.length)
    (h : m.Consumes tokens (params.drop i) left) :
    ∃ j ≤ params.length, left = params.drop j ∧
      j ∈ tokens.foldl (fun current token => step m params token current) current := by
  generalize hfrom : params.drop i = ps at h
  induction h generalizing current i with
  | done ps => exact ⟨i, hlength, hfrom.symm, hi⟩
  | @next token tokens ps between left htakes hrest ih =>
    obtain ⟨k, hk, rfl, hmem⟩ := exists_mem_stepFrom_of_takes htakes i
    rw [← hfrom, List.length_drop] at hk
    have hbound : i + k ≤ params.length := by omega
    refine ih (mem_step_iff.2 ⟨hbound, i, hi, ?_⟩) hbound ?_
    · rwa [hfrom]
    · rw [← hfrom, List.drop_drop]

/-- Two places in a list are the same if the same stands behind them. -/
theorem eq_of_drop_eq {i j : Nat} {ps : List Parameter} (hi : i ≤ ps.length) (hj : j ≤ ps.length)
    (h : ps.drop i = ps.drop j) : i = j := by
  have hlength := congrArg List.length h
  rw [List.length_drop, List.length_drop] at hlength
  omega

/-- What some way leaves stands behind an index that is kept. -/
theorem exists_mem_advance_of_consumes {left : List Parameter} (h : m.Consumes tokens params left) :
    ∃ j ≤ params.length, left = params.drop j ∧ j ∈ advance m params tokens :=
  exists_mem_foldl_of_consumes (List.mem_singleton_self 0) (Nat.zero_le params.length) h

/-- The indices kept behind tokens are those in front of what some way leaves. -/
theorem mem_advance_iff {j : Nat} : j ∈ advance m params tokens ↔
    j ≤ params.length ∧ m.Consumes tokens params (params.drop j) := by
  constructor
  · intro h
    rw [advance] at h
    obtain ⟨hj, i, hi, hconsumes⟩ := exists_consumes_of_mem_foldl (by simp) h
    rw [List.mem_singleton.1 hi, List.drop_zero] at hconsumes
    exact ⟨hj, hconsumes⟩
  · rintro ⟨hj, hconsumes⟩
    obtain ⟨i, hi, hdrop, hmem⟩ := exists_mem_advance_of_consumes hconsumes
    rwa [eq_of_drop_eq hj hi hdrop]

end Completion

end Parlance
