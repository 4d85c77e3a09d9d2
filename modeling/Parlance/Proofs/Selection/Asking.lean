import Parlance.Proofs.Command.Path
import Parlance.Proofs.Selection.Finding

/-!
# What a selection asks

On its way a walk asks one candidate after the other whether the tokens fit it:
usages, and subcommands that the tokens may reach. What it finds is told by these
answers alone (`Matcher.walk_found_congr`), and in a sound tree it tells them
(`Matcher.admits_eq_of_walk_found_eq`).
-/

set_option autoImplicit false

namespace Parlance

variable {Act : Type}

/-! ## Candidates -/

/-- What a walk asks whether tokens fit it. -/
inductive Candidate (Act : Type) where
  /-- A usage of a node. -/
  | ofUsage (node : Node Act) (usage : Usage Act)
  /-- A node that the tokens may reach. -/
  | subcommand (node : Node Act)

namespace Candidate

/-- The flags that the candidate takes the tokens apart by. -/
def flags : Candidate Act → List Flag
  | .ofUsage node usage => node.flagsFor usage
  | .subcommand node => node.flagsOnPath

/-- The tokens fit the candidate. -/
def admits (m : Matcher) (tokens : List String) : Candidate Act → Bool
  | .ofUsage node usage => (m.tryUsage node tokens usage).found.isSome
  | .subcommand node => (m.reach? node tokens).isSome

/-- A candidate looks at the positional tokens that its own flags leave. -/
theorem admits_congr {m : Matcher} {tokens other : List String} {candidate : Candidate Act}
    (h : (TokenSplit.ofTokens candidate.flags tokens).positional =
      (TokenSplit.ofTokens candidate.flags other).positional) :
    candidate.admits m tokens = candidate.admits m other := by
  cases candidate with
  | ofUsage node usage =>
    rw [flags] at h
    simp only [admits, Matcher.tryUsage, h]
  | subcommand node =>
    rw [flags] at h
    simp only [admits, Matcher.reach?, h]

end Candidate

/-- The members of a list up to the first that satisfies the test. -/
def upToFirst {α : Type} (test : α → Bool) : List α → List α
  | [] => []
  | x :: xs => x :: if test x then [] else upToFirst test xs

section UpToFirst

variable {α : Type} {test other : α → Bool} {xs : List α}

/-- Two tests that agree up to the first hit have the same first hit. -/
theorem find?_congr_of_upToFirst (h : ∀ x ∈ upToFirst test xs, other x = test x) :
    xs.find? other = xs.find? test := by
  induction xs with
  | nil => rfl
  | cons x xs ih =>
    rw [upToFirst, List.forall_mem_cons] at h
    rw [List.find?_cons, List.find?_cons, h.1]
    cases htest : test x with
    | true => rfl
    | false =>
      rw [htest] at h
      exact ih h.2

/-- Two tests that have the same first hit agree up to it. -/
theorem eq_of_mem_upToFirst (h : xs.find? other = xs.find? test) :
    ∀ x ∈ upToFirst test xs, other x = test x := by
  induction xs with
  | nil => simp [upToFirst]
  | cons x xs ih =>
    rw [List.find?_cons, List.find?_cons] at h
    rw [upToFirst, List.forall_mem_cons]
    cases htest : test x with
    | true =>
      rw [htest] at h
      refine ⟨?_, by simp⟩
      cases hother : other x with
      | true => rfl
      | false =>
        -- A later hit of the other test would be `x` once more.
        rw [hother] at h
        have hlater := List.find?_some h
        rw [hother] at hlater
        exact hlater
    | false =>
      rw [htest] at h
      cases hother : other x with
      | true =>
        rw [hother] at h
        have hlater := List.find?_some h.symm
        rw [htest] at hlater
        exact absurd hlater Bool.false_ne_true
      | false =>
        rw [hother] at h
        exact ⟨rfl, ih h⟩

end UpToFirst

/-! ## Candidates of a walk -/

/-- The usages as candidates of the node. -/
def Node.candidates (node : Node Act) (es : List (EffectiveUsage Act)) : List (Candidate Act) :=
  es.map fun e => .ofUsage node e.usage

mutual

/-- The candidates that a walk asks at a node and below, in their order. -/
def Matcher.asked (m : Matcher) (tokens : List String) : Node Act → List (Candidate Act)
  | ⟨d, path, lead, scopeFlags, effective, effectiveDefault, children⟩ =>
    let node : Node Act := ⟨d, path, lead, scopeFlags, effective, effectiveDefault, children⟩
    let own := node.candidates node.literalUsages
    let others := node.candidates node.valueUsages
    upToFirst (Candidate.admits m tokens) own ++
      if own.any (Candidate.admits m tokens) then []
      else m.askedBelow tokens children ++
        if children.any fun child => (m.reach? child tokens).isSome then []
        else upToFirst (Candidate.admits m tokens) others

/-- The candidates that a walk asks among subcommands. -/
def Matcher.askedBelow (m : Matcher) (tokens : List String) :
    List (Node Act) → List (Candidate Act)
  | [] => []
  | child :: children =>
    .subcommand child ::
      if (m.reach? child tokens).isSome then m.asked tokens child
      else m.askedBelow tokens children

end

namespace Matcher

variable {m : Matcher} {tokens other : List String} {node : Node Act}

theorem asked_eq (node : Node Act) : m.asked tokens node =
    upToFirst (Candidate.admits m tokens) (node.candidates node.literalUsages) ++
      if (node.candidates node.literalUsages).any (Candidate.admits m tokens) then []
      else m.askedBelow tokens node.children ++
        if node.children.any fun child => (m.reach? child tokens).isSome then []
        else upToFirst (Candidate.admits m tokens) (node.candidates node.valueUsages) := by
  cases node
  rw [asked]

/-- Among usages a walk finds the first that admits the tokens. -/
theorem map_tryUsages_found (m : Matcher) (tokens : List String) (node : Node Act)
    (es : List (EffectiveUsage Act)) :
    (m.tryUsages node tokens es).found.map (Candidate.ofUsage node) =
      (node.candidates es).find? (Candidate.admits m tokens) := by
  induction es with
  | nil => rfl
  | cons e es ih =>
    rw [tryUsages, Search.found_orElse, Node.candidates, List.map_cons, List.find?_cons,
      ← Node.candidates, ← ih]
    cases hfound : (m.tryUsage node tokens e.usage).found with
    | none => simp [Candidate.admits, hfound]
    | some usage =>
      obtain ⟨rfl, -⟩ := m.tryUsage_found_iff.1 hfound
      simp [Candidate.admits, hfound]

theorem tryUsages_found_eq_iff {es : List (EffectiveUsage Act)} :
    (m.tryUsages node other es).found = (m.tryUsages node tokens es).found ↔
      (node.candidates es).find? (Candidate.admits m other) =
        (node.candidates es).find? (Candidate.admits m tokens) := by
  rw [← map_tryUsages_found, ← map_tryUsages_found]
  refine ⟨fun h => by rw [h], fun h => ?_⟩
  exact Option.map_injective (fun _ _ heq => (Candidate.ofUsage.inj heq).2) h

/-- Among subcommands a walk goes into the first that is reached. -/
theorem walkAll_found_eq (children : List (Node Act)) : (m.walkAll tokens children).found =
    (children.find? fun child => (m.reach? child tokens).isSome).map fun child =>
      (m.walk tokens child).found.getD (.incomplete child) := by
  induction children with
  | nil => rfl
  | cons child children ih =>
    rw [walkAll, List.find?_cons]
    cases m.reach? child tokens with
    | none => exact ih
    | some literal => rfl

/-- What a walk finds, told by the first hits among its candidates. -/
theorem walk_found_eq (m : Matcher) (tokens : List String) (node : Node Act) :
    (m.walk tokens node).found =
    ((m.tryUsages node tokens node.literalUsages).found.map (.complete node)).or
      ((m.walkAll tokens node.children).found.or
        ((m.tryUsages node tokens node.valueUsages).found.map (.complete node))) := by
  rw [walk_eq, Search.found_orElse, Search.found_orElse]
  rfl

theorem any_admits_eq (es : List (EffectiveUsage Act)) :
    (node.candidates es).any (Candidate.admits m tokens) =
      (m.tryUsages node tokens es).found.isSome := by
  rw [← List.isSome_find?, ← map_tryUsages_found, Option.isSome_map]

theorem any_reach?_eq (children : List (Node Act)) :
    (children.any fun child => (m.reach? child tokens).isSome) =
      (m.walkAll tokens children).found.isSome := by
  rw [walkAll_found_eq, Option.isSome_map, List.isSome_find?]

/-- A walk through subcommands is told by the answers of those that it asks and of
what it asks below the one that it goes into. -/
theorem walkAll_found_congr {children : List (Node Act)}
    (ih : ∀ child ∈ children,
      (∀ candidate ∈ m.asked tokens child, candidate.admits m other = candidate.admits m tokens) →
      (m.walk other child).found = (m.walk tokens child).found)
    (h : ∀ candidate ∈ m.askedBelow tokens children,
      candidate.admits m other = candidate.admits m tokens) :
    (m.walkAll other children).found = (m.walkAll tokens children).found := by
  induction children with
  | nil => rfl
  | cons child children ihRest =>
    rw [List.forall_mem_cons] at ih
    rw [askedBelow, List.forall_mem_cons] at h
    have hchild : (m.reach? child other).isSome = (m.reach? child tokens).isSome := h.1
    rw [walkAll_found_eq, walkAll_found_eq, List.find?_cons, List.find?_cons, hchild]
    cases hreach : (m.reach? child tokens).isSome with
    | true =>
      rw [hreach, if_pos rfl] at h
      simp only [Option.map_some, ih.1 h.2]
    | false =>
      rw [hreach, if_neg Bool.false_ne_true] at h
      have hrest := ihRest ih.2 h.2
      rwa [walkAll_found_eq, walkAll_found_eq] at hrest

/-- What a walk finds is told by the answers of the candidates that it asks. -/
theorem walk_found_congr {node : Node Act} (h : ∀ candidate ∈ m.asked tokens node,
      candidate.admits m other = candidate.admits m tokens) :
    (m.walk other node).found = (m.walk tokens node).found := by
  induction node using Node.induct with
  | step node ih =>
    rw [asked_eq, List.forall_mem_append] at h
    have hown := tryUsages_found_eq_iff.2 (find?_congr_of_upToFirst h.1)
    rw [walk_found_eq, walk_found_eq, hown]
    cases hfound : (m.tryUsages node tokens node.literalUsages).found with
    | some usage => rfl
    | none =>
      -- No usage with words of its own fits, so the subcommands are asked.
      have hbelow := h.2
      rw [any_admits_eq, hfound, Option.isSome_none, if_neg Bool.false_ne_true,
        List.forall_mem_append] at hbelow
      have hchildren := walkAll_found_congr ih hbelow.1
      rw [hchildren]
      cases hreached : (m.walkAll tokens node.children).found with
      | some selection => rfl
      | none =>
        have hothers := hbelow.2
        rw [any_reach?_eq, hreached, Option.isSome_none, if_neg Bool.false_ne_true] at hothers
        rw [tryUsages_found_eq_iff.2 (find?_congr_of_upToFirst hothers)]

/-! ## Answers told by what is found -/

/-- A usage that tokens match is found among others, or one in front of it is. -/
theorem tryUsages_found_ne_none {es : List (EffectiveUsage Act)} {e : EffectiveUsage Act}
    (he : e ∈ es) (hmatches : m.Matches node tokens e.usage) :
    (m.tryUsages node tokens es).found ≠ none := by
  intro hnone
  have hfind := map_tryUsages_found m tokens node es
  rw [hnone, Option.map_none, eq_comm, List.find?_eq_none] at hfind
  refine hfind (.ofUsage node e.usage) (List.mem_map_of_mem he) ?_
  rw [Candidate.admits, m.tryUsage_found_iff.2 ⟨rfl, hmatches⟩, Option.isSome_some]

/-- What a walk finds through subcommands stands below one of them. -/
theorem exists_descent_of_walkAll_found {children : List (Node Act)} {selection : Selection Act}
    (h : (m.walkAll tokens children).found = some selection) :
    ∃ child ∈ children, ∃ trail, child.Descent trail selection.node := by
  obtain ⟨child, hchild, literal, -, rfl⟩ := exists_of_walkAll_found h
  cases hbelow : (m.walk tokens child).found with
  | none => exact ⟨child, hchild, [], .here child⟩
  | some found => exact ⟨child, hchild, (finds_of_walk_found hbelow).exists_descent⟩

theorem node_ne_of_walkAll_found {selection : Selection Act}
    (h : (m.walkAll tokens node.children).found = some selection) : selection.node ≠ node := by
  obtain ⟨child, hchild, trail, hdescent⟩ := exists_descent_of_walkAll_found h
  exact hdescent.ne_parent hchild

/-- If two token lists find the same, and one of them a usage with words of its own
at the node, then so does the other. -/
theorem literalUsages_found_of_walk_found_eq {usage : Usage Act}
    (h : (m.walk other node).found = (m.walk tokens node).found)
    (hfound : (m.tryUsages node tokens node.literalUsages).found = some usage) :
    (m.tryUsages node other node.literalUsages).found = some usage := by
  rw [walk_found_eq m other, walk_found_eq m tokens, hfound, Option.map_some,
    Option.some_or] at h
  cases hown : (m.tryUsages node other node.literalUsages).found with
  | some found =>
    rw [hown, Option.map_some, Option.some_or, Option.some.injEq] at h
    rw [(Selection.complete.inj h).2]
  | none =>
    rw [hown, Option.map_none, Option.none_or, Option.or_eq_some_iff] at h
    rcases h with h | ⟨-, h⟩
    · exact (node_ne_of_walkAll_found h rfl).elim
    · -- The usage would match as one without words of its own, too.
      obtain ⟨found, hvalue, heq⟩ := Option.map_eq_some_iff.1 h
      obtain rfl := (Selection.complete.inj heq).2
      obtain ⟨-, -, -, hmatches⟩ := m.exists_of_tryUsages_found hvalue
      obtain ⟨e, he, rfl, -⟩ := m.exists_of_tryUsages_found hfound
      exact absurd hown (tryUsages_found_ne_none he hmatches)

theorem literalUsages_found_eq (h : (m.walk other node).found = (m.walk tokens node).found) :
    (m.tryUsages node other node.literalUsages).found =
      (m.tryUsages node tokens node.literalUsages).found := by
  refine Option.ext fun usage => ⟨fun hfound => ?_, fun hfound => ?_⟩
  · exact literalUsages_found_of_walk_found_eq h.symm hfound
  · exact literalUsages_found_of_walk_found_eq h hfound

/-- If two token lists find the same, and one of them finds it through the
subcommands of the node, then so does the other. -/
theorem walkAll_found_of_walk_found_eq {selection : Selection Act}
    (h : (m.walk other node).found = (m.walk tokens node).found)
    (hnone : (m.tryUsages node tokens node.literalUsages).found = none)
    (hfound : (m.walkAll tokens node.children).found = some selection) :
    (m.walkAll other node.children).found = some selection := by
  have hown := (literalUsages_found_eq h).trans hnone
  rw [walk_found_eq m other, walk_found_eq m tokens, hnone, hown, hfound, Option.map_none,
    Option.none_or, Option.none_or, Option.some_or, Option.or_eq_some_iff] at h
  rcases h with h | ⟨-, h⟩
  · exact h
  · obtain ⟨usage, -, heq⟩ := Option.map_eq_some_iff.1 h
    exact absurd (congrArg Selection.node heq.symm) (node_ne_of_walkAll_found hfound)

theorem walkAll_found_eq_of_walk_found_eq
    (h : (m.walk other node).found = (m.walk tokens node).found)
    (hnone : (m.tryUsages node tokens node.literalUsages).found = none) :
    (m.walkAll other node.children).found = (m.walkAll tokens node.children).found := by
  refine Option.ext fun selection => ⟨fun hfound => ?_, fun hfound => ?_⟩
  · have hown := (literalUsages_found_eq h).trans hnone
    exact walkAll_found_of_walk_found_eq h.symm hown hfound
  · exact walkAll_found_of_walk_found_eq h hnone hfound

/-- A walk never stops without a usage at the node where it began. -/
theorem walk_found_ne_incomplete (m : Matcher) (tokens : List String) (child : Node Act) :
    (m.walk tokens child).found ≠ some (.incomplete child) := by
  intro h
  rw [walk_found_eq, Option.or_eq_some_iff, Option.or_eq_some_iff] at h
  rcases h with h | ⟨-, h | ⟨-, h⟩⟩
  · obtain ⟨usage, -, heq⟩ := Option.map_eq_some_iff.1 h
    cases heq
  · exact (node_ne_of_walkAll_found h rfl).elim
  · obtain ⟨usage, -, heq⟩ := Option.map_eq_some_iff.1 h
    cases heq

theorem walk_found_eq_of_getD_eq {child : Node Act}
    (h : (m.walk other child).found.getD (.incomplete child) =
      (m.walk tokens child).found.getD (.incomplete child)) :
    (m.walk other child).found = (m.walk tokens child).found := by
  have hother := walk_found_ne_incomplete m other child
  have htokens := walk_found_ne_incomplete m tokens child
  cases ha : (m.walk other child).found <;> cases hb : (m.walk tokens child).found <;>
    simp_all

/-- Subcommands that find the same through two token lists answer both alike. -/
theorem admits_eq_of_walkAll_found_eq {children : List (Node Act)} (hnodup : children.Nodup)
    (hunique : ∀ child ∈ children, ∀ sibling ∈ children, ∀ last trail way,
      child.Descent trail last → sibling.Descent way last → child = sibling)
    (ih : ∀ child ∈ children, (m.walk other child).found = (m.walk tokens child).found →
      ∀ candidate ∈ m.asked tokens child, candidate.admits m other = candidate.admits m tokens)
    (h : (m.walkAll other children).found = (m.walkAll tokens children).found) :
    ∀ candidate ∈ m.askedBelow tokens children,
      candidate.admits m other = candidate.admits m tokens := by
  induction children with
  | nil => simp [askedBelow]
  | cons child children ihRest =>
    rw [List.nodup_cons] at hnodup
    -- What is found through `child` is not found through its siblings as well.
    have hapart : ∀ xs ys : List String, (m.walkAll ys children).found ≠
        some ((m.walk xs child).found.getD (.incomplete child)) := by
      intro xs ys heq
      obtain ⟨sibling, hsibling, way, hway⟩ := exists_descent_of_walkAll_found heq
      have hreached : ∃ trail, child.Descent trail
          ((m.walk xs child).found.getD (.incomplete child)).node := by
        cases hbelow : (m.walk xs child).found with
        | none => exact ⟨[], .here child⟩
        | some found => exact (finds_of_walk_found hbelow).exists_descent
      obtain ⟨trail, hdescent⟩ := hreached
      have hsame := hunique child List.mem_cons_self sibling (List.mem_cons_of_mem _ hsibling)
        _ trail way hdescent hway
      exact hnodup.1 (hsame ▸ hsibling)
    rw [List.forall_mem_cons] at ih
    rw [askedBelow, List.forall_mem_cons, Candidate.admits, Candidate.admits]
    rw [walkAll, walkAll] at h
    cases htokens : m.reach? child tokens with
    | some literal =>
      rw [htokens] at h
      cases hother : m.reach? child other with
      | some literal' =>
        rw [hother] at h
        exact ⟨rfl, ih.1 (walk_found_eq_of_getD_eq (Option.some.inj h))⟩
      | none =>
        rw [hother] at h
        exact absurd h (hapart tokens other)
    | none =>
      rw [htokens] at h
      cases hother : m.reach? child other with
      | some literal' =>
        rw [hother] at h
        exact absurd h.symm (hapart other tokens)
      | none =>
        rw [hother] at h
        refine ⟨rfl, ihRest hnodup.2 ?_ ih.2 h⟩
        intro a ha b hb
        exact hunique a (List.mem_cons_of_mem _ ha) b (List.mem_cons_of_mem _ hb)

/-- In a sound tree two token lists that find the same get the same answers from
every candidate that is asked on the way. -/
theorem admits_eq_of_walk_found_eq (hsound : node.IsSoundTree)
    (h : (m.walk other node).found = (m.walk tokens node).found) :
    ∀ candidate ∈ m.asked tokens node, candidate.admits m other = candidate.admits m tokens := by
  induction node using Node.induct with
  | step node ih =>
    have hown := literalUsages_found_eq h
    rw [asked_eq, List.forall_mem_append, any_admits_eq, any_reach?_eq]
    refine ⟨eq_of_mem_upToFirst (tryUsages_found_eq_iff.1 hown), ?_⟩
    cases hfound : (m.tryUsages node tokens node.literalUsages).found with
    | some usage => simp
    | none =>
      have hbelow := walkAll_found_eq_of_walk_found_eq h hfound
      rw [Option.isSome_none, if_neg Bool.false_ne_true, List.forall_mem_append]
      refine ⟨admits_eq_of_walkAll_found_eq hsound.isSound.nodup_children ?_ ?_ hbelow, ?_⟩
      · intro child hchild sibling hsibling last trail way hdescent hway
        exact hsound.child_eq hchild hsibling hdescent hway
      · intro child hchild
        exact ih child hchild (hsound.child hchild)
      · cases hreached : (m.walkAll tokens node.children).found with
        | some selection => simp
        | none =>
          rw [Option.isSome_none, if_neg Bool.false_ne_true]
          rw [walk_found_eq m other, walk_found_eq m tokens, hown, hbelow, hfound, hreached,
            Option.map_none, Option.none_or, Option.none_or] at h
          have hvalues := Option.map_injective
            (fun a b heq => (Selection.complete.inj heq).2) h
          exact eq_of_mem_upToFirst (tryUsages_found_eq_iff.1 hvalues)

end Matcher

end Parlance
