import Parlance.Proofs.Command.Passage
import Parlance.Proofs.Selection.Asking

/-!
# Priorities of a selection

Tokens may fit several usages and subcommands, and then priorities decide. At every node
the usages with fixed words of their own come first, then the first subcommand that the
tokens reach, then the other usages; and a subcommand once reached is not left again.
`Matcher.Prefers` tells what the tokens select below a node, and `Matcher.Settles` what
they select in a whole tree, by conditions on the nodes along one way down. A selection is
exactly that (`Matcher.selection_eq_iff_settles`).
-/

set_option autoImplicit false

namespace Parlance

variable {Act : Type}

namespace Matcher

/-! ## The policy -/

/-- The tokens go beyond the word of the node, and all that leads to it accepts them. -/
def Reaches (m : Matcher) (node : Node Act) (tokens : List String) : Prop :=
  let positional := (TokenSplit.ofTokens node.flagsOnPath tokens).positional
  ∃ slot, node.literalSlot? = some slot ∧ slot < positional.length ∧
    m.acceptsAll node.positionalLead positional = true

/-- No usage with fixed words of its own matches at the node. -/
def FitsNoWords (m : Matcher) (tokens : List String) (node : Node Act) : Prop :=
  ∀ e ∈ node.effective, 0 < e.ownLiterals → ¬ m.Matches node tokens e.usage

/-- No subcommand of the node is reached. -/
def ReachesNone (m : Matcher) (tokens : List String) (node : Node Act) : Prop :=
  ∀ child ∈ node.children, ¬ m.Reaches child tokens

/-- Neither does a usage of the node match, nor is a subcommand of it reached. -/
structure FitsNothing (m : Matcher) (tokens : List String) (node : Node Act) : Prop where
  usages : ∀ e ∈ node.effective, ¬ m.Matches node tokens e.usage
  children : m.ReachesNone tokens node

/-- The tokens lead from a node on to a subcommand: to the first that they reach, and only
if no usage with fixed words of its own matches at the node. -/
structure StepsTo (m : Matcher) (tokens : List String) (node child : Node Act) : Prop where
  words : m.FitsNoWords tokens node
  reached : m.Reaches child tokens
  first : ∃ front back, node.children = front ++ child :: back ∧
    ∀ sibling ∈ front, ¬ m.Reaches sibling tokens

/-- The tokens lead from the first node step by step down to the last. -/
inductive Follows (m : Matcher) (tokens : List String) : Node Act → Node Act → Prop where
  | here (node : Node Act) : Follows m tokens node node
  | down {node child last : Node Act} (hstep : m.StepsTo tokens node child)
      (below : Follows m tokens child last) : Follows m tokens node last

/-- The usage matches at the node, and none of its kind in front of it does. There are two
kinds of usages: those with fixed words of their own, and the others. -/
structure IsFirstMatch (m : Matcher) (tokens : List String) (node : Node Act)
    (e : EffectiveUsage Act) : Prop where
  hits : m.Matches node tokens e.usage
  first : ∃ front back, node.effective = front ++ e :: back ∧
    ∀ other ∈ front, (0 < other.ownLiterals ↔ 0 < e.ownLiterals) →
      ¬ m.Matches node tokens other.usage

/-- What the tokens select below the root, if they select anything there. -/
inductive Prefers (m : Matcher) (tokens : List String) (root : Node Act) :
    Selection Act → Prop where
  /-- A usage; one without fixed words of its own stands back behind those with such
  words and behind the subcommands. -/
  | usage {node : Node Act} {e : EffectiveUsage Act} (way : m.Follows tokens root node)
      (hfirst : m.IsFirstMatch tokens node e)
      (hback : e.ownLiterals = 0 → m.FitsNoWords tokens node ∧ m.ReachesNone tokens node) :
      Prefers m tokens root (.complete node e.usage)
  /-- A subcommand where the tokens go no further, with its default usage. -/
  | anchor {parent node : Node Act} (way : m.Follows tokens root parent)
      (hstep : m.StepsTo tokens parent node) (hnothing : m.FitsNothing tokens node) :
      Prefers m tokens root (.incomplete node)

/-- What the tokens select in the tree of the root. -/
inductive Settles (m : Matcher) (tokens : List String) (root : Node Act) :
    Selection Act → Prop where
  | below {selection : Selection Act} (h : m.Prefers tokens root selection) :
      Settles m tokens root selection
  /-- Without any positional token, the default usage of the root. -/
  | default (hnothing : m.FitsNothing tokens root)
      (htokens : (TokenSplit.ofTokens root.flagsOnPath tokens).positional = []) :
      Settles m tokens root (.complete root root.effectiveDefault)
  | failure (hnothing : m.FitsNothing tokens root)
      (htokens : (TokenSplit.ofTokens root.flagsOnPath tokens).positional ≠ []) :
      Settles m tokens root (.failure root)

variable {m : Matcher} {tokens : List String} {node child : Node Act}

/-! ## Usages of one node -/

theorem isSome_reach?_iff_reaches : (m.reach? node tokens).isSome = true ↔ m.Reaches node tokens :=
  isSome_reach?_iff

theorem isSome_tryUsage_iff {usage : Usage Act} :
    (m.tryUsage node tokens usage).found.isSome = true ↔ m.Matches node tokens usage := by
  rw [Option.isSome_iff_exists]
  constructor
  · intro h
    obtain ⟨found, hfound⟩ := h
    exact (m.tryUsage_found_iff.1 hfound).2
  · intro h
    exact ⟨usage, m.tryUsage_found_iff.2 ⟨rfl, h⟩⟩

/-- Among usages a walk finds the first that matches. -/
theorem tryUsages_found_eq (es : List (EffectiveUsage Act)) :
    (m.tryUsages node tokens es).found =
      (es.find? fun e => (m.tryUsage node tokens e.usage).found.isSome).map
        EffectiveUsage.usage := by
  have hinjective : Function.Injective (Candidate.ofUsage node) :=
    fun _ _ heq => (Candidate.ofUsage.inj heq).2
  apply Option.map_injective hinjective
  rw [map_tryUsages_found, Node.candidates, List.find?_map, Option.map_map]
  rfl

/-- Among the usages of one kind a walk finds the first of that kind that matches. -/
theorem tryUsages_filter_eq_some_iff {kind : EffectiveUsage Act → Bool} {usage : Usage Act} :
    (m.tryUsages node tokens (node.effective.filter kind)).found = some usage ↔
      ∃ e, e.usage = usage ∧ kind e = true ∧ m.Matches node tokens e.usage ∧
        ∃ front back, node.effective = front ++ e :: back ∧
          ∀ other ∈ front, kind other = true → ¬ m.Matches node tokens other.usage := by
  rw [tryUsages_found_eq, List.find?_filter, Option.map_eq_some_iff]
  simp only [List.find?_eq_some_iff_append, isSome_tryUsage_iff, decide_eq_true_eq,
    Bool.not_eq_true', decide_eq_false_iff_not, not_and]
  constructor
  · intro h
    obtain ⟨e, ⟨⟨hkind, hmatches⟩, hfirst⟩, rfl⟩ := h
    exact ⟨e, rfl, hkind, hmatches, hfirst⟩
  · intro h
    obtain ⟨e, rfl, hkind, hmatches, hfirst⟩ := h
    exact ⟨e, ⟨⟨hkind, hmatches⟩, hfirst⟩, rfl⟩

theorem tryUsages_eq_none_iff {es : List (EffectiveUsage Act)} :
    (m.tryUsages node tokens es).found = none ↔ ∀ e ∈ es, ¬ m.Matches node tokens e.usage := by
  rw [tryUsages_found_eq, Option.map_eq_none_iff, List.find?_eq_none]
  simp only [isSome_tryUsage_iff]

theorem literalUsages_found_eq_some_iff {usage : Usage Act} :
    (m.tryUsages node tokens node.literalUsages).found = some usage ↔
      ∃ e, e.usage = usage ∧ 0 < e.ownLiterals ∧ m.IsFirstMatch tokens node e := by
  rw [Node.literalUsages, tryUsages_filter_eq_some_iff]
  simp only [decide_eq_true_eq]
  constructor
  · intro h
    obtain ⟨e, rfl, hwords, hmatches, front, back, heq, hfirst⟩ := h
    refine ⟨e, rfl, hwords, hmatches, front, back, heq, ?_⟩
    intro other hother hkind
    exact hfirst other hother (hkind.2 hwords)
  · intro h
    obtain ⟨e, rfl, hwords, hmatches, front, back, heq, hfirst⟩ := h
    refine ⟨e, rfl, hwords, hmatches, front, back, heq, ?_⟩
    intro other hother hkind
    exact hfirst other hother (iff_of_true hkind hwords)

theorem valueUsages_found_eq_some_iff {usage : Usage Act} :
    (m.tryUsages node tokens node.valueUsages).found = some usage ↔
      ∃ e, e.usage = usage ∧ e.ownLiterals = 0 ∧ m.IsFirstMatch tokens node e := by
  rw [Node.valueUsages, tryUsages_filter_eq_some_iff]
  simp only [decide_eq_true_eq]
  constructor
  · intro h
    obtain ⟨e, rfl, hvalues, hmatches, front, back, heq, hfirst⟩ := h
    refine ⟨e, rfl, hvalues, hmatches, front, back, heq, ?_⟩
    intro other hother hkind
    apply hfirst other hother
    omega
  · intro h
    obtain ⟨e, rfl, hvalues, hmatches, front, back, heq, hfirst⟩ := h
    refine ⟨e, rfl, hvalues, hmatches, front, back, heq, ?_⟩
    intro other hother hkind
    apply hfirst other hother
    omega

theorem literalUsages_found_eq_none_iff :
    (m.tryUsages node tokens node.literalUsages).found = none ↔ m.FitsNoWords tokens node := by
  rw [tryUsages_eq_none_iff, Node.literalUsages, FitsNoWords]
  simp only [List.mem_filter, decide_eq_true_eq, and_imp]

/-! ## Subcommands of one node -/

/-- Among subcommands a walk goes into the first that is reached. -/
theorem walkAll_found_eq_some_iff {children : List (Node Act)} {selection : Selection Act} :
    (m.walkAll tokens children).found = some selection ↔
      ∃ child, m.Reaches child tokens ∧
        (∃ front back, children = front ++ child :: back ∧
          ∀ sibling ∈ front, ¬ m.Reaches sibling tokens) ∧
        (m.walk tokens child).found.getD (.incomplete child) = selection := by
  rw [walkAll_found_eq, Option.map_eq_some_iff]
  simp only [List.find?_eq_some_iff_append, isSome_reach?_iff_reaches, Bool.not_eq_true',
    ← Bool.not_eq_true, and_assoc]

theorem walkAll_found_eq_none_iff :
    (m.walkAll tokens node.children).found = none ↔ m.ReachesNone tokens node := by
  rw [walkAll_found_eq, Option.map_eq_none_iff, List.find?_eq_none, ReachesNone]
  simp only [isSome_reach?_iff_reaches]

/-! ## Walks -/

/-- A walk finds nothing exactly where nothing fits. -/
theorem walk_found_eq_none_iff :
    (m.walk tokens node).found = none ↔ m.FitsNothing tokens node := by
  rw [walk_found_eq, Option.or_eq_none_iff, Option.or_eq_none_iff, Option.map_eq_none_iff,
    Option.map_eq_none_iff, literalUsages_found_eq_none_iff, walkAll_found_eq_none_iff,
    tryUsages_eq_none_iff]
  constructor
  · intro h
    obtain ⟨hwords, hchildren, hvalues⟩ := h
    refine ⟨?_, hchildren⟩
    intro e he
    rcases Nat.eq_zero_or_pos e.ownLiterals with hzero | hpos
    · exact hvalues e (List.mem_filter.2 ⟨he, decide_eq_true hzero⟩)
    · exact hwords e he hpos
  · intro h
    refine ⟨?_, h.children, ?_⟩
    · intro e he _
      exact h.usages e he
    · intro e he
      exact h.usages e (List.mem_of_mem_filter he)

/-- What is preferred below a subcommand is preferred below the node that leads to it. -/
theorem Prefers.down {selection : Selection Act} (hstep : m.StepsTo tokens node child)
    (h : m.Prefers tokens child selection) : m.Prefers tokens node selection := by
  cases h with
  | usage way hfirst hback => exact .usage (.down hstep way) hfirst hback
  | anchor way hlast hnothing => exact .anchor (.down hstep way) hlast hnothing

/-- Whatever a walk finds is preferred. -/
theorem prefers_of_walk_found {selection : Selection Act}
    (h : (m.walk tokens node).found = some selection) : m.Prefers tokens node selection := by
  induction node using Node.induct generalizing selection with
  | step node ih =>
    rw [walk_found_eq, Option.or_eq_some_iff, Option.or_eq_some_iff, Option.map_eq_none_iff,
      literalUsages_found_eq_none_iff] at h
    rcases h with hliteral | ⟨hwords, hbelow | ⟨hchildren, hvalue⟩⟩
    · obtain ⟨usage, hfound, rfl⟩ := Option.map_eq_some_iff.1 hliteral
      obtain ⟨e, rfl, hwords, hfirst⟩ := literalUsages_found_eq_some_iff.1 hfound
      apply Prefers.usage (.here node) hfirst
      intro hzero
      omega
    · obtain ⟨child, hreached, hfirst, rfl⟩ := walkAll_found_eq_some_iff.1 hbelow
      have hstep : m.StepsTo tokens node child := ⟨hwords, hreached, hfirst⟩
      cases hfound : (m.walk tokens child).found with
      | none => exact .anchor (.here node) hstep (walk_found_eq_none_iff.1 hfound)
      | some found =>
        obtain ⟨front, back, heq, -⟩ := hfirst
        have hchild : child ∈ node.children := by simp [heq]
        exact .down hstep (ih child hchild hfound)
    · obtain ⟨usage, hfound, rfl⟩ := Option.map_eq_some_iff.1 hvalue
      obtain ⟨e, rfl, -, hfirst⟩ := valueUsages_found_eq_some_iff.1 hfound
      apply Prefers.usage (.here node) hfirst
      intro _
      exact ⟨hwords, walkAll_found_eq_none_iff.1 hchildren⟩

/-- A walk goes where the tokens lead, and comes back with what it finds there. -/
theorem StepsTo.walk_found (hstep : m.StepsTo tokens node child) :
    (m.walk tokens node).found =
      some ((m.walk tokens child).found.getD (.incomplete child)) := by
  have hbelow : (m.walkAll tokens node.children).found =
      some ((m.walk tokens child).found.getD (.incomplete child)) :=
    walkAll_found_eq_some_iff.2 ⟨child, hstep.reached, hstep.first, rfl⟩
  rw [walk_found_eq, literalUsages_found_eq_none_iff.2 hstep.words, hbelow]
  rfl

theorem Follows.walk_found {last : Node Act} (way : m.Follows tokens node last)
    {selection : Selection Act} (h : (m.walk tokens last).found = some selection) :
    (m.walk tokens node).found = some selection := by
  induction way with
  | here node => exact h
  | down hstep below ih => rw [hstep.walk_found, ih h, Option.getD_some]

/-- At its own node, a walk finds the first match that nothing stands in front of. -/
theorem IsFirstMatch.walk_found {e : EffectiveUsage Act} (hfirst : m.IsFirstMatch tokens node e)
    (hback : e.ownLiterals = 0 → m.FitsNoWords tokens node ∧ m.ReachesNone tokens node) :
    (m.walk tokens node).found = some (.complete node e.usage) := by
  rw [walk_found_eq]
  rcases Nat.eq_zero_or_pos e.ownLiterals with hzero | hpos
  · obtain ⟨hwords, hchildren⟩ := hback hzero
    rw [literalUsages_found_eq_none_iff.2 hwords, walkAll_found_eq_none_iff.2 hchildren,
      valueUsages_found_eq_some_iff.2 ⟨e, rfl, hzero, hfirst⟩]
    rfl
  · rw [literalUsages_found_eq_some_iff.2 ⟨e, rfl, hpos, hfirst⟩]
    rfl

/-- A walk finds exactly what is preferred. -/
theorem walk_found_eq_some_iff {selection : Selection Act} :
    (m.walk tokens node).found = some selection ↔ m.Prefers tokens node selection := by
  constructor
  · exact prefers_of_walk_found
  · intro h
    cases h with
    | usage way hfirst hback => exact way.walk_found (hfirst.walk_found hback)
    | anchor way hstep hnothing =>
      apply way.walk_found
      rw [hstep.walk_found, walk_found_eq_none_iff.2 hnothing]
      rfl

/-! ## Selections -/

theorem selection_eq_getD (m : Matcher) (root : Node Act) (tokens : List String) :
    (m.select root tokens).selection = (m.walk tokens root).found.getD
      (if (TokenSplit.ofTokens root.flagsOnPath tokens).positional.isEmpty then
        .complete root root.effectiveDefault else .failure root) :=
  rfl

/-- What is selected in a tree is settled by the priorities. -/
theorem settles_selection (m : Matcher) (root : Node Act) (tokens : List String) :
    m.Settles tokens root (m.select root tokens).selection := by
  rw [selection_eq_getD]
  cases hfound : (m.walk tokens root).found with
  | some found => exact .below (walk_found_eq_some_iff.1 hfound)
  | none =>
    have hnothing : m.FitsNothing tokens root := walk_found_eq_none_iff.1 hfound
    rw [Option.getD_none]
    split
    · next hempty => exact .default hnothing (List.isEmpty_iff.1 hempty)
    · next hempty => exact .failure hnothing (mt List.isEmpty_iff.2 hempty)

/-- The priorities settle one selection. -/
theorem Settles.eq_selection {root : Node Act} {selection : Selection Act}
    (h : m.Settles tokens root selection) : (m.select root tokens).selection = selection := by
  rw [selection_eq_getD]
  cases h with
  | below h => rw [walk_found_eq_some_iff.2 h, Option.getD_some]
  | default hnothing htokens =>
    rw [walk_found_eq_none_iff.2 hnothing, Option.getD_none, htokens]
    rfl
  | failure hnothing htokens =>
    rw [walk_found_eq_none_iff.2 hnothing, Option.getD_none,
      if_neg (mt List.isEmpty_iff.1 htokens)]

end Matcher

/-! ## Linked trees -/

/-- Usages that are sorted by the number of their own fixed words fall into those with
such words and those without. -/
theorem EffectiveUsage.eq_filter_append_filter {es : List (EffectiveUsage Act)}
    (h : es.Pairwise fun a b => b.ownLiterals ≤ a.ownLiterals) :
    es = (es.filter fun e => 0 < e.ownLiterals) ++ es.filter fun e => e.ownLiterals = 0 := by
  induction es with
  | nil => rfl
  | cons e es ih =>
    obtain ⟨hle, hrest⟩ := List.pairwise_cons.1 h
    rcases Nat.eq_zero_or_pos e.ownLiterals with hzero | hpos
    · -- None behind the first one has more words, so none has any.
      have hall : ∀ other ∈ e :: es, other.ownLiterals = 0 := by
        intro other hother
        rcases List.mem_cons.1 hother with rfl | hother
        · exact hzero
        · have hnone := hle other hother
          omega
      have hwords : ((e :: es).filter fun e => 0 < e.ownLiterals) = [] := by
        rw [List.filter_eq_nil_iff]
        intro other hother
        simp [hall other hother]
      have hvalues : ((e :: es).filter fun e => e.ownLiterals = 0) = e :: es := by
        rw [List.filter_eq_self]
        intro other hother
        simp [hall other hother]
      rw [hwords, hvalues, List.nil_append]
    · rw [List.filter_cons_of_pos (by simpa using hpos), List.filter_cons_of_neg (by simp; omega),
        List.cons_append, ← ih hrest]

/-- Usages are arranged by their fixed words, and those with as many keep their order. -/
theorem EffectiveUsage.pairwise_arrange_ownLiterals {before : EffectiveUsage Act →
    EffectiveUsage Act → Prop} {es : List (EffectiveUsage Act)} (h : es.Pairwise before) :
    (arrange (fun a b => b.ownLiterals ≤ a.ownLiterals) es).Pairwise fun a b =>
      b.ownLiterals ≤ a.ownLiterals ∧ (a.ownLiterals ≤ b.ownLiterals → before a b) := by
  have htotal : ∀ a b : EffectiveUsage Act, decide (b.ownLiterals ≤ a.ownLiterals) = true ∨
      decide (a.ownLiterals ≤ b.ownLiterals) = true := by
    intro a b
    simpa using Nat.le_total b.ownLiterals a.ownLiterals
  have htrans : ∀ a b c : EffectiveUsage Act, decide (b.ownLiterals ≤ a.ownLiterals) = true →
      decide (c.ownLiterals ≤ b.ownLiterals) = true →
      decide (c.ownLiterals ≤ a.ownLiterals) = true := by
    intro a b c hab hbc
    rw [decide_eq_true_eq] at hab hbc ⊢
    exact Nat.le_trans hbc hab
  simpa using pairwise_arrange_of_pairwise htotal htrans h

/-- In a linked tree usages with fixed words of their own stand in front of the others. -/
theorem Command.effective_linkUnder_eq_append (above : List String) (lead : List Parameter)
    (flags : List Flag) (command : Command Act) :
    (command.linkUnder above lead flags).effective =
      (command.linkUnder above lead flags).literalUsages ++
        (command.linkUnder above lead flags).valueUsages := by
  apply EffectiveUsage.eq_filter_append_filter
  rw [effective_linkUnder]
  have hany : ∀ es : List (EffectiveUsage Act), es.Pairwise fun _ _ => True :=
    fun _ => List.pairwise_of_forall fun _ _ => trivial
  exact (EffectiveUsage.pairwise_arrange_ownLiterals (hany _)).imp And.left

/-- In the tree of a command, tokens select what the priorities settle and nothing else;
and at every node the usages with fixed words of their own stand in front of the others. -/
theorem Matcher.selection_eq_iff_settles (m : Matcher) (command : Command Act)
    (tokens : List String) :
    (∀ selection, (m.select command.link tokens).selection = selection ↔
      m.Settles tokens command.link selection) ∧
    ∀ trail node, command.link.Descent trail node →
      node.effective = node.literalUsages ++ node.valueUsages := by
  constructor
  · intro selection
    constructor
    · intro h
      rw [← h]
      exact m.settles_selection command.link tokens
    · exact Settles.eq_selection
  · intro trail node hdescent
    obtain ⟨above, declared, path, -, rfl⟩ := Command.exists_passage_of_descent hdescent rfl
    exact Command.effective_linkUnder_eq_append _ _ _ _

/-- A ranking that tells of a player or of everybody, and can be reset or listed. -/
def ranking : Command Unit where
  name := "rank"
  usages := [.ofParameters [{ name := "player", kind := .required .string }],
    .ofParameters [{ name := "list", kind := .literal [] }]]
  children := [{ name := "reset" }, { name := "list" }]

/-- One word fits a fixed word, a player and a subcommand, and the fixed word has it. The
other fits a player and a subcommand, and the subcommand has it. -/
theorem Matcher.selection_eq_iff_settles_ranking :
    ∃ (m : Matcher) (list : EffectiveUsage Unit) (reset : Node Unit),
      list ∈ ranking.link.literalUsages ∧ ranking.link.Descent [reset] reset ∧
      m.Settles ["list"] ranking.link (.complete ranking.link list.usage) ∧
      m.Settles ["reset"] ranking.link (.incomplete reset) ∧
      reset.effective = reset.literalUsages ++ reset.valueUsages := by
  have hlist : ∃ list value, ranking.link.effective = [list, value] ∧ 0 < list.ownLiterals ∧
      (Matcher.select {} ranking.link ["list"]).selection = .complete ranking.link list.usage :=
    ⟨_, _, rfl, by decide, rfl⟩
  have hreset : ∃ reset other, ranking.link.children = [reset, other] ∧
      (Matcher.select {} ranking.link ["reset"]).selection = .incomplete reset :=
    ⟨_, _, rfl, rfl⟩
  obtain ⟨list, value, heffective, hwords, hlisted⟩ := hlist
  obtain ⟨reset, other, hchildren, hanchored⟩ := hreset
  have hdescent : ranking.link.Descent [reset] reset := .down (by simp [hchildren]) (.here reset)
  have hmem : list ∈ ranking.link.literalUsages := by
    simp [Node.literalUsages, heffective, hwords]
  obtain ⟨hsettles, hsorted⟩ := Matcher.selection_eq_iff_settles {} ranking ["list"]
  obtain ⟨hanchors, -⟩ := Matcher.selection_eq_iff_settles {} ranking ["reset"]
  exact ⟨{}, list, reset, hmem, hdescent, (hsettles _).1 hlisted, (hanchors _).1 hanchored,
    hsorted _ _ hdescent⟩

end Parlance
