import Parlance.Proofs.Command.Tree
import Parlance.Selection

/-!
# What a selection rests on

A search finds a usage only where the tokens match it, and stops at a subcommand
without one only where the tokens reach that subcommand. `Matcher.Finds` says so
for everything that a walk can find below a node, and `Matcher.select_cases` for
the selection as a whole.
-/

set_option autoImplicit false

namespace Parlance

variable {Act : Type}

/-! ## Usages -/

namespace Matcher

variable (m : Matcher)

/-- The slot gives the parameter what it asks for. -/
def Serves (tokens : List String) (p : Parameter) : Slot → Prop
  | .token index => ∃ token, tokens[index]? = some token ∧ m.accepts p token = true
  | .skipped => True
  | .greedy start stop => start < stop ∨ p.fallback?.isSome = true
  | .missing => False

theorem acceptsAll_cons (p : Parameter) (ps : List Parameter) (token : String)
    (tokens : List String) :
    m.acceptsAll (p :: ps) (token :: tokens) = (m.accepts p token && m.acceptsAll ps tokens) :=
  rfl

/-- Parameters accept tokens if the first is served with the first token and the others
accept those behind it. -/
theorem acceptsAll_cons_drop_iff {p : Parameter} {ps : List Parameter} {tokens : List String}
    {cursor : Nat} (hcursor : cursor < tokens.length) :
    m.acceptsAll (p :: ps) (tokens.drop cursor) = true ↔
      m.Serves tokens p (.token cursor) ∧ m.acceptsAll ps (tokens.drop (cursor + 1)) = true := by
  rw [List.drop_eq_getElem_cons hcursor, acceptsAll_cons, Bool.and_eq_true]
  simp [Serves, hcursor]

/-- The parameters fit exactly if each is served by its slot. -/
theorem fit_fst_eq_true_iff {tokens : List String} {pairs : List (Parameter × Slot)} :
    (m.fit tokens pairs).1 = true ↔ ∀ pair ∈ pairs, m.Serves tokens pair.1 pair.2 := by
  induction pairs with
  | nil => simp [fit]
  | cons pair pairs ih =>
    obtain ⟨p, slot⟩ := pair
    rw [List.forall_mem_cons]
    cases slot with
    | token index =>
      cases htoken : tokens[index]? with
      | none => simp [fit, Serves, htoken]
      | some token =>
        cases haccepts : m.accepts p token <;> simp [fit, Serves, htoken, haccepts, ih]
    | skipped => simp [fit, Serves, ih]
    | greedy start stop =>
      by_cases hempty : stop ≤ start
      · cases hfallback : p.fallback? <;>
          simp [fit, Serves, hempty, Nat.not_lt.2 hempty, hfallback, ih]
      · simp [fit, Serves, hempty, Nat.lt_of_not_le hempty, ih]
    | missing => simp [fit, Serves]

/-- The tokens match a usage of the node: the slots of all its parameters serve
them, and no token is left. -/
def Matches (node : Node Act) (tokens : List String) (usage : Usage Act) : Prop :=
  let positional := (TokenSplit.ofTokens (node.flagsFor usage) tokens).positional
  let assigned := Slot.assign usage.positional positional.length
  (∀ pair ∈ usage.positional.zip assigned.1, m.Serves positional pair.1 pair.2) ∧
    assigned.2 = positional.length

theorem tryUsage_found_iff {node : Node Act} {tokens : List String} {usage found : Usage Act} :
    (m.tryUsage node tokens usage).found = some found ↔
      found = usage ∧ m.Matches node tokens usage := by
  show (if (m.fit _ _).1 && _ == _ then some usage else none) = some found ↔ _
  rw [Option.ite_none_right_eq_some, Bool.and_eq_true, m.fit_fst_eq_true_iff, beq_iff_eq,
    Option.some.injEq, Matches]
  exact ⟨fun h => ⟨h.2.symm, h.1⟩, fun h => ⟨h.2, h.1.symm⟩⟩

end Matcher

/-! ## Searches -/

theorem Search.found_orElse {α : Type} (first : Search α) (second : Unit → Search α) :
    (first.orElse second).found = first.found.or (second ()).found := by
  unfold Search.orElse
  cases h : first.found <;> simp [h]

/-- A usage that is found among several is one of them and matches. -/
theorem Matcher.exists_of_tryUsages_found (m : Matcher) {node : Node Act} {tokens : List String}
    {es : List (EffectiveUsage Act)} {usage : Usage Act}
    (h : (m.tryUsages node tokens es).found = some usage) :
    ∃ e ∈ es, e.usage = usage ∧ m.Matches node tokens usage := by
  induction es with
  | nil => simp [tryUsages] at h
  | cons e es ih =>
    rw [tryUsages, Search.found_orElse, Option.or_eq_some_iff] at h
    rcases h with h | ⟨-, h⟩
    · obtain ⟨rfl, hmatches⟩ := m.tryUsage_found_iff.1 h
      exact ⟨e, List.mem_cons_self, rfl, hmatches⟩
    · obtain ⟨e, he, hfound⟩ := ih h
      exact ⟨e, List.mem_cons_of_mem _ he, hfound⟩

/-! ## Nodes -/

/-- Tokens reach a subcommand if its lead accepts them and they go beyond its word. -/
theorem Matcher.isSome_reach?_iff {m : Matcher} {node : Node Act} {tokens : List String} :
    (m.reach? node tokens).isSome = true ↔ ∃ slot, node.literalSlot? = some slot ∧
      slot < (TokenSplit.ofTokens node.flagsOnPath tokens).positional.length ∧
      m.acceptsAll node.positionalLead (TokenSplit.ofTokens node.flagsOnPath tokens).positional
        = true := by
  unfold reach? Node.literalSlot?
  cases hlead : node.positionalLead.length with
  | zero => simp
  | succ slot =>
    have hsome : node.positionalLead[slot]?.isSome = true := by simp [hlead]
    simp only [Option.some.injEq, exists_eq_left']
    split
    · next h => simpa [hsome] using h
    · next h => simpa using h

/-- What tokens may find below a node. -/
inductive Matcher.Finds (m : Matcher) (tokens : List String) (root : Node Act) :
    Selection Act → Prop where
  /-- A usage that they match. -/
  | usage {trail : List (Node Act)} {node : Node Act} {e : EffectiveUsage Act}
      (hdescent : root.Descent trail node) (he : e ∈ node.effective)
      (hmatches : m.Matches node tokens e.usage) : Finds m tokens root (.complete node e.usage)
  /-- A subcommand that they reach. -/
  | anchor {trail : List (Node Act)} {node : Node Act} {literal : Parameter}
      (hdescent : root.Descent trail node) (hreach : m.reach? node tokens = some literal) :
      Finds m tokens root (.incomplete node)

namespace Matcher

variable {m : Matcher} {tokens : List String}

theorem Finds.down {node child : Node Act} {selection : Selection Act}
    (hchild : child ∈ node.children) (h : m.Finds tokens child selection) :
    m.Finds tokens node selection := by
  cases h with
  | usage hdescent he hmatches => exact .usage (.down hchild hdescent) he hmatches
  | anchor hdescent hreach => exact .anchor (.down hchild hdescent) hreach

theorem finds_of_tryUsages_found {node : Node Act} {es : List (EffectiveUsage Act)}
    (hes : ∀ e ∈ es, e ∈ node.effective) {selection : Selection Act}
    (h : ((m.tryUsages node tokens es).map (.complete node)).found = some selection) :
    m.Finds tokens node selection := by
  obtain ⟨usage, hfound, rfl⟩ := Option.map_eq_some_iff.1 h
  obtain ⟨e, he, rfl, hmatches⟩ := m.exists_of_tryUsages_found hfound
  exact .usage (.here node) (hes e he) hmatches

theorem walk_eq (node : Node Act) : m.walk tokens node =
    ((m.tryUsages node tokens node.literalUsages).map (.complete node)).orElse fun _ =>
      (m.walkAll tokens node.children).orElse fun _ =>
        (m.tryUsages node tokens node.valueUsages).map (.complete node) := by
  cases node
  rw [walk]

/-- A walk through subcommands goes into one that is reached. -/
theorem exists_of_walkAll_found {children : List (Node Act)} {selection : Selection Act}
    (h : (m.walkAll tokens children).found = some selection) :
    ∃ child ∈ children, ∃ literal, m.reach? child tokens = some literal ∧
      selection = (m.walk tokens child).found.getD (.incomplete child) := by
  induction children with
  | nil => simp [walkAll] at h
  | cons child children ih =>
    rw [walkAll] at h
    split at h
    · obtain ⟨other, hmem, hother⟩ := ih h
      exact ⟨other, List.mem_cons_of_mem _ hmem, hother⟩
    · next literal hreach =>
      exact ⟨child, List.mem_cons_self, literal, hreach, (Option.some.inj h).symm⟩

/-- Whatever a walk finds, the tokens find below its node. -/
theorem finds_of_walk_found {node : Node Act} {selection : Selection Act}
    (h : (m.walk tokens node).found = some selection) : m.Finds tokens node selection := by
  induction node using Node.induct generalizing selection with
  | step node ih =>
    rw [walk_eq, Search.found_orElse, Search.found_orElse, Option.or_eq_some_iff,
      Option.or_eq_some_iff] at h
    rcases h with h | ⟨-, h | ⟨-, h⟩⟩
    · exact finds_of_tryUsages_found (fun e he => (List.mem_filter.1 he).1) h
    · obtain ⟨child, hchild, literal, hreach, rfl⟩ := exists_of_walkAll_found h
      cases hbelow : (m.walk tokens child).found with
      | none => exact .anchor (.down hchild (.here child)) hreach
      | some found => exact .down hchild (ih child hchild hbelow)
    · exact finds_of_tryUsages_found (fun e he => (List.mem_filter.1 he).1) h

/-- A selection is found below the root, or it is the root's default usage for
want of positional tokens, or a failure. -/
theorem select_cases (m : Matcher) (root : Node Act) (tokens : List String) :
    m.Finds tokens root (m.select root tokens).selection ∨
      ((m.select root tokens).selection = .complete root root.effectiveDefault ∧
        (TokenSplit.ofTokens root.flagsOnPath tokens).positional = []) ∨
      (m.select root tokens).selection = .failure root := by
  have hselection : (m.select root tokens).selection = (m.walk tokens root).found.getD
      (if (TokenSplit.ofTokens root.flagsOnPath tokens).positional.isEmpty then
        .complete root root.effectiveDefault else .failure root) := rfl
  rw [hselection]
  cases hfound : (m.walk tokens root).found with
  | some found => exact .inl (finds_of_walk_found hfound)
  | none =>
    right
    rw [Option.getD_none]
    split
    · next hempty => exact .inl ⟨rfl, List.isEmpty_iff.1 hempty⟩
    · exact .inr rfl

theorem Finds.exists_descent {root : Node Act} {selection : Selection Act}
    (h : m.Finds tokens root selection) : ∃ trail, root.Descent trail selection.node := by
  cases h with
  | usage hdescent => exact ⟨_, hdescent⟩
  | anchor hdescent => exact ⟨_, hdescent⟩

/-- The node of a selection stands below the root. -/
theorem exists_descent_select (m : Matcher) (root : Node Act) (tokens : List String) :
    ∃ trail, root.Descent trail (m.select root tokens).selection.node := by
  rcases m.select_cases root tokens with hfinds | ⟨hdefault, -⟩ | hfailure
  · exact hfinds.exists_descent
  · exact ⟨[], hdefault ▸ .here root⟩
  · exact ⟨[], hfailure ▸ .here root⟩

end Matcher

end Parlance
