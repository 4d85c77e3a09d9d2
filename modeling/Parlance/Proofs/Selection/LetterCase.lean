import Parlance.Proofs.Completion.FixedWords
import Parlance.Proofs.Selection.Finding
import Parlance.Proofs.TokenSplit.LetterCase

/-!
# Selection and letter case

Where letter case does not count in fixed words, and no host decides about tokens, a
parameter accepts a token in any letter case. So a selection does not change when tokens
change in letter case only (`Matcher.IgnoresCase.select_eq`).
-/

set_option autoImplicit false

namespace Parlance

variable {Act : Type}

/-- Letter case does not count in fixed words, and no resolvers are registered. -/
structure Matcher.IgnoresCase (m : Matcher) : Prop where
  inexact : m.exact = false
  unregistered : m.resolvers.byKey = []

namespace Matcher

variable {m : Matcher} {a b : String} {tokens other xs ys : List String}

/-! ## Parameters -/

theorem IgnoresCase.accepts_eq (hm : m.IgnoresCase) (h : Text.sameFolded a b = true)
    (p : Parameter) : m.accepts p a = m.accepts p b := by
  have hshape : ∀ type : ValueType, m.resolvers.accepts type a = m.resolvers.accepts type b := by
    intro type
    rw [Resolvers.accepts_eq hm.unregistered, Resolvers.accepts_eq hm.unregistered,
      ValueType.accepts_eq_of_sameFolded h]
  have hword : ∀ name : String, Text.sameWord m.exact name a = Text.sameWord m.exact name b := by
    intro name
    rw [hm.inexact, Bool.eq_iff_iff]
    show Text.sameFolded name a = true ↔ Text.sameFolded name b = true
    rw [Text.sameFolded_iff, Text.sameFolded_iff, Text.sameFolded_iff.1 h]
  simp only [accepts, Parameter.acceptsWith, hshape, hword]

/-- Tokens in a row are accepted alike when they are the same in small letters. -/
theorem IgnoresCase.getElem?_any_accepts_eq (hm : m.IgnoresCase)
    (h : xs.map Text.smallLetters = ys.map Text.smallLetters) (p : Parameter) (index : Nat) :
    xs[index]?.any (m.accepts p) = ys[index]?.any (m.accepts p) := by
  have hrelated := Text.rel_getElem? h index
  generalize xs[index]? = x at hrelated ⊢
  generalize ys[index]? = y at hrelated ⊢
  cases hrelated with
  | none => rfl
  | some hsame => exact hm.accepts_eq hsame p

theorem IgnoresCase.fit_eq (hm : m.IgnoresCase)
    (h : xs.map Text.smallLetters = ys.map Text.smallLetters) (pairs : List (Parameter × Slot)) :
    m.fit xs pairs = m.fit ys pairs := by
  induction pairs with
  | nil => rfl
  | cons pair pairs ih =>
    obtain ⟨p, slot⟩ := pair
    cases slot with
    | token index => rw [fit, fit, hm.getElem?_any_accepts_eq h, ih]
    | skipped => rw [fit, fit, ih]
    | greedy start stop => rw [fit, fit, ih]
    | missing => rfl

theorem IgnoresCase.acceptsAll_eq (hm : m.IgnoresCase)
    (h : xs.map Text.smallLetters = ys.map Text.smallLetters) (ps : List Parameter) :
    m.acceptsAll ps xs = m.acceptsAll ps ys := by
  induction ps generalizing xs ys with
  | nil => rfl
  | cons p ps ih =>
    cases xs with
    | nil =>
      rw [List.map_nil] at h
      rw [List.map_eq_nil_iff.1 h.symm]
    | cons x xs =>
      rw [List.map_cons] at h
      obtain ⟨y, ys, rfl, hhead, htail⟩ := List.map_eq_cons_iff.1 h.symm
      rw [acceptsAll_cons, acceptsAll_cons, hm.accepts_eq (Text.smallLetters_eq_iff.1 hhead.symm),
        ih htail.symm]

/-! ## Nodes -/

theorem IgnoresCase.tryUsages_eq (hm : m.IgnoresCase) (h : List.Forall₂ IsRecased tokens other)
    (node : Node Act) (es : List (EffectiveUsage Act)) :
    m.tryUsages node tokens es = m.tryUsages node other es := by
  have htry : ∀ usage : Usage Act, m.tryUsage node tokens usage = m.tryUsage node other usage := by
    intro usage
    have hsame := TokenSplit.map_positional_eq h (node.flagsFor usage)
    have hlength := congrArg List.length hsame
    rw [List.length_map, List.length_map] at hlength
    simp only [tryUsage, hlength, hm.fit_eq hsame]
  induction es with
  | nil => rfl
  | cons e es ih => rw [tryUsages, tryUsages, htry, ih]

theorem IgnoresCase.reach?_eq (hm : m.IgnoresCase) (h : List.Forall₂ IsRecased tokens other)
    (node : Node Act) : m.reach? node tokens = m.reach? node other := by
  have hsame := TokenSplit.map_positional_eq h node.flagsOnPath
  have hlength := congrArg List.length hsame
  rw [List.length_map, List.length_map] at hlength
  simp only [reach?, hlength, hm.acceptsAll_eq hsame]

theorem IgnoresCase.walk_eq (hm : m.IgnoresCase) (h : List.Forall₂ IsRecased tokens other)
    (node : Node Act) : m.walk tokens node = m.walk other node := by
  induction node using Node.induct with
  | step node ih =>
    have hchildren : ∀ children : List (Node Act),
        (∀ child ∈ children, m.walk tokens child = m.walk other child) →
        m.walkAll tokens children = m.walkAll other children := by
      intro children hall
      induction children with
      | nil => rfl
      | cons child children ihRest =>
        rw [List.forall_mem_cons] at hall
        rw [walkAll, walkAll, hm.reach?_eq h, ihRest hall.2, hall.1]
    rw [Matcher.walk_eq, Matcher.walk_eq, hm.tryUsages_eq h, hm.tryUsages_eq h, hchildren _ ih]

/-! ## Selections -/

/-- Tokens that change in letter case only select the same, and the same parameter is the
last match. -/
theorem IgnoresCase.select_eq (hm : m.IgnoresCase) (h : List.Forall₂ IsRecased tokens other)
    (root : Node Act) : m.select root tokens = m.select root other := by
  have hempty : (TokenSplit.ofTokens root.flagsOnPath tokens).positional.isEmpty =
      (TokenSplit.ofTokens root.flagsOnPath other).positional.isEmpty := by
    have hsame := congrArg List.isEmpty (TokenSplit.map_positional_eq h root.flagsOnPath)
    rwa [List.isEmpty_map, List.isEmpty_map] at hsame
  simp only [select, hm.walk_eq h, hempty]

end Matcher

end Parlance
