import Parlance.Proofs.Selection.Covering

/-!
# How far tokens got

The parameters of usages are numbered, and the words of a lead are not and so stand in
front of them. So the last match is the deepest parameter of a usage that was tried, and
a word only counts if no usage has got anywhere. It is the deepest parameter of all if no
usage leaves a greedy parameter empty and usages cover the words that are reached
(`Matcher.lastMatched_link`).
-/

set_option autoImplicit false

namespace Parlance

variable {Act : Type}

/-! ## What the last match should tell -/

/-- The last match accepted a token, and none accepted one at a greater index; there is
none only if nothing accepted a token. -/
def Matcher.TellsDeepest (m : Matcher) (root : Node Act) (tokens : List String) : Prop :=
  ((m.select root tokens).lastMatched = none ↔
    ∀ candidate ∈ m.asked tokens root, ∀ p index, ¬ candidate.Accepts m tokens p index) ∧
  ∀ p, (m.select root tokens).lastMatched = some p →
    ∃ candidate ∈ m.asked tokens root, ∃ index, candidate.Accepts m tokens p index ∧
      ∀ other ∈ m.asked tokens root, ∀ q i, other.Accepts m tokens q i → i ≤ index

/-- There is no last match exactly if nothing is noted. Otherwise it is noted in a usage,
and at the greatest index of all that usages note; or no usage notes anything, and it is
the word of the first subcommand that is reached. -/
structure Matcher.TellsDeepestOfUsages (m : Matcher) (root : Node Act) (tokens : List String) :
    Prop where
  none_iff : (m.select root tokens).lastMatched = none ↔
    ∀ candidate ∈ m.asked tokens root, ∀ p index, ¬ candidate.Notes m tokens p index
  usage_or_word : ∀ p, (m.select root tokens).lastMatched = some p →
    (∃ node usage index, .ofUsage node usage ∈ m.asked tokens root ∧
      (Candidate.ofUsage node usage).Notes m tokens p index ∧
      ∀ other otherUsage, .ofUsage other otherUsage ∈ m.asked tokens root → ∀ q i,
        (Candidate.ofUsage other otherUsage).Notes m tokens q i → i ≤ index) ∨
    ((∀ node usage, .ofUsage node usage ∈ m.asked tokens root → ∀ q i,
        ¬ (Candidate.ofUsage node usage).Notes m tokens q i) ∧
      ∃ front node back, m.asked tokens root = front ++ .subcommand node :: back ∧
        m.reach? node tokens = some p ∧
        ∀ candidate ∈ front, ∀ q i, ¬ candidate.Notes m tokens q i)

/-! ## The last match -/

/-- The first member of joined lists stands in the first that is not empty. -/
theorem exists_of_head?_flatMap {α β : Type} {f : α → List β} {xs : List α} {y : β}
    (h : (xs.flatMap f).head? = some y) :
    ∃ front x back, xs = front ++ x :: back ∧ (∀ other ∈ front, f other = []) ∧ y ∈ f x := by
  induction xs with
  | nil => cases h
  | cons x xs ih =>
    rw [List.flatMap_cons] at h
    cases hx : f x with
    | nil =>
      rw [hx, List.nil_append] at h
      obtain ⟨front, later, back, rfl, hfront, hmem⟩ := ih h
      exact ⟨x :: front, later, back, rfl, List.forall_mem_cons.2 ⟨hx, hfront⟩, hmem⟩
    | cons first rest =>
      rw [hx, List.cons_append, List.head?_cons] at h
      obtain rfl := Option.some.inj h
      exact ⟨[], x, xs, rfl, by simp, by simp [hx]⟩

namespace Matcher

variable {m : Matcher} {tokens : List String}

theorem lastMatched_eq (root : Node Act) : (m.select root tokens).lastMatched =
    deepest ((m.asked tokens root).flatMap (Candidate.noted m tokens)) := by
  rw [← walk_accepted_eq]
  rfl

/-- What is noted on a walk, some candidate notes at an index. -/
theorem mem_flatMap_noted_iff {asked : List (Candidate Act)} {p : Parameter} :
    p ∈ asked.flatMap (Candidate.noted m tokens) ↔
      ∃ candidate ∈ asked, ∃ index, candidate.Notes m tokens p index := by
  simp only [List.mem_flatMap, Candidate.mem_noted_iff]

/-- Where all candidates are numbered, the deepest parameter is one of a usage. -/
theorem tellsDeepestOfUsages_of_isNumbered {root : Node Act}
    (hnumbered : ∀ candidate ∈ m.asked tokens root, candidate.IsNumbered m tokens) :
    m.TellsDeepestOfUsages root tokens := by
  refine ⟨?_, ?_⟩ <;> rw [lastMatched_eq]
  · rw [deepest_eq_argmax, List.argmax_eq_none, List.eq_nil_iff_forall_not_mem]
    simp only [mem_flatMap_noted_iff, not_exists, not_and]
    exact ⟨fun h c hc p i => h p c hc i, fun h p c hc i => h c hc p i⟩
  · intro p hlast
    have hargmax := hlast
    rw [deepest_eq_argmax] at hargmax
    have hdeepest : ∀ candidate ∈ m.asked tokens root, ∀ q i, candidate.Notes m tokens q i →
        q.depth ≤ p.depth := fun candidate hcandidate q i hnotes =>
      List.le_of_mem_argmax (mem_flatMap_noted_iff.2 ⟨candidate, hcandidate, i, hnotes⟩) hargmax
    obtain ⟨candidate, hcandidate, index, hnotes⟩ :=
      mem_flatMap_noted_iff.1 (List.argmax_mem hargmax)
    cases candidate with
    | ofUsage node usage =>
      refine .inl ⟨node, usage, index, hcandidate, hnotes, ?_⟩
      intro other otherUsage hother q i hothernotes
      have hle := hdeepest _ hother q i hothernotes
      rw [hnumbered _ hother q i hothernotes, hnumbered _ hcandidate p index hnotes] at hle
      exact Nat.le_of_succ_le_succ hle
    | subcommand node =>
      have hdepth : p.depth = 0 := hnumbered _ hcandidate p index hnotes
      have hnone : ∀ node usage, .ofUsage node usage ∈ m.asked tokens root → ∀ q i,
          ¬ (Candidate.ofUsage node usage).Notes m tokens q i := by
        intro node usage hmem q i hothernotes
        have hle := hdeepest _ hmem q i hothernotes
        rw [hnumbered _ hmem q i hothernotes, hdepth] at hle
        cases hle
      refine .inr ⟨hnone, ?_⟩
      -- Nothing was noted before a word that stays the last match.
      obtain ⟨front, first, back, hasked, hfront, hmem⟩ :=
        exists_of_head?_flatMap (head?_of_deepest hlast hdepth)
      have hquiet : ∀ candidate ∈ front, ∀ q i, ¬ candidate.Notes m tokens q i := by
        intro candidate hcandidate q i hothernotes
        have hq := Candidate.mem_noted_iff.2 ⟨i, hothernotes⟩
        rw [hfront candidate hcandidate] at hq
        cases hq
      cases first with
      | ofUsage node usage =>
        obtain ⟨i, hothernotes⟩ := Candidate.mem_noted_iff.1 hmem
        exact (hnone node usage (by rw [hasked]; simp) p i hothernotes).elim
      | subcommand node =>
        rw [Candidate.noted, Option.mem_toList] at hmem
        exact ⟨front, node, back, hasked, hmem, hquiet⟩

/-- If nothing is left empty and usages cover the words that are reached, then the
deepest parameter of a usage is the deepest of all. -/
theorem tellsDeepest_of_coversWords {root : Node Act} (htells : m.TellsDeepestOfUsages root tokens)
    (hfull : ∀ candidate ∈ m.asked tokens root, ∀ p index,
      ¬ candidate.LeavesEmpty m tokens p index)
    (hcovers : m.CoversWords root tokens) : m.TellsDeepest root tokens := by
  have haccepts : ∀ candidate ∈ m.asked tokens root, ∀ p index,
      candidate.Notes m tokens p index ↔ candidate.Accepts m tokens p index :=
    fun candidate hcandidate p index => or_iff_left (hfull candidate hcandidate p index)
  refine ⟨?_, ?_⟩
  · rw [htells.none_iff]
    constructor
    · exact fun h c hc p i hi => h c hc p i ((haccepts c hc p i).2 hi)
    · exact fun h c hc p i hi => h c hc p i ((haccepts c hc p i).1 hi)
  · intro p hlast
    rcases htells.usage_or_word p hlast with
      ⟨node, usage, index, hmem, hnotes, hgreatest⟩ | ⟨hquiet, front, node, back, hasked, hreach, -⟩
    · refine ⟨_, hmem, index, (haccepts _ hmem p index).1 hnotes, ?_⟩
      intro other hother q i hi
      cases other with
      | ofUsage other otherUsage =>
        exact hgreatest other otherUsage hother q i ((haccepts _ hother q i).2 hi)
      | subcommand other =>
        obtain ⟨further, furtherUsage, r, j, hfurther, hj, hle⟩ := hcovers other q i hother hi
        exact Nat.le_trans hle
          (hgreatest further furtherUsage hfurther r j ((haccepts _ hfurther r j).2 hj))
    · -- The word would be covered by a usage, but no usage notes anything.
      have hmem : .subcommand node ∈ m.asked tokens root := by
        rw [hasked]
        simp
      obtain ⟨slot, hslot, -⟩ :=
        isSome_reach?_iff.1 (Option.isSome_iff_exists.2 ⟨p, hreach⟩)
      obtain ⟨further, furtherUsage, r, j, hfurther, hj, -⟩ :=
        hcovers node p slot hmem (.word hslot hreach)
      exact (hquiet further furtherUsage hfurther r j ((haccepts _ hfurther r j).2 hj)).elim

/-- How far tokens got in the tree of a command is told by the deepest parameter of a
usage that was tried. That is the deepest parameter of all if no usage leaves a greedy
parameter to its fallback and usages cover the words that are reached. In a verified tree
they do if no token begins with a dash and every subcommand that is reached has usages. -/
theorem lastMatched_link (m : Matcher) (command : Command Act) (tokens : List String) :
    m.TellsDeepestOfUsages command.link tokens ∧
    ((∀ candidate ∈ m.asked tokens command.link, ∀ p index,
        ¬ candidate.LeavesEmpty m tokens p index) →
      m.CoversWords command.link tokens → m.TellsDeepest command.link tokens) ∧
    (command.verify = .ok () → (∀ token ∈ tokens, IsUndashed token) →
      (∀ node, .subcommand node ∈ m.asked tokens command.link →
        (m.reach? node tokens).isSome = true → node.effective ≠ []) →
      m.CoversWords command.link tokens) := by
  have htells : m.TellsDeepestOfUsages command.link tokens :=
    tellsDeepestOfUsages_of_isNumbered fun candidate hcandidate =>
      Candidate.isNumbered_of_mem_asked_link hcandidate
  exact ⟨htells, tellsDeepest_of_coversWords htells, fun hverify htokens husages =>
    Command.coversWords_of_undashed hverify htokens husages⟩

end Matcher

/-- A group, and a subcommand behind its name. -/
def regrouping : Command Unit where
  name := "group"
  usages := [.ofParameters [{ name := "group", kind := .required .string }]]
  children := [{
    name := "rename"
    attachment := .main
    usages := [.ofParameters [{ name := "title", kind := .required .string }]] }]

/-- The title is the deepest parameter of `admins rename mods`, behind the word. -/
theorem Matcher.lastMatched_link_regrouping :
    regrouping.verify = .ok () ∧
      Matcher.TellsDeepest {} regrouping.link ["admins", "rename", "mods"] := by
  have hverify : regrouping.verify = .ok () := rfl
  obtain ⟨child, usage, hasked, husages, hplain⟩ : ∃ (child : Node Unit) (usage : Usage Unit),
      Matcher.asked {} ["admins", "rename", "mods"] regrouping.link =
        [.subcommand child, .ofUsage child usage] ∧
      child.effective ≠ [] ∧ ∀ p ∈ usage.positional, p.isGreedy = false :=
    ⟨_, _, rfl, List.cons_ne_nil _ _, by decide⟩
  obtain ⟨-, htells, hcovers⟩ :=
    Matcher.lastMatched_link {} regrouping ["admins", "rename", "mods"]
  rw [hasked] at htells hcovers
  refine ⟨hverify, htells ?_ (hcovers hverify (by decide) ?_)⟩
  · rintro candidate hcandidate p index hempty
    rcases List.mem_pair.1 hcandidate with rfl | rfl
    · cases hempty
    · obtain ⟨hp, hgreedy⟩ := hempty.exists_isGreedy
      rw [hplain p hp] at hgreedy
      cases hgreedy
  · rintro node hnode -
    rcases List.mem_pair.1 hnode with heq | heq
    · obtain rfl := Candidate.subcommand.inj heq
      exact husages
    · cases heq

/-- Subcommands in two levels, without usages. -/
def nesting : Command Unit where
  name := "a"
  children := [{ name := "b", children := [{ name := "c" }] }]

/-- A command with a greedy parameter that may be left out. -/
def muttering : Command Unit where
  name := "mutter"
  usages := [.ofParameters [{ name := "reason", kind := .greedy (some (.value (.text ""))) }]]

/-- The word of a subcommand further down is reached, and the one in front of it stays
the last match; and a greedy parameter is the last match though there is no token. -/
theorem Matcher.not_tellsDeepest_nesting :
    nesting.verify = .ok () ∧ ¬ Matcher.TellsDeepest {} nesting.link ["b", "c"] ∧
    muttering.verify = .ok () ∧ ¬ Matcher.TellsDeepest {} muttering.link [] := by
  refine ⟨rfl, ?_, rfl, ?_⟩
  · rintro ⟨-, hdeepest⟩
    obtain ⟨outer, inner, first, second, hasked, hlast, houter, hinner, hfirst, hsecond, hname⟩ :
        ∃ (outer inner : Node Unit) (first second : Parameter),
          Matcher.asked {} ["b", "c"] nesting.link = [.subcommand outer, .subcommand inner] ∧
          (Matcher.select {} nesting.link ["b", "c"]).lastMatched = some first ∧
          outer.literalSlot? = some 0 ∧ inner.literalSlot? = some 1 ∧
          Matcher.reach? {} outer ["b", "c"] = some first ∧
          Matcher.reach? {} inner ["b", "c"] = some second ∧ first.name ≠ second.name :=
      ⟨_, _, _, _, rfl, rfl, rfl, rfl, rfl, rfl, by decide⟩
    obtain ⟨candidate, hcandidate, index, haccepts, hgreatest⟩ := hdeepest first hlast
    have hle := hgreatest (.subcommand inner) (by simp [hasked]) second 1 (.word hinner hsecond)
    rw [hasked, List.mem_pair] at hcandidate
    rcases hcandidate with rfl | rfl
    · cases haccepts with
      | word hslot hreach =>
        rw [houter] at hslot
        obtain rfl := Option.some.inj hslot
        omega
    · cases haccepts with
      | word hslot hreach =>
        rw [hsecond] at hreach
        exact hname (congrArg Parameter.name (Option.some.inj hreach).symm)
  · rintro ⟨-, hdeepest⟩
    obtain ⟨node, usage, reason, hasked, hlast, hallotted⟩ :
        ∃ (node : Node Unit) (usage : Usage Unit) (reason : Parameter),
          Matcher.asked {} [] muttering.link = [.ofUsage node usage] ∧
          (Matcher.select {} muttering.link []).lastMatched = some reason ∧
          node.allotted usage [] = [(reason, .greedy 0 0)] :=
      ⟨_, _, _, rfl, rfl, rfl⟩
    obtain ⟨candidate, hcandidate, index, haccepts, -⟩ := hdeepest reason hlast
    rw [hasked, List.mem_singleton] at hcandidate
    obtain rfl := hcandidate
    cases haccepts with
    | inUsage hslots hfront hfills =>
      rw [hallotted, eq_comm, List.append_eq_singleton_iff] at hslots
      rcases hslots with ⟨-, hpair⟩ | ⟨-, hpair⟩
      · obtain ⟨hpair, -⟩ := List.cons.inj hpair
        rw [(Prod.mk.inj hpair).2] at hfills
        exact Nat.lt_irrefl 0 hfills
      · cases hpair

end Parlance
