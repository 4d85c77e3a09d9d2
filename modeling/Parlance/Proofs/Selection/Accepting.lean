import Parlance.Proofs.Command.Lead
import Parlance.Proofs.Command.Passage
import Parlance.Proofs.Resolution.StoredNames
import Parlance.Proofs.Selection.Noting

/-!
# What candidates accept

A parameter of a usage accepts tokens at its index among the positional parameters, and
the word of a subcommand that is reached at its slot. In a linked tree the parameters of
usages are numbered by these indices, and the words of a lead are not numbered
(`Candidate.isNumbered_of_mem_asked_link`).
-/

set_option autoImplicit false

namespace Parlance

variable {Act : Type}

/-! ## Acceptances -/

/-- The slot gives the parameter tokens, and it takes them. -/
def Matcher.Fills (m : Matcher) (tokens : List String) (p : Parameter) : Slot → Prop
  | .token index => ∃ token, tokens[index]? = some token ∧ m.accepts p token = true
  | .greedy start stop => start < stop
  | .skipped | .missing => False

theorem Matcher.Fills.ne_skipped {m : Matcher} {tokens : List String} {p : Parameter}
    {slot : Slot} (h : m.Fills tokens p slot) : slot ≠ .skipped := by
  rintro rfl
  exact h

namespace Candidate

/-- The parameter accepts tokens at an index: in a usage that has rejected none so far,
or as the word of a subcommand that is reached. -/
inductive Accepts (m : Matcher) (tokens : List String) :
    Candidate Act → Parameter → Nat → Prop where
  | inUsage {node : Node Act} {usage : Usage Act} {front back : List (Parameter × Slot)}
      {p : Parameter} {slot : Slot}
      (hallotted : node.allotted usage tokens = front ++ (p, slot) :: back)
      (hfront : ∀ pair ∈ front, m.Serves (node.tokensFor usage tokens) pair.1 pair.2)
      (hfills : m.Fills (node.tokensFor usage tokens) p slot) :
      Accepts m tokens (.ofUsage node usage) p front.length
  | word {node : Node Act} {literal : Parameter} {slot : Nat}
      (hslot : node.literalSlot? = some slot) (hreach : m.reach? node tokens = some literal) :
      Accepts m tokens (.subcommand node) literal slot

/-- The greedy parameter is left to its fallback at an index, in a usage that has
rejected nothing so far. -/
inductive LeavesEmpty (m : Matcher) (tokens : List String) :
    Candidate Act → Parameter → Nat → Prop where
  | inUsage {node : Node Act} {usage : Usage Act} {front back : List (Parameter × Slot)}
      {p : Parameter} {start stop : Nat}
      (hallotted : node.allotted usage tokens = front ++ (p, .greedy start stop) :: back)
      (hfront : ∀ pair ∈ front, m.Serves (node.tokensFor usage tokens) pair.1 pair.2)
      (hempty : stop ≤ start) (hfallback : p.fallback?.isSome = true) :
      LeavesEmpty m tokens (.ofUsage node usage) p front.length

/-- The candidate notes the parameter at an index, with tokens or without. -/
def Notes (m : Matcher) (tokens : List String) (candidate : Candidate Act) (p : Parameter)
    (index : Nat) : Prop :=
  candidate.Accepts m tokens p index ∨ candidate.LeavesEmpty m tokens p index

end Candidate

namespace Candidate

variable {m : Matcher} {tokens : List String} {p : Parameter}

theorem serves_iff_of_ne_skipped {slot : Slot} (hskipped : slot ≠ .skipped) :
    m.Serves tokens p slot ↔ m.Fills tokens p slot ∨
      ∃ start stop, slot = .greedy start stop ∧ stop ≤ start ∧ p.fallback?.isSome = true := by
  cases slot with
  | token index => simp [Matcher.Serves, Matcher.Fills]
  | skipped => exact absurd rfl hskipped
  | greedy start stop =>
    simp only [Matcher.Serves, Matcher.Fills, Slot.greedy.injEq]
    constructor
    · rintro (hlt | hfallback)
      · exact .inl hlt
      · rcases Nat.lt_or_ge start stop with hlt | hle
        · exact .inl hlt
        · exact .inr ⟨start, stop, ⟨rfl, rfl⟩, hle, hfallback⟩
    · rintro (hlt | ⟨_, _, -, -, hfallback⟩)
      · exact .inl hlt
      · exact .inr hfallback
  | missing => simp [Matcher.Serves, Matcher.Fills]

/-- What a candidate notes, it notes at some index. -/
theorem mem_noted_iff {candidate : Candidate Act} :
    p ∈ candidate.noted m tokens ↔ ∃ index, candidate.Notes m tokens p index := by
  cases candidate with
  | ofUsage node usage =>
    have hfit : p ∈ (Candidate.ofUsage node usage).noted m tokens ↔
        p ∈ (m.fit (node.tokensFor usage tokens) (node.allotted usage tokens)).2 := Iff.rfl
    rw [hfit, Matcher.mem_fit_snd_iff]
    constructor
    · rintro ⟨front, slot, back, hallotted, hfront, hserves, hskipped⟩
      rcases (serves_iff_of_ne_skipped hskipped).1 hserves with
        hfills | ⟨start, stop, rfl, hempty, hfallback⟩
      · exact ⟨front.length, .inl (.inUsage hallotted hfront hfills)⟩
      · exact ⟨front.length, .inr (.inUsage hallotted hfront hempty hfallback)⟩
    · rintro ⟨index, haccepts | hempty⟩
      · cases haccepts with
        | inUsage hallotted hfront hfills =>
          have hskipped := hfills.ne_skipped
          exact ⟨_, _, _, hallotted, hfront,
            (serves_iff_of_ne_skipped hskipped).2 (.inl hfills), hskipped⟩
      · cases hempty with
        | inUsage hallotted hfront hempty hfallback =>
          exact ⟨_, _, _, hallotted, hfront, .inr hfallback, by simp⟩
  | subcommand node =>
    rw [noted, Option.mem_toList]
    constructor
    · intro hreach
      obtain ⟨slot, hslot, -⟩ :=
        Matcher.isSome_reach?_iff.1 (Option.isSome_iff_exists.2 ⟨p, hreach⟩)
      exact ⟨slot, .inl (.word hslot hreach)⟩
    · rintro ⟨index, haccepts | hempty⟩
      · cases haccepts with
        | word hslot hreach => exact hreach
      · cases hempty

/-- Only greedy parameters are left empty. -/
theorem LeavesEmpty.exists_isGreedy {node : Node Act} {usage : Usage Act} {index : Nat}
    (h : (Candidate.ofUsage node usage).LeavesEmpty m tokens p index) :
    p ∈ usage.positional ∧ p.isGreedy = true := by
  cases h with
  | @inUsage _ _ front back _ start stop hallotted =>
    have hmem : (p, Slot.greedy start stop) ∈ node.allotted usage tokens := by
      rw [hallotted]
      simp
    exact ⟨(List.of_mem_zip hmem).1, Slot.isGreedy_of_mem_zip_assignFrom hmem⟩

end Candidate

/-! ## Candidates of a linked tree -/

theorem mem_of_mem_upToFirst {α : Type} {test : α → Bool} {xs : List α} {x : α}
    (h : x ∈ upToFirst test xs) : x ∈ xs := by
  induction xs with
  | nil => exact h
  | cons y ys ih =>
    rw [upToFirst, List.mem_cons] at h
    rcases h with rfl | h
    · exact List.mem_cons_self
    · split at h
      · cases h
      · exact List.mem_cons_of_mem _ (ih h)

namespace Matcher

variable {m : Matcher} {tokens : List String}

theorem exists_of_mem_askedBelow {children : List (Node Act)} {candidate : Candidate Act}
    (h : candidate ∈ m.askedBelow tokens children) :
    ∃ child ∈ children, candidate = .subcommand child ∨ candidate ∈ m.asked tokens child := by
  induction children with
  | nil => simp [askedBelow] at h
  | cons child children ih =>
    rw [askedBelow, List.mem_cons] at h
    rcases h with rfl | h
    · exact ⟨child, List.mem_cons_self, .inl rfl⟩
    · split at h
      · exact ⟨child, List.mem_cons_self, .inr h⟩
      · obtain ⟨other, hother, hcandidate⟩ := ih h
        exact ⟨other, List.mem_cons_of_mem _ hother, hcandidate⟩

/-- What a walk asks are usages of nodes below the one where it began, and subcommands of
such nodes. -/
theorem exists_of_mem_asked {root : Node Act} {candidate : Candidate Act}
    (h : candidate ∈ m.asked tokens root) : ∃ trail node, root.Descent trail node ∧
      ((∃ e ∈ node.effective, candidate = .ofUsage node e.usage) ∨
        ∃ child ∈ node.children, candidate = .subcommand child) := by
  induction root using Node.induct with
  | step root ih =>
    have hown : ∀ es : List (EffectiveUsage Act), (∀ e ∈ es, e ∈ root.effective) →
        candidate ∈ upToFirst (Candidate.admits m tokens) (root.candidates es) →
        ∃ e ∈ root.effective, candidate = .ofUsage root e.usage := by
      intro es hes hmem
      obtain ⟨e, he, rfl⟩ := List.mem_map.1 (mem_of_mem_upToFirst hmem)
      exact ⟨e, hes e he, rfl⟩
    rw [asked_eq, List.mem_append] at h
    rcases h with h | h
    · exact ⟨[], root, .here root, .inl (hown _ (fun e he => (List.mem_filter.1 he).1) h)⟩
    split at h
    · cases h
    rw [List.mem_append] at h
    rcases h with h | h
    · obtain ⟨child, hchild, rfl | hbelow⟩ := exists_of_mem_askedBelow h
      · exact ⟨[], root, .here root, .inr ⟨child, hchild, rfl⟩⟩
      · obtain ⟨trail, node, hdescent, hcandidate⟩ := ih child hchild hbelow
        exact ⟨child :: trail, node, .down hchild hdescent, hcandidate⟩
    · split at h
      · cases h
      · exact ⟨[], root, .here root, .inl (hown _ (fun e he => (List.mem_filter.1 he).1) h)⟩

theorem exists_of_usage_mem_asked {root node : Node Act} {usage : Usage Act}
    (h : .ofUsage node usage ∈ m.asked tokens root) :
    ∃ trail, root.Descent trail node ∧ ∃ e ∈ node.effective, e.usage = usage := by
  obtain ⟨trail, other, hdescent, ⟨e, he, heq⟩ | ⟨_, -, heq⟩⟩ := exists_of_mem_asked h
  · obtain ⟨rfl, rfl⟩ := Candidate.ofUsage.inj heq
    exact ⟨trail, hdescent, e, he, rfl⟩
  · cases heq

/-- A subcommand that a walk asks is linked behind its parent. -/
theorem exists_linkUnder_of_mem_asked {command : Command Act} {node : Node Act}
    (h : .subcommand node ∈ m.asked tokens command.link) :
    ∃ (parent : Declaration Act) (declared : Command Act) (path : List String)
      (lead : List Parameter) (flags : List Flag),
      node = declared.linkUnder path (leadTo lead parent declared.toDeclaration) flags := by
  obtain ⟨trail, upper, hdescent, ⟨_, -, heq⟩ | ⟨child, hchild, heq⟩⟩ := exists_of_mem_asked h
  · cases heq
  · obtain rfl := Candidate.subcommand.inj heq
    obtain ⟨above, parent, path, -, rfl⟩ := Command.exists_passage_of_descent hdescent rfl
    rw [Command.children_linkUnder, List.mem_map] at hchild
    obtain ⟨declared, -, hlinked⟩ := hchild
    exact ⟨parent.toDeclaration, declared, _, _, _, hlinked.symm⟩

end Matcher

namespace Candidate

/-- What the candidate notes in a usage is numbered by its index, and a word is not
numbered. -/
def IsNumbered (m : Matcher) (tokens : List String) (candidate : Candidate Act) : Prop :=
  match candidate with
  | .ofUsage _ _ => ∀ p index, candidate.Notes m tokens p index → p.depth = index + 1
  | .subcommand _ => ∀ p index, candidate.Notes m tokens p index → p.depth = 0

theorem depth_of_allotted {node : Node Act} {usage : Usage Act} {lead : List Parameter}
    {tokens : List String} {front back : List (Parameter × Slot)} {p : Parameter} {slot : Slot}
    (h : node.allotted (usage.behind lead) tokens = front ++ (p, slot) :: back) :
    p.depth = front.length + 1 := by
  have hpair : (node.allotted (usage.behind lead) tokens)[front.length]? = some (p, slot) := by
    rw [h, List.getElem?_append_right (Nat.le_refl _), Nat.sub_self]
    rfl
  rw [Node.allotted, List.getElem?_zip_eq_some] at hpair
  rw [Parameter.depth, Usage.position_of_positional_behind hpair.1]

theorem depth_of_reach? {node : Node Act} {declared : Declaration Act} {front : List Parameter}
    {m : Matcher} {tokens : List String} {p : Parameter}
    (hlead : node.positionalLead = front ++ [declared.literal])
    (h : m.reach? node tokens = some p) : p.depth = 0 := by
  have hslot := Node.literalSlot?_of_positionalLead_eq hlead
  unfold Matcher.reach? at h
  rw [hslot, hlead] at h
  simp only [List.getElem?_concat_length] at h
  split at h
  · obtain rfl := Option.some.inj h
    rfl
  · cases h

/-- Whatever is asked in a linked tree is numbered. -/
theorem isNumbered_of_mem_asked_link {m : Matcher} {tokens : List String} {command : Command Act}
    {candidate : Candidate Act} (h : candidate ∈ m.asked tokens command.link) :
    candidate.IsNumbered m tokens := by
  cases candidate with
  | ofUsage node usage =>
    obtain ⟨trail, hdescent, e, he, rfl⟩ := Matcher.exists_of_usage_mem_asked h
    obtain ⟨above, below, path, -, rfl⟩ := Command.exists_passage_of_descent hdescent rfl
    rw [Command.effective_linkUnder, mem_arrange] at he
    obtain ⟨declared, -, heq⟩ := EffectiveUsage.exists_of_mem_behind he
    rw [heq]
    rintro p index (haccepts | hempty)
    · cases haccepts with
      | inUsage hallotted => exact depth_of_allotted hallotted
    · cases hempty with
      | inUsage hallotted => exact depth_of_allotted hallotted
  | subcommand node =>
    obtain ⟨parent, declared, path, lead, flags, rfl⟩ := Matcher.exists_linkUnder_of_mem_asked h
    rintro p index (haccepts | hempty)
    · cases haccepts with
      | word hslot hreach => exact depth_of_reach? (Command.positionalLead_leadTo parent) hreach
    · cases hempty

end Candidate

end Parlance
