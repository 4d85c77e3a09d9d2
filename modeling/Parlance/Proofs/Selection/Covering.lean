import Parlance.Proofs.Completion.Offering
import Parlance.Proofs.Selection.Accepting

/-!
# Words that usages cover

The usages of a subcommand begin with its lead. So where no token begins with a dash, a
usage that is tried accepts the word that its subcommand was reached by once more, and
the words in front of it. If every subcommand that is reached has usages, then such a
usage is tried behind each word (`Command.coversWords_of_undashed`).
-/

set_option autoImplicit false

namespace Parlance

variable {Act : Type}

/-- For the word of each subcommand that is reached, a usage that is tried accepts a
token as far behind. -/
def Matcher.CoversWords (m : Matcher) (root : Node Act) (tokens : List String) : Prop :=
  ∀ node p slot, .subcommand node ∈ m.asked tokens root →
    (Candidate.subcommand node).Accepts m tokens p slot →
    ∃ other usage q i, .ofUsage other usage ∈ m.asked tokens root ∧
      (Candidate.ofUsage other usage).Accepts m tokens q i ∧ slot ≤ i

/-! ## Below a subcommand that is reached -/

namespace Matcher

variable {m : Matcher} {tokens : List String} {node child : Node Act}

theorem asked_subset_askedBelow {children : List (Node Act)}
    (hreach : (m.reach? child tokens).isSome = true)
    (ih : ∀ sibling ∈ children, .subcommand child ∈ m.asked tokens sibling →
      m.asked tokens child ⊆ m.asked tokens sibling)
    (h : .subcommand child ∈ m.askedBelow tokens children) :
    m.asked tokens child ⊆ m.askedBelow tokens children := by
  induction children with
  | nil => simp [askedBelow] at h
  | cons sibling children ihRest =>
    rw [List.forall_mem_cons] at ih
    rw [askedBelow, List.mem_cons] at h
    rw [askedBelow]
    refine List.subset_cons_of_subset _ ?_
    rcases h with heq | h
    · obtain rfl := Candidate.subcommand.inj heq
      rw [if_pos hreach]
      exact List.Subset.refl _
    · split at h
      · next hsibling =>
        rw [if_pos hsibling]
        exact ih.1 h
      · next hsibling =>
        rw [if_neg hsibling]
        exact ihRest ih.2 h

/-- A walk goes into every subcommand that it finds reached. -/
theorem asked_subset_of_reached (hreach : (m.reach? child tokens).isSome = true)
    (h : .subcommand child ∈ m.asked tokens node) :
    m.asked tokens child ⊆ m.asked tokens node := by
  induction node using Node.induct with
  | step node ih =>
    have husage : ∀ es : List (EffectiveUsage Act),
        .subcommand child ∉ upToFirst (Candidate.admits m tokens) (node.candidates es) := by
      intro es hmem
      obtain ⟨e, -, heq⟩ := List.mem_map.1 (mem_of_mem_upToFirst hmem)
      cases heq
    rw [asked_eq, List.mem_append, or_iff_right (husage _)] at h
    rw [asked_eq node]
    refine List.subset_append_of_subset_right _ ?_
    split at h
    · cases h
    · next hown =>
      rw [if_neg hown]
      rw [List.mem_append] at h
      rcases h with h | h
      · exact List.subset_append_of_subset_left _ (asked_subset_askedBelow hreach ih h)
      · split at h
        · cases h
        · exact absurd h (husage _)

/-- Of subcommands of which one is reached, one is asked and reached. -/
theorem exists_reached_of_any {children : List (Node Act)}
    (h : (children.any fun child => (m.reach? child tokens).isSome) = true) :
    ∃ child ∈ children, (m.reach? child tokens).isSome = true ∧
      .subcommand child ∈ m.askedBelow tokens children := by
  induction children with
  | nil => cases h
  | cons first children ih =>
    rw [askedBelow]
    cases hfirst : (m.reach? first tokens).isSome with
    | true => exact ⟨first, List.mem_cons_self, hfirst, List.mem_cons_self⟩
    | false =>
      rw [List.any_cons, hfirst, Bool.false_or] at h
      obtain ⟨child, hchild, hreach, hasked⟩ := ih h
      refine ⟨child, List.mem_cons_of_mem _ hchild, hreach, List.mem_cons_of_mem _ ?_⟩
      rw [if_neg Bool.false_ne_true]
      exact hasked

theorem mem_upToFirst_head {α : Type} {test : α → Bool} (x : α) (xs : List α) :
    x ∈ upToFirst test (x :: xs) := by
  rw [upToFirst]
  exact List.mem_cons_self

theorem asked_of_literalUsages_eq_nil (m : Matcher) (tokens : List String)
    (h : node.literalUsages = []) : m.asked tokens node =
    m.askedBelow tokens node.children ++
      if node.children.any fun child => (m.reach? child tokens).isSome then []
      else upToFirst (Candidate.admits m tokens) (node.candidates node.valueUsages) := by
  rw [asked_eq, h]
  rfl

/-- If a subcommand is reached, and it has usages as has every one reached below it, then
a usage is tried in the end: its own, or that of one below. -/
theorem exists_tried (hreach : (m.reach? node tokens).isSome = true) (hown : node.effective ≠ [])
    (hbelow : ∀ child, .subcommand child ∈ m.asked tokens node →
      (m.reach? child tokens).isSome = true → child.effective ≠ []) :
    ∃ trail last, node.Descent trail last ∧ (m.reach? last tokens).isSome = true ∧
      ∃ e ∈ last.effective, .ofUsage last e.usage ∈ m.asked tokens node := by
  induction node using Node.induct with
  | step node ih =>
    cases hliteral : node.literalUsages with
    | cons e rest =>
      have he : e ∈ node.literalUsages := hliteral ▸ List.mem_cons_self
      refine ⟨[], node, .here node, hreach, e, (List.mem_filter.1 he).1, ?_⟩
      rw [asked_eq, hliteral]
      exact List.mem_append_left _ (mem_upToFirst_head _ _)
    | nil =>
      have hasked := asked_of_literalUsages_eq_nil m tokens hliteral
      cases hany : node.children.any fun child => (m.reach? child tokens).isSome with
      | true =>
        obtain ⟨child, hchild, hreachChild, hmem⟩ := exists_reached_of_any hany
        have hmem : .subcommand child ∈ m.asked tokens node := by
          rw [hasked]
          exact List.mem_append_left _ hmem
        have hsubset := asked_subset_of_reached hreachChild hmem
        obtain ⟨trail, last, hdescent, hreachLast, e, he, htried⟩ :=
          ih child hchild hreachChild (hbelow child hmem hreachChild)
            fun below hasked => hbelow below (hsubset hasked)
        exact ⟨child :: trail, last, .down hchild hdescent, hreachLast, e, he, hsubset htried⟩
      | false =>
        -- Without fixed words of their own, all usages come after the subcommands.
        obtain ⟨e, he⟩ := List.exists_mem_of_ne_nil _ hown
        have hvalue : e ∈ node.valueUsages := by
          have hnone := List.filter_eq_nil_iff.1 hliteral e he
          exact List.mem_filter.2 ⟨he, by simpa using hnone⟩
        obtain ⟨first, rest, hfirst⟩ := List.exists_cons_of_ne_nil (List.ne_nil_of_mem hvalue)
        have hfirstMem : first ∈ node.valueUsages := hfirst ▸ List.mem_cons_self
        refine ⟨[], node, .here node, hreach, first, (List.mem_filter.1 hfirstMem).1, ?_⟩
        rw [hasked, hany, if_neg Bool.false_ne_true, hfirst]
        exact List.mem_append_right _ (mem_upToFirst_head _ _)

end Matcher

/-! ## Words in usages -/

namespace Node.IsSound

variable {m : Matcher} {tokens : List String} {node : Node Act}

/-- Where no token begins with a dash, a lead that accepts the first tokens is served by
them in every usage behind it. -/
theorem exists_served (hsound : node.IsSound) (htokens : ∀ token ∈ tokens, IsUndashed token)
    (hcount : node.positionalLead.length ≤ tokens.length)
    (haccepts : m.acceptsAll node.positionalLead tokens = true) (usage : Usage Act) :
    ∃ served rest, node.allotted (usage.behind node.lead) tokens = served ++ rest ∧
      served.length = node.positionalLead.length ∧
      ∀ pair ∈ served, m.Serves tokens pair.1 pair.2 ∧ ∃ index, pair.2 = .token index := by
  have hlength := Usage.length_numberFrom 0 node.positionalLead
  have hrequired : ∀ p ∈ Usage.numberFrom 0 node.positionalLead, p.isRequired = true :=
    fun p hp => Usage.isRequired_of_mem_numberFrom hsound.isRequired_positionalLead hp
  obtain ⟨later, hpositional⟩ : ∃ later, (usage.behind node.lead).positional =
      Usage.numberFrom 0 node.positionalLead ++ Usage.numberFrom later usage.positional := by
    rw [Usage.positional, Usage.behind, Usage.filter_numberFrom, List.filter_append]
    exact Usage.exists_numberFrom_append 0 _ _
  refine ⟨(Usage.numberFrom 0 node.positionalLead).zip
      ((List.range' 0 (Usage.numberFrom 0 node.positionalLead).length).map Slot.token),
    (Usage.numberFrom later usage.positional).zip (Slot.assignFrom tokens.length
      (0 + (Usage.numberFrom 0 node.positionalLead).length)
      (Usage.numberFrom later usage.positional)).1, ?_, by simp [hlength], ?_⟩
  · rw [Node.allotted, Node.tokensFor, TokenSplit.positional_of_undashed _ htokens, hpositional,
      Slot.assign, Slot.assignFrom_append_of_isRequired _ hrequired (by omega),
      List.zip_append (by simp)]
  · intro pair hpair
    refine ⟨Matcher.serves_of_acceptsAll (by omega) ?_ pair hpair, ?_⟩
    · rwa [List.drop_zero, Matcher.acceptsAll_numberFrom]
    · obtain ⟨index, -, heq⟩ := List.mem_map.1 (List.of_mem_zip hpair).2
      exact ⟨index, heq.symm⟩

/-- A usage of a subcommand that is reached accepts a token at the slot of its word. -/
theorem exists_accepts_of_reached (hsound : node.IsSound)
    (htokens : ∀ token ∈ tokens, IsUndashed token) {slot : Nat}
    (hslot : node.literalSlot? = some slot) (hreach : (m.reach? node tokens).isSome = true)
    {e : EffectiveUsage Act} (he : e ∈ node.effective) :
    ∃ p, (Candidate.ofUsage node e.usage).Accepts m tokens p slot := by
  obtain ⟨_, hword, hlt, haccepts⟩ := Matcher.isSome_reach?_iff.1 hreach
  obtain rfl := Option.some.inj (hslot.symm.trans hword)
  rw [TokenSplit.positional_of_undashed _ htokens] at hlt haccepts
  have hlead := Node.literalSlot?_eq_some_iff.1 hslot
  rw [hsound.effective, mem_arrange] at he
  obtain ⟨declared, -, heq⟩ := EffectiveUsage.exists_of_mem_behind he
  obtain ⟨served, rest, hallotted, hlength, hserved⟩ :=
    hsound.exists_served htokens (by omega) haccepts declared
  rcases List.eq_nil_or_concat' served with rfl | ⟨front, ⟨p, word⟩, rfl⟩
  · rw [List.length_nil] at hlength
    omega
  · rw [List.length_append, List.length_singleton] at hlength
    obtain rfl : front.length = slot := by omega
    have htokensFor : node.tokensFor e.usage tokens = tokens :=
      TokenSplit.positional_of_undashed _ htokens
    obtain ⟨hserves, index, hindex⟩ := hserved (p, word) (by simp)
    refine ⟨p, .inUsage (by rw [heq, hallotted, List.append_assoc]; rfl) ?_ ?_⟩
    · rw [htokensFor]
      exact fun pair hpair => (hserved pair (List.mem_append_left _ hpair)).1
    · rw [htokensFor]
      obtain rfl : word = .token index := hindex
      exact hserves

end Node.IsSound

/-! ## Linked trees -/

/-- If no token begins with a dash and every subcommand that is reached has usages, then
usages cover the words that are reached. -/
theorem Command.coversWords_of_undashed {m : Matcher} {command : Command Act}
    (hverify : command.verify = .ok ()) {tokens : List String}
    (htokens : ∀ token ∈ tokens, IsUndashed token)
    (husages : ∀ node, .subcommand node ∈ m.asked tokens command.link →
      (m.reach? node tokens).isSome = true → node.effective ≠ []) :
    m.CoversWords command.link tokens := by
  rintro node p slot hmem (_ | ⟨hslot, hreach⟩)
  have hreached : (m.reach? node tokens).isSome = true := Option.isSome_iff_exists.2 ⟨p, hreach⟩
  have hsubset := Matcher.asked_subset_of_reached hreached hmem
  obtain ⟨way, last, hbelow, hlast, e, he, htried⟩ :=
    Matcher.exists_tried hreached (husages node hmem hreached)
      fun child hchild => husages child (hsubset hchild)
  obtain ⟨trail, hdescent, -⟩ := Matcher.exists_of_usage_mem_asked (hsubset htried)
  have hsound := Command.isSoundTree_link hverify trail last hdescent
  -- The usage stands at the node or further down, so its lead goes on from the node's.
  obtain ⟨_, declared, path, lead, flags, hlinked⟩ := Matcher.exists_linkUnder_of_mem_asked hmem
  obtain ⟨more, hmore⟩ := hbelow.exists_positionalLead_eq hlinked
  obtain ⟨lastSlot, hlastSlot, -⟩ := Matcher.isSome_reach?_iff.1 hlast
  obtain ⟨q, haccepts⟩ := hsound.exists_accepts_of_reached htokens hlastSlot hlast he
  refine ⟨last, e.usage, q, lastSlot, hsubset htried, haccepts, ?_⟩
  rw [Node.literalSlot?_eq_some_iff] at hslot hlastSlot
  rw [hmore, List.length_append] at hlastSlot
  omega

end Parlance
