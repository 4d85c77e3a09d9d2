import Parlance.Proofs.Command.Lead
import Parlance.Proofs.Resolution.Agreement
import Parlance.Proofs.Resolution.StoredNames

/-!
# Usages as they are seen from the root

Linking puts what leads to a node in front of each of its usages and numbers the whole
anew. In the tree of a verified command every such usage is laid out in the order of its
tokens, and the part that leads to the node has a fixed width: the token of each index
goes to the parameter of that index, up to the word of the node
(`Command.laidOut_of_verify`). Matching, resolution and completion all rely on it.
-/

set_option autoImplicit false

namespace Parlance

variable {Act : Type}

/-! ## Layout -/

/-- Positional parameters are counted off from zero, and none stands behind a greedy
one. -/
structure Usage.IsLaidOut (usage : Usage Act) : Prop where
  numbered : ∀ (index : Nat) (p : Parameter), usage.positional[index]? = some p →
    p.position = some index
  unnumbered : ∀ p ∈ usage.parameters, p.isFlag = true → p.position = none
  oneGreedy : usage.positional.countP Parameter.isGreedy ≤ 1
  greedyLast : ∀ p ∈ usage.positional.dropLast, p.isGreedy = false

/-- The usage begins with what leads to the node, up to the positional parameter of
index `slot`, which is the word of the node. -/
structure Node.LeadsInto (node : Node Act) (slot : Nat) (usage : Usage Act) : Prop where
  lead : usage.positional.take (slot + 1) = Usage.numberFrom 0 node.positionalLead
  required : ∀ p ∈ usage.positional.take (slot + 1), p.isRequired = true
  word : usage.positional[slot]? = some { node.literal with position := some slot }
  given : ∀ count, slot < count → ∀ index, index ≤ slot →
    (Slot.assign usage.positional count).1[index]? = some (.token index)

theorem countP_le_one_of_dropLast {α : Type} {f : α → Bool} {xs : List α}
    (h : ∀ x ∈ xs.dropLast, f x = false) : xs.countP f ≤ 1 := by
  rcases List.eq_nil_or_concat' xs with rfl | ⟨front, last, rfl⟩
  · simp
  · rw [List.dropLast_concat] at h
    have hfront : front.countP f = 0 := by
      rw [List.countP_eq_zero]
      intro x hx
      simp [h x hx]
    have hlast : [last].countP f ≤ 1 := List.countP_le_length
    rw [List.countP_append]
    omega

/-- A greedy parameter that is the last of a usage stays the last behind a lead. -/
theorem Usage.greedyLast_behind {usage : Usage Act}
    (h : ∀ p ∈ usage.positional.dropLast, p.isGreedy = false) {lead : List Parameter}
    (hlead : ∀ p ∈ lead, p.isFlag = false → p.isRequired = true) :
    ∀ p ∈ (usage.behind lead).positional.dropLast, p.isGreedy = false := by
  have hplain : ∀ p ∈ lead.filter fun p => !p.isFlag, p.isGreedy = false := by
    intro p hp
    obtain ⟨hmem, hflag⟩ := List.mem_filter.1 hp
    have hsingle : p.IsSingle := .inr (hlead p hmem (by simpa using hflag))
    exact hsingle.isGreedy_eq_false
  intro p hp
  rw [positional_behind, dropLast_numberFrom] at hp
  obtain ⟨q, hq, heq⟩ := exists_of_mem_numberFrom hp
  have hgreedy : p.isGreedy = q.isGreedy := by
    rw [heq]
    rfl
  rw [hgreedy]
  cases hown : usage.positional with
  | nil =>
    rw [hown, List.append_nil] at hq
    exact hplain q (List.dropLast_subset _ hq)
  | cons first rest =>
    have hne : usage.positional ≠ [] := by simp [hown]
    rw [List.dropLast_append_of_ne_nil hne] at hq
    rcases List.mem_append.1 hq with hq | hq
    · exact hplain q hq
    · exact h q hq

/-- A consistent usage, or an empty one, is laid out behind a lead of fixed width. -/
theorem Usage.isLaidOut_behind {usage : Usage Act}
    (h : ∀ p ∈ usage.positional.dropLast, p.isGreedy = false) {lead : List Parameter}
    (hlead : ∀ p ∈ lead, p.isFlag = false → p.isRequired = true) :
    (usage.behind lead).IsLaidOut where
  numbered _ _ hp := position_of_positional_behind hp
  unnumbered _ hp hflag := position_of_isFlag_of_mem_numberFrom hp hflag
  oneGreedy := countP_le_one_of_dropLast (greedyLast_behind h hlead)
  greedyLast := greedyLast_behind h hlead

/-! ## The part that leads to a node -/

/-- The lead of a node below the root ends with the word of the node. -/
theorem Node.Descent.exists_positionalLead_eq_append {root node : Node Act}
    {trail : List (Node Act)} (hdescent : root.Descent trail node) (htrail : trail ≠ [])
    {command : Command Act} {above : List String} {lead : List Parameter} {flags : List Flag}
    (hroot : root = command.linkUnder above lead flags) :
    ∃ front, node.positionalLead = front ++ [node.literal] := by
  induction hdescent generalizing command above lead flags with
  | here => exact absurd rfl htrail
  | @down node child last trail hchild below ih =>
    rw [hroot, Command.children_linkUnder, List.mem_map] at hchild
    obtain ⟨declared, -, hlinked⟩ := hchild
    cases below with
    | here =>
      rw [← hlinked, Command.positionalLead_leadTo, Command.toDeclaration_linkUnder]
      exact ⟨_, rfl⟩
    | down hnext below => exact ih (List.cons_ne_nil _ _) hlinked.symm

/-- Below the root of a verified command no node is a root. -/
theorem Command.isRoot_iff_of_descent {command : Command Act} (hverify : command.verify = .ok ())
    {trail : List (Node Act)} {node : Node Act} (hdescent : command.link.Descent trail node) :
    node.isRoot = true ↔ trail = [] := by
  have hpath := (isSoundTree_link hverify).path_eq hdescent
  rw [link, path_linkUnder] at hpath
  rw [Node.isRoot, hpath]
  cases trail <;> simp

/-- Behind a lead that ends with the word of the node, every usage begins with what
leads to the node. -/
theorem Node.leadsInto_behind {node : Node Act} {front : List Parameter}
    (hlead : node.positionalLead = front ++ [node.literal])
    (hrequired : ∀ p ∈ node.positionalLead, p.isRequired = true) (usage : Usage Act) :
    node.LeadsInto front.length (usage.behind node.lead) := by
  have hplain : ∀ p ∈ node.positionalLead, p.isFlag = false :=
    fun p hp => by simpa using (List.mem_filter.1 hp).2
  have hrow : (usage.behind node.lead).positional = Usage.numberFrom 0 node.positionalLead ++
      Usage.numberFrom (0 + node.positionalLead.length) usage.positional := by
    rw [Usage.positional_behind]
    exact Usage.numberFrom_append_of_positional hplain 0 usage.positional
  have hlength : (Usage.numberFrom 0 node.positionalLead).length = front.length + 1 := by
    rw [Usage.length_numberFrom, hlead, List.length_append, List.length_singleton]
  have hfront : ∀ p ∈ Usage.numberFrom 0 node.positionalLead, p.isRequired = true :=
    fun p hp => Usage.isRequired_of_mem_numberFrom hrequired hp
  have htake : (usage.behind node.lead).positional.take (front.length + 1) =
      Usage.numberFrom 0 node.positionalLead := by
    rw [hrow, ← hlength, List.take_left]
  refine ⟨htake, ?_, ?_, ?_⟩
  · rw [htake]
    exact hfront
  · have hword : Usage.numberFrom 0 node.positionalLead =
        Usage.numberFrom 0 front ++ [{ node.literal with position := some front.length }] := by
      have hplainFront : ∀ p ∈ front, p.isFlag = false :=
        fun p hp => hplain p (by rw [hlead]; exact List.mem_append_left _ hp)
      rw [hlead, Usage.numberFrom_append_of_positional hplainFront, Nat.zero_add]
      rfl
    have hindex : front.length < (Usage.numberFrom 0 node.positionalLead).length := by omega
    rw [hrow, List.getElem?_append_left hindex, hword, ← Usage.length_numberFrom 0 front,
      List.getElem?_concat_length]
  · intro count hcount index hindex
    rw [hrow]
    exact Slot.getElem?_assign_append _ hfront (by omega) (by omega)

/-! ## Verified commands -/

/-- Wherever a node stands in the tree of a verified command, each of its usages, the
default one included, is laid out, and if the node is not the root, the usage begins with
what leads to the node. -/
theorem Command.laidOut_of_verify {command : Command Act} (hverify : command.verify = .ok ())
    {trail : List (Node Act)} {node : Node Act} (hdescent : command.link.Descent trail node)
    {usage : Usage Act} (husage : node.Offers usage) :
    usage.IsLaidOut ∧ (node.isRoot = false →
      ∃ slot, node.literalSlot? = some slot ∧ node.LeadsInto slot usage) := by
  have hsound := isSoundTree_link hverify trail node hdescent
  obtain ⟨declared, hdeclared, rfl⟩ := hsound.exists_behind husage
  have hgreedy : ∀ p ∈ declared.positional.dropLast, p.isGreedy = false := by
    rcases hdeclared with hdeclared | rfl
    · exact (hsound.usages declared hdeclared).greedyLast
    · rw [Usage.positional, hsound.defaultEmpty]
      simp
  refine ⟨Usage.isLaidOut_behind hgreedy hsound.leadRequired, ?_⟩
  intro hroot
  have htrail : trail ≠ [] := by
    intro htrail
    rw [(isRoot_iff_of_descent hverify hdescent).2 htrail] at hroot
    cases hroot
  obtain ⟨front, hfront⟩ := hdescent.exists_positionalLead_eq_append htrail rfl
  refine ⟨front.length, Node.literalSlot?_of_positionalLead_eq hfront, ?_⟩
  exact Node.leadsInto_behind hfront hsound.isRequired_positionalLead declared

/-- A shelf whose books stand behind a shelf and a row, with a switch in between, and can
be lent to somebody, with a note. -/
def shelving : Command Unit where
  name := "shelf"
  usages := [.ofParameters [{ name := "shelf", kind := .required .string },
    { name := "quiet", kind := .flag ["q"] none none },
    { name := "row", kind := .required .integer }]]
  children := [{
    name := "book"
    aliases := ["volume"]
    attachment := .main
    children := [{
      name := "lend"
      aliases := ["give"]
      usages := [.ofParameters [{ name := "reader", kind := .required .string },
        { name := "note", kind := .greedy none }]] }] }]

/-- Lending has its word in the fourth place, behind the shelf, the row and the book, and
the switch is not counted. -/
theorem Command.laidOut_of_verify_shelving :
    ∃ (trail : List (Node Unit)) (node : Node Unit) (usage : Usage Unit),
      shelving.verify = .ok () ∧ shelving.link.Descent trail node ∧ node.Offers usage ∧
      node.isRoot = false ∧
      usage.parameters.map Parameter.position =
        [some 0, none, some 1, some 2, some 3, some 4, some 5] ∧
      usage.IsLaidOut ∧ node.literalSlot? = some 3 ∧ node.LeadsInto 3 usage := by
  have hverify : shelving.verify = .ok () := rfl
  obtain ⟨book, hbook, lend, hlend, e, heffective, hroot, hpositions, hslot⟩ :
      ∃ book, shelving.link.children = [book] ∧ ∃ lend, book.children = [lend] ∧
        ∃ e, lend.effective = [e] ∧ lend.isRoot = false ∧
          e.usage.parameters.map Parameter.position =
            [some 0, none, some 1, some 2, some 3, some 4, some 5] ∧
          lend.literalSlot? = some 3 :=
    ⟨_, rfl, _, rfl, _, rfl, rfl, rfl, rfl⟩
  have hdescent : shelving.link.Descent [book, lend] lend :=
    .down (by simp [hbook]) (.down (by simp [hlend]) (.here lend))
  have hoffers : lend.Offers e.usage := .inl ⟨e, by simp [heffective], rfl⟩
  obtain ⟨hlaid, hleads⟩ := Command.laidOut_of_verify hverify hdescent hoffers
  obtain ⟨slot, hfound, hinto⟩ := hleads hroot
  obtain rfl : slot = 3 := Option.some.inj (hfound.symm.trans hslot)
  exact ⟨[book, lend], lend, e.usage, hverify, hdescent, hoffers, hroot, hpositions, hlaid,
    hslot, hinto⟩

end Parlance
