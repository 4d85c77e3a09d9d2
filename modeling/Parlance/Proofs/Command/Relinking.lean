import Parlance.Command.Relink
import Parlance.Proofs.Command.Passage
import Parlance.Proofs.Selection.Priority

/-!
# Linking again

Linking writes over all that linking wrote before, so a tree that is linked again is the
tree of its declared commands, whatever became of it in between (`Node.relink_eq_link`).
Every node of it is in its place: its path, its free flags and its lead are told by the way
to it, and its usages are arranged by their fixed words (`Node.IsInPlace`).
-/

set_option autoImplicit false

namespace Parlance

variable {Act : Type}

/-! ## Declared trees -/

namespace Node

@[simp] theorem toDeclaration_declared (node : Node Act) :
    node.declared.toDeclaration = node.toDeclaration := by
  cases node
  rfl

mutual

theorem declared_unlinked : ∀ command : Command Act, command.unlinked.declared = command
  | ⟨d, children⟩ => by
    simp only [Command.unlinked, declared]
    rw [declaredAll_unlinkedAll]

theorem declaredAll_unlinkedAll : ∀ children : List (Command Act),
    declaredAll (Command.unlinkedAll children) = children
  | [] => rfl
  | child :: children => by
    simp only [Command.unlinkedAll, declaredAll]
    rw [declared_unlinked, declaredAll_unlinkedAll]

end

/-! ## Linking in place -/

mutual

/-- No datum that linking wrote before is read again. -/
theorem relinkUnder_eq (above : List String) (lead : List Parameter) (inherited : List Flag) :
    ∀ node : Node Act,
      node.relinkUnder above lead inherited = node.declared.linkUnder above lead inherited
  | ⟨d, path, oldLead, scopeFlags, effective, effectiveDefault, children⟩ => by
    simp only [relinkUnder, declared, Command.linkUnder, relinkAll_eq]
    rfl

theorem relinkAll_eq (parent : Node Act) : ∀ children : List (Node Act),
    relinkAll parent children = Command.linkAll parent.path parent.lead parent.scopeFlags
      parent.toDeclaration (declaredAll children)
  | [] => rfl
  | child :: children => by
    simp only [relinkAll, declaredAll, Command.linkAll]
    rw [relinkUnder_eq, relinkAll_eq, toDeclaration_declared]

end

/-- A tree that is linked again is the tree of its declared commands. -/
theorem relink_eq_link (node : Node Act) : node.relink = node.declared.link :=
  relinkUnder_eq [] [] [] node

end Node

/-! ## Nodes in their place -/

theorem EffectiveUsage.behind_eq_map (lead : List Parameter) (index : Nat)
    (usages : List (Usage Act)) : behind lead index usages =
      (usages.zipIdx index).map fun entry =>
        ⟨entry.1.behind lead, entry.2, entry.1.literalCount⟩ := by
  induction usages generalizing index with
  | nil => rfl
  | cons usage usages ih => rw [behind, ih, List.zipIdx_cons, List.map_cons]

theorem EffectiveUsage.pairwise_behind (lead : List Parameter) (index : Nat)
    (usages : List (Usage Act)) :
    (behind lead index usages).Pairwise fun a b => a.declaredIndex < b.declaredIndex := by
  induction usages generalizing index with
  | nil => exact List.Pairwise.nil
  | cons usage usages ih =>
    refine List.pairwise_cons.2 ⟨fun e he => ?_, ih (index + 1)⟩
    rw [behind_eq_map] at he
    obtain ⟨⟨other, position⟩, hmem, rfl⟩ := List.mem_map.1 he
    exact List.le_snd_of_mem_zipIdx hmem

/-- The node, reached by the way from the root that ends with it, has what linking gives it
there. -/
structure Node.IsInPlace (way : List (Node Act)) (node : Node Act) : Prop where
  path : node.path = way.map fun upper => upper.name
  lead : node.lead = Command.leadAlong (way.map Node.declared)
  scopeFlags : node.scopeFlags = way.flatMap fun upper => upper.freeFlags.map Flag.freed
  /-- Each declared usage is there once, behind the lead. -/
  usages : node.effective.Perm (node.usages.zipIdx.map fun entry =>
    ⟨entry.1.behind node.lead, entry.2, entry.1.literalCount⟩)
  /-- Those with most fixed words of their own are first, and the others in declared order. -/
  order : node.effective.Pairwise fun a b => b.ownLiterals < a.ownLiterals ∨
    (a.ownLiterals = b.ownLiterals ∧ a.declaredIndex < b.declaredIndex)
  effectiveDefault : node.effectiveDefault = node.defaultUsage.behind node.lead

namespace Command

theorem effective_linkUnder_order (above : List String) (lead : List Parameter)
    (flags : List Flag) (command : Command Act) :
    (command.linkUnder above lead flags).effective.Pairwise fun a b =>
      b.ownLiterals < a.ownLiterals ∨
        (a.ownLiterals = b.ownLiterals ∧ a.declaredIndex < b.declaredIndex) := by
  rw [effective_linkUnder]
  refine (EffectiveUsage.pairwise_arrange_ownLiterals
    (EffectiveUsage.pairwise_behind lead 0 command.usages)).imp ?_
  rintro a b ⟨hle, hstable⟩
  rcases Nat.lt_or_eq_of_le hle with hlt | heq
  · exact .inl hlt
  · exact .inr ⟨heq.symm, hstable (Nat.le_of_eq heq.symm)⟩

/-- What linking hands down is told by the nodes on the way. -/
theorem handed_down_of_descent {root last : Node Act} {trail : List (Node Act)}
    (hdescent : root.Descent trail last) {command : Command Act} {path : List String}
    {lead : List Parameter} {flags : List Flag} (hroot : root = command.linkUnder path lead flags) :
    last.path = path ++ ((root :: trail).map fun upper => upper.name) ∧
    last.lead = lead ++ leadAlong ((root :: trail).map Node.declared) ∧
    last.scopeFlags =
      flags ++ ((root :: trail).flatMap fun upper => upper.freeFlags.map Flag.freed) ∧
    ∃ (below : Command Act) (path : List String) (flags : List Flag),
      last = below.linkUnder path last.lead flags := by
  induction hdescent generalizing command path lead flags with
  | here node =>
    subst hroot
    refine ⟨?_, ?_, ?_, command, path, flags, ?_⟩ <;> simp [leadAlong]
  | @down node child last trail hchild below ih =>
    have hname : node.toDeclaration = command.toDeclaration := by
      rw [hroot, toDeclaration_linkUnder]
    rw [hroot, children_linkUnder, List.mem_map] at hchild
    obtain ⟨declared, -, hlinked⟩ := hchild
    have hchildName : child.toDeclaration = declared.toDeclaration := by
      rw [← hlinked, toDeclaration_linkUnder]
    obtain ⟨hpath, hlead, hscope, hbelow⟩ := ih hlinked.symm
    refine ⟨?_, ?_, ?_, hbelow⟩
    · rw [hpath, List.map_cons (a := node), hname, List.append_assoc]
      rfl
    · rw [hlead, leadTo_eq]
      simp only [List.map_cons, leadAlong, Node.toDeclaration_declared, hname, hchildName,
        List.append_assoc, List.singleton_append]
    · rw [hscope, List.flatMap_cons (x := node), hname, List.append_assoc]

/-- Every node of a linked tree is in its place. -/
theorem isInPlace_of_descent {command : Command Act} {trail : List (Node Act)}
    {node : Node Act} (hdescent : command.link.Descent trail node) :
    node.IsInPlace (command.link :: trail) := by
  obtain ⟨hpath, hlead, hscope, below, path, flags, hlinked⟩ := handed_down_of_descent hdescent rfl
  rw [List.nil_append] at hpath hlead hscope
  refine ⟨hpath, hlead, hscope, ?_, ?_, ?_⟩
  · rw [hlinked, effective_linkUnder, toDeclaration_linkUnder, lead_linkUnder,
      ← EffectiveUsage.behind_eq_map]
    exact arrange_perm _ _
  · rw [hlinked]
    exact effective_linkUnder_order _ _ _ _
  · rw [hlinked, effectiveDefault_linkUnder, toDeclaration_linkUnder, lead_linkUnder]

end Command

/-! ## Whatever was linked before -/

/-- Linking a tree again gives the tree of its declared commands, and so it does for a copy
that was never linked, for the result, and for any other tree with the same declared
commands. Every node of the result is in its place. -/
theorem Node.relink_determined (node : Node Act) :
    node.relink = node.declared.link ∧
    node.relink = node.declared.unlinked.relink ∧
    node.relink.relink = node.relink ∧
    node.relink.declared = node.declared ∧
    (∀ other : Node Act, other.declared = node.declared → other.relink = node.relink) ∧
    ∀ trail last, node.relink.Descent trail last → last.IsInPlace (node.relink :: trail) ∧
      ∀ flag ∈ last.scopeFlags, flag.free = true := by
  have hlink := node.relink_eq_link
  have hdeclared : node.relink.declared = node.declared := by
    rw [hlink, Command.declared_link]
  refine ⟨hlink, ?_, ?_, hdeclared, ?_, ?_⟩
  · rw [hlink, relink_eq_link, declared_unlinked]
  · rw [relink_eq_link node.relink, hdeclared, hlink]
  · intro other hsame
    rw [hlink, relink_eq_link, hsame]
  · intro trail last hdescent
    rw [hlink] at hdescent ⊢
    have hplace := Command.isInPlace_of_descent hdescent
    refine ⟨hplace, ?_⟩
    intro flag hflag
    rw [hplace.scopeFlags] at hflag
    obtain ⟨upper, -, hfreed⟩ := List.mem_flatMap.1 hflag
    obtain ⟨own, -, rfl⟩ := List.mem_map.1 hfreed
    rfl

/-- A linked tree of groups that was renamed afterwards, and given one more free switch and
a subcommand that was never linked. -/
def renamedGroups : Node Unit :=
  let root := Command.link {
    name := "group"
    usages := [.ofParameters [{ name := "group", kind := .required .string }],
      .ofParameters [{ name := "list", kind := .literal [] }]]
    freeFlags := [{ name := "verbose" }]
    children := [{ name := "member" }] }
  { root with
    name := "team"
    freeFlags := root.freeFlags ++ [{ name := "silent" }]
    children := root.children ++ [Command.unlinked {
      name := "rename"
      attachment := .main
      usages := [.ofParameters [{ name := "title", kind := .required .string }]] }] }

/-- Linked again, the new subcommand is in its place under the new name, and so would it be
in a tree that was linked once. -/
theorem Node.relink_determined_renamedGroups :
    ∃ first last : Node Unit, renamedGroups.relink.children = [first, last] ∧
      renamedGroups.relink.Descent [last] last ∧
      last.path = ["team", "rename"] ∧ last.scopeFlags.map Flag.name = ["verbose", "silent"] ∧
      last.lead.map Parameter.name = ["group", "rename"] ∧
      renamedGroups.relink.effective.map EffectiveUsage.declaredIndex = [1, 0] ∧
      last.IsInPlace [renamedGroups.relink, last] ∧
      renamedGroups.declared.link.declared = renamedGroups.declared ∧
      renamedGroups.declared.link.relink = renamedGroups.relink := by
  obtain ⟨first, last, hchildren, hpath, hscope, hlead, heffective⟩ :
      ∃ first last, renamedGroups.relink.children = [first, last] ∧
        last.path = ["team", "rename"] ∧ last.scopeFlags.map Flag.name = ["verbose", "silent"] ∧
        last.lead.map Parameter.name = ["group", "rename"] ∧
        renamedGroups.relink.effective.map EffectiveUsage.declaredIndex = [1, 0] :=
    ⟨_, _, rfl, rfl, rfl, rfl, rfl⟩
  have hdescent : renamedGroups.relink.Descent [last] last :=
    .down (by simp [hchildren]) (.here last)
  obtain ⟨-, -, -, -, hsame, hplace⟩ := Node.relink_determined renamedGroups
  exact ⟨first, last, hchildren, hdescent, hpath, hscope, hlead, heffective,
    (hplace [last] last hdescent).1, Command.declared_link _,
    hsame renamedGroups.declared.link (Command.declared_link _)⟩

end Parlance
