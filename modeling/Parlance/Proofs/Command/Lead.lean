import Parlance.Proofs.Command.Tree

/-!
# Leads

What linking puts in front of a node: the lead of its parent, the first usage of the
parent if the node stands behind that, and the word of the node. The lead of every
node further down goes on from there.
-/

set_option autoImplicit false

namespace Parlance

variable {Act : Type}

/-- The lead of a node goes on where that of a node above it ends. -/
theorem Node.Descent.exists_lead_eq {root node : Node Act} {trail : List (Node Act)}
    (hdescent : root.Descent trail node) {command : Command Act} {above : List String}
    {lead : List Parameter} {flags : List Flag}
    (hroot : root = command.linkUnder above lead flags) : ∃ more, node.lead = lead ++ more := by
  induction hdescent generalizing command above lead flags with
  | here node => exact ⟨[], by rw [hroot, Command.lead_linkUnder, List.append_nil]⟩
  | @down node child last trail hchild below ih =>
    rw [hroot, Command.children_linkUnder, List.mem_map] at hchild
    obtain ⟨declared, -, hlinked⟩ := hchild
    obtain ⟨more, hmore⟩ := ih hlinked.symm
    refine ⟨command.toDeclaration.between declared.toDeclaration ++
      [declared.toDeclaration.literal] ++ more, ?_⟩
    rw [hmore, leadTo_eq, List.append_assoc]

theorem Node.Descent.exists_positionalLead_eq {root node : Node Act} {trail : List (Node Act)}
    (hdescent : root.Descent trail node) {command : Command Act} {above : List String}
    {lead : List Parameter} {flags : List Flag}
    (hroot : root = command.linkUnder above lead flags) :
    ∃ more, node.positionalLead = root.positionalLead ++ more := by
  obtain ⟨more, hmore⟩ := hdescent.exists_lead_eq hroot
  refine ⟨more.filter fun p => !p.isFlag, ?_⟩
  rw [positionalLead, hmore, List.filter_append, positionalLead, hroot, Command.lead_linkUnder]

theorem Node.literalSlot?_eq_some_iff {node : Node Act} {slot : Nat} :
    node.literalSlot? = some slot ↔ node.positionalLead.length = slot + 1 := by
  unfold literalSlot?
  split
  · next hlength => simp [hlength]
  · next hlength => simp [hlength]

/-- The word of a node stands behind what else leads to it. -/
theorem Node.literalSlot?_of_positionalLead_eq {node : Node Act} {front : List Parameter}
    {p : Parameter} (h : node.positionalLead = front ++ [p]) :
    node.literalSlot? = some front.length := by
  rw [literalSlot?, h, List.length_append, List.length_singleton]

/-- The word of a subcommand stands right behind the lead of its parent, or behind
what a usage of the parent has there. -/
theorem Command.exists_positionalLead_eq {command declared : Command Act}
    {above path : List String} {lead : List Parameter} {flags scope : List Flag} :
    ∃ between : List Parameter,
      (between = [] ∨ ∃ main ∈ command.usages, between = main.positional) ∧
      (declared.linkUnder path (leadTo lead command.toDeclaration declared.toDeclaration)
          scope).positionalLead =
        (command.linkUnder above lead flags).positionalLead ++ between ++ [declared.literal] := by
  refine ⟨(command.toDeclaration.between declared.toDeclaration).filter fun p => !p.isFlag, ?_, ?_⟩
  · rcases command.toDeclaration.between_eq_nil_or declared.toDeclaration with
      hnone | ⟨main, hmain, hbetween⟩
    · exact .inl (by rw [hnone, List.filter_nil])
    · exact .inr ⟨main, hmain, by rw [hbetween]; rfl⟩
  · rw [Node.positionalLead, Node.positionalLead, lead_linkUnder, lead_linkUnder, leadTo_eq,
      List.filter_append, List.filter_append, List.append_assoc]
    rfl

/-- The lead of a subcommand ends with its word. -/
theorem Command.positionalLead_leadTo {declared : Command Act} {path : List String}
    {lead : List Parameter} {flags : List Flag} (parent : Declaration Act) :
    (declared.linkUnder path (leadTo lead parent declared.toDeclaration) flags).positionalLead =
      (lead ++ parent.between declared.toDeclaration).filter (fun p => !p.isFlag) ++
        [declared.toDeclaration.literal] := by
  rw [Node.positionalLead, lead_linkUnder, leadTo_eq, ← List.append_assoc,
    List.filter_append]
  rfl

/-- Every declared usage is among those behind a lead. -/
theorem EffectiveUsage.exists_mem_behind {lead : List Parameter} {usages : List (Usage Act)}
    {usage : Usage Act} (h : usage ∈ usages) (index : Nat) :
    ∃ e ∈ behind lead index usages, e.usage = usage.behind lead := by
  induction usages generalizing index with
  | nil => simp at h
  | cons first usages ih =>
    rcases List.mem_cons.1 h with rfl | h
    · exact ⟨_, List.mem_cons_self, rfl⟩
    · obtain ⟨e, he, heq⟩ := ih h (index + 1)
      exact ⟨e, List.mem_cons_of_mem _ he, heq⟩

end Parlance
