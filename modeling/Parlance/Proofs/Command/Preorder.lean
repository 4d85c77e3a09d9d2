import Parlance.Proofs.Command.Path

/-!
# Trees as rows of nodes

`Node.preorder` lists a node and all below it, each in front of those below it and
subcommands in their order. It lists what a way leads to (`Node.mem_preorder_iff`), and in
a sound tree every node has a path of its own (`Node.IsSoundTree.nodup_map_path_preorder`).
-/

set_option autoImplicit false

namespace Parlance

variable {Act : Type}

namespace Node

mutual

/-- The node and all nodes below it, each in front of those below it. -/
def preorder : Node Act → List (Node Act)
  | ⟨d, path, lead, scopeFlags, effective, effectiveDefault, children⟩ =>
    ⟨d, path, lead, scopeFlags, effective, effectiveDefault, children⟩ :: preorderAll children

/-- The nodes with all below them, one after the other. -/
def preorderAll : List (Node Act) → List (Node Act)
  | [] => []
  | child :: children => child.preorder ++ preorderAll children

end

theorem preorderAll_eq (children : List (Node Act)) :
    preorderAll children = children.flatMap preorder := by
  induction children with
  | nil => rfl
  | cons child children ih => rw [preorderAll, ih, List.flatMap_cons]

theorem preorder_eq (node : Node Act) :
    node.preorder = node :: node.children.flatMap preorder := by
  cases node
  rw [preorder, preorderAll_eq]

/-- The nodes that are listed are those that a way leads to. -/
theorem mem_preorder_iff {node last : Node Act} :
    last ∈ node.preorder ↔ ∃ trail, node.Descent trail last := by
  induction node using Node.induct with
  | step node ih =>
    rw [preorder_eq, List.mem_cons, List.mem_flatMap]
    constructor
    · rintro (rfl | ⟨child, hchild, hlast⟩)
      · exact ⟨[], .here last⟩
      · obtain ⟨trail, below⟩ := (ih child hchild).1 hlast
        exact ⟨child :: trail, .down hchild below⟩
    · rintro ⟨trail, hdescent⟩
      cases hdescent with
      | here => exact .inl rfl
      | @down _ child _ trail hchild below =>
        exact .inr ⟨child, hchild, (ih child hchild).2 ⟨trail, below⟩⟩

/-! ## Paths -/

/-- The path of a node at or below a subcommand goes on from the word of that. -/
theorem IsSoundTree.exists_path_eq {node child last : Node Act} (h : node.IsSoundTree)
    (hchild : child ∈ node.children) (hlast : last ∈ child.preorder) :
    ∃ more, last.path = node.path ++ child.name :: more := by
  obtain ⟨trail, hdescent⟩ := mem_preorder_iff.1 hlast
  refine ⟨trail.map fun passed => passed.name, ?_⟩
  rw [h.path_eq (.down hchild hdescent), List.map_cons]

/-- Subcommands of a sound node have different names. -/
theorem IsSound.pairwise_name_ne {node : Node Act} (h : node.IsSound) :
    node.children.Pairwise fun child other => child.name ≠ other.name := by
  refine h.nodup_children.imp_of_mem ?_
  intro child other hchild hother hne hname
  exact hne (h.eq_of_name_eq hchild hother hname)

/-- No two nodes of a sound tree have one path. -/
theorem IsSoundTree.nodup_map_path_preorder {root : Node Act} (h : root.IsSoundTree) :
    (root.preorder.map fun node => node.path).Nodup := by
  induction root using Node.induct with
  | step node ih =>
    rw [preorder_eq, List.map_cons, List.nodup_cons, List.map_flatMap, List.nodup_flatMap]
    refine ⟨?above, ?within, ?between⟩
    case above =>
      -- Every path further down is longer.
      intro hmem
      obtain ⟨child, hchild, hpath⟩ := List.mem_flatMap.1 hmem
      obtain ⟨last, hlast, heq⟩ := List.mem_map.1 hpath
      obtain ⟨more, hmore⟩ := h.exists_path_eq hchild hlast
      rw [heq] at hmore
      exact absurd hmore (by simp)
    case within => exact fun child hchild => ih child hchild (h.child hchild)
    case between =>
      refine h.isSound.pairwise_name_ne.imp_of_mem ?_
      intro child other hchild hother hname path hpath hsame
      obtain ⟨last, hlast, rfl⟩ := List.mem_map.1 hpath
      obtain ⟨clone, hclone, heq⟩ := List.mem_map.1 hsame
      obtain ⟨more, hmore⟩ := h.exists_path_eq hchild hlast
      obtain ⟨others, hothers⟩ := h.exists_path_eq hother hclone
      rw [heq, hmore, List.append_cancel_left_eq, List.cons.injEq] at hothers
      exact hname hothers.1

end Node

end Parlance
