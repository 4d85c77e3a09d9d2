import Parlance.Proofs.Command.Tree

/-!
# Paths tell nodes apart

In a sound tree the names on the way to a node are told by its path, and siblings
have different names. So two ways to nodes of one path are the same way.
-/

set_option autoImplicit false

namespace Parlance

variable {Act : Type}

namespace Node

/-- Nothing below a node is greater than the node. -/
theorem Descent.sizeOf_le {node last : Node Act} {trail : List (Node Act)}
    (h : node.Descent trail last) : sizeOf last ≤ sizeOf node := by
  induction h with
  | here node => exact Nat.le_refl _
  | down hchild below ih => exact Nat.le_trans ih (Nat.le_of_lt (sizeOf_lt_of_mem_children hchild))

/-- No way leads from a subcommand back to its parent. -/
theorem Descent.ne_parent {node child last : Node Act} {trail : List (Node Act)}
    (hchild : child ∈ node.children) (h : child.Descent trail last) : last ≠ node := by
  rintro rfl
  have hle := h.sizeOf_le
  have hlt := sizeOf_lt_of_mem_children hchild
  omega

theorem IsSound.eq_of_name_eq {node child other : Node Act} (h : node.IsSound)
    (hchild : child ∈ node.children) (hother : other ∈ node.children)
    (hname : child.name = other.name) : child = other := by
  have hfound := h.child?_eq_some hchild (child.answersTo_name true)
  have hfoundOther := h.child?_eq_some hother (other.answersTo_name true)
  rw [← hname, hfound] at hfoundOther
  exact Option.some.inj hfoundOther

/-- No subcommand stands twice below a sound node. -/
theorem IsSound.nodup_children {node : Node Act} (h : node.IsSound) : node.children.Nodup := by
  have hnames : ∀ child : Node Act, child.names.map Text.smallLetters ≠ [] := by
    intro child
    simp [Declaration.names]
  refine ((List.nodup_flatMap.1 h.siblings).2).imp ?_
  rintro child other hdisjoint rfl
  obtain ⟨name, hname⟩ := List.exists_mem_of_ne_nil _ (hnames child)
  exact hdisjoint hname hname

/-- Two ways down a sound tree to nodes of one path are the same. -/
theorem IsSoundTree.trail_eq {root node other : Node Act} {trail way : List (Node Act)}
    (h : root.IsSoundTree) (hdescent : root.Descent trail node) (hother : root.Descent way other)
    (hpath : node.path = other.path) : trail = way ∧ node = other := by
  have hnames : trail.map (fun passed => passed.name) = way.map fun passed => passed.name := by
    rw [h.path_eq hdescent, h.path_eq hother] at hpath
    exact List.append_cancel_left hpath
  clear hpath
  induction hdescent generalizing way with
  | here node =>
    cases hother with
    | here _ => exact ⟨rfl, rfl⟩
    | down _ _ => simp at hnames
  | @down node child last trail hchild below ih =>
    cases hother with
    | here _ => simp at hnames
    | @down _ child' _ way hchild' below' =>
      rw [List.map_cons, List.map_cons, List.cons.injEq] at hnames
      obtain rfl := h.isSound.eq_of_name_eq hchild hchild' hnames.1
      obtain ⟨rfl, rfl⟩ := ih (h.child hchild) below' hnames.2
      exact ⟨rfl, rfl⟩

/-- A node stands below one subcommand only. -/
theorem IsSoundTree.child_eq {node child other last : Node Act} {trail way : List (Node Act)}
    (h : node.IsSoundTree) (hchild : child ∈ node.children) (hother : other ∈ node.children)
    (hdescent : child.Descent trail last) (hway : other.Descent way last) : child = other := by
  have htrail := (h.trail_eq (.down hchild hdescent) (.down hother hway) rfl).1
  exact (List.cons.inj htrail).1

end Node

end Parlance
