import Parlance.Proofs.Command.Preorder
import Parlance.Proofs.Command.Relinking
import Parlance.Proofs.Engine.Reached

/-!
# Usage lines

Linking arranges the usages of each node by their fixed words. Arranging them by their
declared index again gives the declared order back (`Node.IsSound.usagesAsDeclared_eq`). So
the lines of a command go through its tree in preorder, with each declared usage of each node
once and in its order (`Engine.Reached.usages_eq`).
-/

set_option autoImplicit false

namespace Parlance

variable {Act : Type}

/-! ## Declared order -/

/-- However a list was reordered, arranging it by a key that grew along it gives it back. -/
theorem arrange_eq_of_perm {α : Type} {key : α → Nat} {xs ys : List α}
    (hxs : xs.Pairwise fun a b => key a < key b) (hperm : ys.Perm xs) :
    arrange (fun a b => key a ≤ key b) ys = xs := by
  have harranged : (arrange (fun a b => decide (key a ≤ key b)) ys).Perm xs :=
    (arrange_perm _ ys).trans hperm
  have htrivial : ys.Pairwise fun _ _ => True := List.pairwise_of_forall fun _ _ => trivial
  have hsorted : (arrange (fun a b => decide (key a ≤ key b)) ys).Pairwise
      fun a b => key a ≤ key b := by
    refine (pairwise_arrange_of_pairwise ?_ ?_ htrivial).imp fun h => of_decide_eq_true h.1
    · intro a b
      simpa using Nat.le_total (key a) (key b)
    · intro a b c hab hbc
      simp only [decide_eq_true_eq] at *
      exact Nat.le_trans hab hbc
  -- No two entries have one key, so there is only one order by it.
  have hdistinct : (xs.map key).Nodup := List.pairwise_map.2 (hxs.imp Nat.ne_of_lt)
  refine harranged.eq_of_pairwise ?_ hsorted (hxs.imp Nat.le_of_lt)
  intro a b ha hb hab hba
  exact List.inj_on_of_nodup_map hdistinct (harranged.mem_iff.1 ha) hb (Nat.le_antisymm hab hba)

/-- The usages of a sound node in the order of their declaration, each once. -/
theorem Node.IsSound.usagesAsDeclared_eq {node : Node Act} (h : node.IsSound) :
    node.usagesAsDeclared = EffectiveUsage.behind node.lead 0 node.usages := by
  rw [usagesAsDeclared, h.effective]
  exact arrange_eq_of_perm (EffectiveUsage.pairwise_behind node.lead 0 node.usages)
    (arrange_perm _ _)

/-! ## Lines -/

/-- How a usage is listed: the label, then the elements of what leads to the node and of the
usage itself, without blanks at the end, and then the description as a comment. -/
def Usage.lineBehind (label : String) (lead : List Parameter) (usage : Usage Act) : String :=
  Text.trimEnd (label ++ " " ++
      " ".intercalate (lead.map Parameter.element ++ usage.parameters.map Parameter.element)) ++
    (usage.description.map fun description => "  # " ++ description).getD ""

theorem usageLine_behind (label : String) (lead : List Parameter) (usage : Usage Act) :
    usageLine label (usage.behind lead) = usage.lineBehind label lead := by
  have hcompact : (usage.behind lead).compact =
      " ".intercalate (lead.map Parameter.element ++ usage.parameters.map Parameter.element) := by
    rw [Usage.compact, Usage.behind, Usage.map_numberFrom fun _ _ => rfl, List.map_append]
  have hdescription : (usage.behind lead).description = usage.description := rfl
  rw [usageLine, Usage.lineBehind, hcompact, hdescription]
  cases usage.description with
  | none => exact String.append_empty.symm
  | some description => exact String.append_assoc

namespace Node

theorem usageLinesAll_eq (label : String) (nodes : List (Node Act)) :
    usageLinesAll label nodes = nodes.flatMap fun node => node.usageLines label := by
  induction nodes with
  | nil => rfl
  | cons node nodes ih => rw [usageLinesAll, ih, List.flatMap_cons]

theorem usageLines_eq (label : String) (node : Node Act) :
    node.usageLines label = node.usagesAsDeclared.map (fun e => usageLine label e.usage) ++
      node.children.flatMap fun child => child.usageLines label := by
  cases node
  rw [usageLines, usageLinesAll_eq]

/-- The lines of a sound tree are those of its nodes in preorder. -/
theorem IsSoundTree.usageLines_eq {root : Node Act} (h : root.IsSoundTree) (label : String) :
    root.usageLines label =
      root.preorder.flatMap fun node =>
        node.usages.map fun usage => usage.lineBehind label node.lead := by
  induction root using Node.induct with
  | step node ih =>
    have hown : node.usagesAsDeclared.map (fun e => usageLine label e.usage) =
        node.usages.map fun usage => usage.lineBehind label node.lead := by
      have hfst : (fun e => usageLine label e.usage) ∘ (fun entry : Usage Act × Nat =>
            (⟨entry.1.behind node.lead, entry.2, entry.1.literalCount⟩ : EffectiveUsage Act)) =
          (fun usage => usage.lineBehind label node.lead) ∘ Prod.fst := by
        funext entry
        exact usageLine_behind label node.lead entry.1
      rw [h.isSound.usagesAsDeclared_eq, EffectiveUsage.behind_eq_map, List.map_map, hfst,
        ← List.map_map, List.zipIdx_map_fst]
    have hbelow : (node.children.flatMap fun child => child.usageLines label) =
        (node.children.flatMap preorder).flatMap fun node =>
          node.usages.map fun usage => usage.lineBehind label node.lead := by
      rw [List.flatMap_assoc]
      exact List.flatMap_congr fun child hchild => ih child hchild (h.child hchild)
    rw [Node.usageLines_eq, hown, hbelow, preorder_eq, List.flatMap_cons]

end Node

/-- The usages of a registered command are listed node by node, from each node down to those
below it, and at each node in the order of their declaration. Every node of the tree is
listed, and none of them twice. -/
theorem Engine.Reached.usages_eq {engine : Engine Act} (h : engine.Reached) {label : String}
    {root : Node Act} (hroot : engine.command? label = some root) :
    (engine.usages label = root.preorder.flatMap fun node =>
      node.usages.map fun usage => usage.lineBehind root.name node.lead) ∧
    (root.preorder.map fun node => node.path).Nodup ∧
    ∀ node, node ∈ root.preorder ↔ ∃ trail, root.Descent trail node := by
  have hsound := h.isSoundTree hroot
  refine ⟨?_, hsound.nodup_map_path_preorder, fun node => Node.mem_preorder_iff⟩
  rw [usages, hroot, Option.map_some, Option.getD_some, usageLines]
  exact hsound.usageLines_eq root.name

/-- Groups with a list of them, and ranks behind a group with ways to set and to end them. -/
def sorting : Command Unit where
  name := "group"
  aliases := ["g"]
  usages := [
    .ofParameters [{ name := "group", kind := .required .string }],
    { (Usage.ofParameters [{ name := "list", kind := .literal ["ls"] },
        { name := "page", kind := .optional .integer none }] : Usage Unit) with
      description := some "all groups" }, {}]
  children := [{
    name := "rank"
    attachment := .main
    usages := [
      .ofParameters [{ name := "rank", kind := .required .word },
        { name := "silent", kind := .flag ["s"] none none }],
      .ofParameters [{ name := "clear", kind := .literal [] },
        { name := "now", kind := .literal [] }]] }]

/-- The usages with fixed words of their own come first in matching, and not in the list. -/
theorem Engine.Reached.usages_eq_sorting :
    ∃ (engine : Engine Unit) (root : Node Unit), engine.Reached ∧
      engine.command? "G" = some root ∧
      root.effective.map EffectiveUsage.declaredIndex = [1, 0, 2] ∧
      engine.usages "G" =
        ["group <group>", "group list|ls [page:integer]  # all groups", "group",
          "group <group> rank <rank:word> [-silent|s]", "group <group> rank clear now"] := by
  have hregister : Engine.register {} sorting =
      .ok ({ commands := [sorting.link] } : Engine Unit) := rfl
  have hreached := Reached.register (.start {}) hregister
  have hroot : ({ commands := [sorting.link] } : Engine Unit).command? "G" = some sorting.link :=
    rfl
  refine ⟨_, sorting.link, hreached, hroot, rfl, ?_⟩
  rw [(Engine.Reached.usages_eq hreached hroot).1]
  rfl

end Parlance
