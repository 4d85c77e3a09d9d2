import Mathlib.Data.List.Forall2
import Parlance.Proofs.Command.Effective
import Parlance.Proofs.Command.Preorder

/-!
# Words that lead to a node

Below the root of a verified command, any name of each node on a way, in any letter case,
leads down that way and to no other node, since a word is a name of one sibling at most. So
the path of a node is an address of it, and without its last word it is the path of the node
that owns it (`Command.isAddressed_of_verify`).
-/

set_option autoImplicit false

namespace Parlance

variable {Act : Type}

namespace Node

variable {root node : Node Act} {trail : List (Node Act)}

/-- The node that a way from the root ends with is told by words and by its path. -/
structure IsAddressed (root : Node Act) (trail : List (Node Act)) (node : Node Act) : Prop where
  /-- A name or alias of each node on the way, in any letter case, leads to the node. -/
  found : ∀ words : List String,
    List.Forall₂ (fun passed word => ∃ name ∈ passed.names, Text.sameFolded name word = true)
      trail words →
    root.descendant? words = some node
  foundByPath : root.descendant? node.path.tail = some node
  parentPath?_eq_none : node.parentPath? = none ↔ trail = []
  /-- The node in front of it on the way owns it. -/
  owned : trail ≠ [] → ∃ front owner, trail = front ++ [node] ∧ root.Descent front owner ∧
    node ∈ owner.children ∧ node.parentPath? = some owner.path

/-- Words that the nodes on a way answer to lead down that way. -/
theorem IsSoundTree.descendant?_eq_some (h : root.IsSoundTree) (hdescent : root.Descent trail node)
    {words : List String}
    (hwords : List.Forall₂ (fun passed word => passed.answersTo word false = true) trail words) :
    root.descendant? words = some node := by
  induction hdescent generalizing words with
  | here node =>
    cases hwords
    rfl
  | @down node child last trail hchild below ih =>
    cases hwords with
    | @cons _ word _ words hword hwords =>
      have hfound : node.child? word false = some child := h.isSound.child?_eq_some hchild hword
      rw [descendant?, hfound, Option.bind_some, ih (h.child hchild) hwords]

/-- The last node of a way is a subcommand of the one in front of it. -/
theorem Descent.exists_owner (h : root.Descent trail node) (htrail : trail ≠ []) :
    ∃ front owner, trail = front ++ [node] ∧ root.Descent front owner ∧ node ∈ owner.children := by
  induction h with
  | here => exact absurd rfl htrail
  | @down node child last trail hchild below ih =>
    cases below with
    | here => exact ⟨[], node, rfl, .here node, hchild⟩
    | down hnext below =>
      obtain ⟨front, owner, heq, hfront, howned⟩ := ih (List.cons_ne_nil _ _)
      exact ⟨child :: front, owner, by rw [heq, List.cons_append], .down hchild hfront, howned⟩

theorem parentPath?_eq_none_iff : node.parentPath? = none ↔ node.isRoot = true := by
  simp [parentPath?, isRoot]

/-- The path of a subcommand without its last word is that of its parent. -/
theorem parentPath?_eq_some {above : List String} (hpath : node.path = above ++ [node.name])
    (habove : above ≠ []) : node.parentPath? = some above := by
  have hlength : 0 < above.length := List.length_pos_iff.2 habove
  have hlong : ¬ (above ++ [node.name]).length ≤ 1 := by
    rw [List.length_append, List.length_singleton]
    omega
  rw [parentPath?, hpath, if_neg hlong, List.dropLast_concat]

end Node

/-- Every node of the tree of a verified command has a path of its own, and it is found by
any names on the way to it, by its path among them. The path of its parent is that of the
node that owns it, and only the root has none. -/
theorem Command.isAddressed_of_verify {command : Command Act} (hverify : command.verify = .ok ()) :
    (command.link.preorder.map fun node => node.path).Nodup ∧
    ∀ (trail : List (Node Act)) (node : Node Act), command.link.Descent trail node →
      command.link.IsAddressed trail node := by
  have hsound := isSoundTree_link hverify
  have hroot : command.link.path = [command.name] := path_linkUnder [] [] [] command
  refine ⟨hsound.nodup_map_path_preorder, fun trail node hdescent => ?_⟩
  have hpath := hsound.path_eq hdescent
  refine ⟨?found, ?foundByPath, ?parentPath?_eq_none, ?owned⟩
  case found =>
    intro words hwords
    refine hsound.descendant?_eq_some hdescent (hwords.imp ?_)
    rintro passed word ⟨name, hname, hsame⟩
    exact List.any_eq_true.2 ⟨name, hname, hsame⟩
  case foundByPath =>
    have hnames : node.path.tail = trail.map fun passed => passed.name := by
      rw [hpath, hroot, List.singleton_append, List.tail_cons]
    refine hsound.descendant?_eq_some hdescent ?_
    rw [hnames, List.forall₂_map_right_iff, List.forall₂_same]
    exact fun passed _ => passed.answersTo_name false
  case parentPath?_eq_none =>
    rw [Node.parentPath?_eq_none_iff, isRoot_iff_of_descent hverify hdescent]
  case owned =>
    intro htrail
    obtain ⟨front, owner, htrail, hfront, howned⟩ := hdescent.exists_owner htrail
    have hchild := (hsound front owner hfront).childPath node howned
    have habove : owner.path ≠ [] := by
      rw [hsound.path_eq hfront, hroot]
      exact List.cons_ne_nil _ _
    exact ⟨front, owner, htrail, hfront, howned, Node.parentPath?_eq_some hchild habove⟩

/-- Groups whose members have permissions, with an alias for each word. -/
def promoting : Command Unit where
  name := "group"
  usages := [.ofParameters [{ name := "group", kind := .required .string }]]
  children := [
    { name := "list", aliases := ["ls"] },
    { name := "Member"
      aliases := ["m"]
      attachment := .main
      children := [{ name := "list" }, { name := "setperm", aliases := ["sp"] }] }]

/-- An alias and a name in other letter case lead to the permissions of members, and so does
the path; two nodes are named alike, and their paths differ. -/
theorem Command.isAddressed_of_verify_promoting :
    ∃ (trail : List (Node Unit)) (node : Node Unit), promoting.verify = .ok () ∧
      promoting.link.Descent trail node ∧
      (promoting.link.preorder.map fun node => node.path) =
        [["group"], ["group", "list"], ["group", "Member"], ["group", "Member", "list"],
          ["group", "Member", "setperm"]] ∧
      (promoting.link.preorder.map fun node => node.path).Nodup ∧
      promoting.link.descendant? ["M", "SetPerm"] = some node ∧
      promoting.link.descendant? ["Member", "setperm"] = some node ∧
      ∃ owner : Node Unit, node ∈ owner.children ∧ node.parentPath? = some owner.path ∧
        owner.path = ["group", "Member"] := by
  have hverify : promoting.verify = .ok () := rfl
  obtain ⟨list, member, hchildren, inner, setperm, hbelow, hnames, hmember, hpath⟩ :
      ∃ list member, promoting.link.children = [list, member] ∧
        ∃ inner setperm, member.children = [inner, setperm] ∧
          setperm.names = ["setperm", "sp"] ∧ member.names = ["Member", "m"] ∧
          setperm.path = ["group", "Member", "setperm"] :=
    ⟨_, _, rfl, _, _, rfl, rfl, rfl, rfl⟩
  have hdescent : promoting.link.Descent [member, setperm] setperm :=
    .down (by simp [hchildren]) (.down (by simp [hbelow]) (.here setperm))
  obtain ⟨hdistinct, haddressed⟩ := Command.isAddressed_of_verify hverify
  obtain ⟨hfound, hfoundByPath, -, howned⟩ := haddressed _ _ hdescent
  rw [hpath, List.tail_cons] at hfoundByPath
  have hwords : promoting.link.descendant? ["M", "SetPerm"] = some setperm := by
    refine hfound _ (.cons ⟨"m", by simp [hmember], by decide⟩ (.cons ?_ .nil))
    exact ⟨"setperm", by simp [hnames], by decide⟩
  obtain ⟨front, owner, -, -, hmem, hparent⟩ := howned (List.cons_ne_nil _ _)
  have howner : setperm.parentPath? = some ["group", "Member"] := by
    rw [Node.parentPath?, hpath]
    rfl
  exact ⟨_, setperm, hverify, hdescent, rfl, hdistinct, hwords, hfoundByPath, owner, hmem,
    hparent, Option.some.inj (hparent.symm.trans howner)⟩

end Parlance
