import Parlance.Proofs.Command.Tree

/-!
# Ways through a declared tree

`Command.Passage` is the way from a command down to one below it, told by the commands
above that one. Verification hands names down and linking hands parameters and flags
down; what either has handed down is told here by the whole way
(`Command.verifyUnder_eq_ok_iff_forall`, `Command.exists_passage_of_descent`).
-/

set_option autoImplicit false

namespace Parlance

variable {Act : Type}

namespace Command

/-! ## Ways -/

/-- The command `node` stands below the first command, and `above` are the commands
from that one down to the parent of `node`. -/
inductive Passage : Command Act → List (Command Act) → Command Act → Prop where
  | here (command : Command Act) : Passage command [] command
  | down {parent child node : Command Act} {above : List (Command Act)}
      (hchild : child ∈ parent.children) (below : Passage child above node) :
      Passage parent (parent :: above) node

theorem sizeOf_lt_of_mem_children {command child : Command Act}
    (h : child ∈ command.children) : sizeOf child < sizeOf command := by
  cases command with
  | mk d children =>
    have hlt : sizeOf child < sizeOf children := List.sizeOf_lt_of_mem h
    simp only [Command.mk.sizeOf_spec]
    omega

/-- What holds of a command when it holds of all its subcommands holds of every
command. -/
@[elab_as_elim]
theorem induct {motive : Command Act → Prop}
    (step : ∀ command, (∀ child ∈ command.children, motive child) → motive command)
    (command : Command Act) : motive command :=
  step command fun child _ => induct step child
termination_by sizeOf command
decreasing_by exact sizeOf_lt_of_mem_children ‹_›

variable {command node : Command Act} {above : List (Command Act)}

theorem Passage.exists_eq_cons (h : command.Passage above node) :
    ∃ way, above ++ [node] = command :: way := by
  cases h with
  | here => exact ⟨[], rfl⟩
  | down => exact ⟨_, rfl⟩

/-- What holds of a command and all below it holds of it and of its subcommands with all
below them. -/
theorem forall_passage_iff {P : Command Act → Prop} :
    (∀ above node, command.Passage above node → P node) ↔
      P command ∧ ∀ child ∈ command.children, ∀ above node, child.Passage above node → P node := by
  constructor
  · intro h
    exact ⟨h [] command (.here command),
      fun child hchild above node below => h (command :: above) node (.down hchild below)⟩
  · rintro ⟨hown, hchildren⟩ above node hpassage
    cases hpassage with
    | here => exact hown
    | down hchild below => exact hchildren _ hchild _ node below

/-- Every command on the way stands below the first one, too. -/
theorem Passage.exists_of_mem (h : command.Passage above node) {upper : Command Act}
    (hupper : upper ∈ above ++ [node]) : ∃ front, command.Passage front upper := by
  induction h with
  | here command =>
    obtain rfl := List.mem_singleton.1 hupper
    exact ⟨[], .here upper⟩
  | @down parent child node above hchild below ih =>
    rcases List.mem_cons.1 hupper with rfl | hupper
    · exact ⟨[], .here _⟩
    · obtain ⟨front, hpassage⟩ := ih hupper
      exact ⟨parent :: front, .down hchild hpassage⟩

/-! ## Parameters on the way -/

/-- The parameters that lead along a way, from behind its first command. -/
def leadAlong : List (Command Act) → List Parameter
  | parent :: child :: way =>
    parent.toDeclaration.between child.toDeclaration ++
      child.toDeclaration.literal :: leadAlong (child :: way)
  | _ => []

theorem mem_leadAlong_iff {way : List (Command Act)} {p : Parameter} :
    p ∈ leadAlong way ↔ ∃ front parent child back, way = front ++ parent :: child :: back ∧
      (p ∈ parent.toDeclaration.between child.toDeclaration ∨
        p = child.toDeclaration.literal) := by
  induction way with
  | nil => simp [leadAlong]
  | cons first way ih =>
    cases way with
    | nil =>
      simp only [leadAlong, List.not_mem_nil, false_iff, not_exists, not_and]
      intro front parent child back heq
      have hlength := congrArg List.length heq
      simp only [List.length_append, List.length_cons, List.length_nil] at hlength
      omega
    | cons second way =>
      rw [leadAlong, List.mem_append, List.mem_cons, ih]
      constructor
      · rintro (hbetween | rfl | ⟨front, parent, child, back, heq, hp⟩)
        · exact ⟨[], first, second, way, rfl, .inl hbetween⟩
        · exact ⟨[], first, second, way, rfl, .inr rfl⟩
        · exact ⟨first :: front, parent, child, back, by rw [heq]; rfl, hp⟩
      · rintro ⟨front, parent, child, back, heq, hp⟩
        cases front with
        | nil =>
          simp only [List.nil_append, List.cons.injEq] at heq
          obtain ⟨rfl, rfl, rfl⟩ := heq
          rcases hp with hp | hp
          · exact .inl hp
          · exact .inr (.inl hp)
        | cons _ front =>
          simp only [List.cons_append, List.cons.injEq] at heq
          exact .inr (.inr ⟨front, parent, child, back, heq.2, hp⟩)

theorem valueNames_leadAlong_cons (parent child : Command Act) (way : List (Command Act)) :
    valueNames (leadAlong (parent :: child :: way)) =
      valueNames (parent.toDeclaration.between child.toDeclaration) ++
        valueNames (leadAlong (child :: way)) := by
  have hliteral : valueNames (child.toDeclaration.literal :: leadAlong (child :: way)) =
      valueNames (leadAlong (child :: way)) := rfl
  rw [leadAlong, valueNames_append, hliteral]

/-! ## What verification asks along a way -/

/-- A command passes if and only if each command on a way down from it is consistent
with what was inherited above it and along the way, has subcommands with distinct names,
and admits each of them where it asks to stand. -/
theorem verifyUnder_eq_ok_iff_forall {inherited scope : List String} :
    command.verifyUnder inherited scope = .ok () ↔
      ∀ (above : List (Command Act)) (node : Command Act), command.Passage above node →
        node.toDeclaration.IsConsistent
          (inherited ++ valueNames (leadAlong (above ++ [node])))
          (scope ++ above.flatMap fun upper => upper.toDeclaration.freeNames) ∧
        (siblingNames node.children).Nodup ∧
        ∀ child ∈ node.children, node.toDeclaration.Admits child.toDeclaration := by
  induction command using Command.induct generalizing inherited scope with
  | step command ih =>
    have hhanded : ∀ {child node : Command Act} {above : List (Command Act)},
        child.Passage above node →
        inherited ++ valueNames (leadAlong (command :: above ++ [node])) =
          inherited ++ valueNames (command.toDeclaration.between child.toDeclaration) ++
            valueNames (leadAlong (above ++ [node])) := by
      intro child node above hpassage
      obtain ⟨way, hway⟩ := hpassage.exists_eq_cons
      rw [List.cons_append, hway, valueNames_leadAlong_cons, List.append_assoc]
    have hhere : inherited ++ valueNames (leadAlong ([] ++ [command])) = inherited :=
      List.append_nil inherited
    rw [Command.verifyUnder_eq_ok_iff]
    constructor
    · rintro ⟨hconsistent, hsiblings, hchildren⟩ above node hpassage
      cases hpassage with
      | here =>
        rw [hhere, List.flatMap_nil, List.append_nil]
        exact ⟨hconsistent, hsiblings, fun child hchild => (hchildren child hchild).1⟩
      | @down _ child _ above hchild below =>
        rw [hhanded below, List.flatMap_cons, ← List.append_assoc]
        exact (ih child hchild).1 (hchildren child hchild).2 above node below
    · intro h
      obtain ⟨hconsistent, hsiblings, hadmits⟩ := h [] command (.here command)
      rw [hhere, List.flatMap_nil, List.append_nil] at hconsistent
      refine ⟨hconsistent, hsiblings, ?_⟩
      intro child hchild
      refine ⟨hadmits child hchild, (ih child hchild).2 ?_⟩
      intro above node below
      have hnode := h (command :: above) node (.down hchild below)
      rwa [hhanded below, List.flatMap_cons, ← List.append_assoc] at hnode

/-! ## What linking hands down -/

/-- A node below a linked command is linked from one below that, with the parameters and
the free flags along the way. -/
theorem exists_passage_of_descent {root node : Node Act} {trail : List (Node Act)}
    (hdescent : root.Descent trail node) {command : Command Act} {path : List String}
    {lead : List Parameter} {flags : List Flag} (hroot : root = command.linkUnder path lead flags) :
    ∃ (above : List (Command Act)) (below : Command Act) (path : List String),
      command.Passage above below ∧
      node = below.linkUnder path (lead ++ leadAlong (above ++ [below]))
        (flags ++ above.flatMap fun upper => upper.freeFlags.map Flag.freed) := by
  induction hdescent generalizing command path lead flags with
  | here node => exact ⟨[], command, path, .here command, by simpa [leadAlong] using hroot⟩
  | @down node child last trail hchild below ih =>
    rw [hroot, children_linkUnder, List.mem_map] at hchild
    obtain ⟨declared, hmem, hlinked⟩ := hchild
    obtain ⟨above, lower, path, hpassage, rfl⟩ := ih hlinked.symm
    refine ⟨command :: above, lower, path, .down hmem hpassage, ?_⟩
    obtain ⟨way, hway⟩ := hpassage.exists_eq_cons
    rw [List.cons_append, hway, leadAlong, leadTo_eq, List.flatMap_cons]
    simp only [List.append_assoc, List.singleton_append]

end Command

end Parlance
