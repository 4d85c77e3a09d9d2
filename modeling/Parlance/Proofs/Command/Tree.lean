import Mathlib.Data.List.Pairwise
import Parlance.Proofs.Command.Verification
import Parlance.Proofs.Usage.Numbering

/-!
# The nodes of a linked tree

`Node.Descent` is the way from a node down to one below it. What verification
grants a command is handed from parent to child together with the lead and the
free flags (`Command.Stands.child`), so every node of a tree that is linked from
a verified command is sound (`Command.isSoundTree_link`). The path of a node is
made of the names on the way to it, and each of these names finds its node again.
-/

set_option autoImplicit false

namespace Parlance

variable {Act : Type}

/-! ## Ways down a tree -/

/-- The nodes passed on the way from a node down to another one, which is the
last of them. -/
inductive Node.Descent : Node Act → List (Node Act) → Node Act → Prop where
  | here (node : Node Act) : Descent node [] node
  | down {node child last : Node Act} {trail : List (Node Act)} (hchild : child ∈ node.children)
      (below : Descent child trail last) : Descent node (child :: trail) last

theorem Node.sizeOf_lt_of_mem_children {node child : Node Act} (h : child ∈ node.children) :
    sizeOf child < sizeOf node := by
  cases node with
  | mk d path lead scopeFlags effective effectiveDefault children =>
    have hlt : sizeOf child < sizeOf children := List.sizeOf_lt_of_mem h
    simp only [Node.mk.sizeOf_spec]
    omega

/-- What holds of a node when it holds of all its subcommands holds of every
node. -/
@[elab_as_elim]
theorem Node.induct {motive : Node Act → Prop}
    (step : ∀ node, (∀ child ∈ node.children, motive child) → motive node) (node : Node Act) :
    motive node :=
  step node fun child _ => Node.induct step child
termination_by sizeOf node
decreasing_by exact Node.sizeOf_lt_of_mem_children ‹_›

/-! ## Linked data -/

namespace Command

variable (above : List String) (lead : List Parameter) (flags : List Flag) (command : Command Act)

theorem linkAll_eq_map (parent : Declaration Act) (children : List (Command Act)) :
    linkAll above lead flags parent children =
      children.map fun child =>
        child.linkUnder above (leadTo lead parent child.toDeclaration) flags := by
  induction children with
  | nil => rfl
  | cons child children ih => rw [linkAll, ih, List.map_cons]

@[simp] theorem toDeclaration_linkUnder :
    (command.linkUnder above lead flags).toDeclaration = command.toDeclaration := by
  cases command; rfl

@[simp] theorem path_linkUnder :
    (command.linkUnder above lead flags).path = above ++ [command.name] := by
  cases command; rfl

@[simp] theorem lead_linkUnder : (command.linkUnder above lead flags).lead = lead := by
  cases command; rfl

@[simp] theorem scopeFlags_linkUnder : (command.linkUnder above lead flags).scopeFlags =
    flags ++ command.freeFlags.map Flag.freed := by
  cases command; rfl

@[simp] theorem effective_linkUnder : (command.linkUnder above lead flags).effective =
    arrange (fun a b => b.ownLiterals ≤ a.ownLiterals)
      (EffectiveUsage.behind lead 0 command.usages) := by
  cases command; rfl

@[simp] theorem effectiveDefault_linkUnder :
    (command.linkUnder above lead flags).effectiveDefault = command.defaultUsage.behind lead := by
  cases command; rfl

@[simp] theorem children_linkUnder : (command.linkUnder above lead flags).children =
    command.children.map fun child =>
      child.linkUnder (above ++ [command.name])
        (leadTo lead command.toDeclaration child.toDeclaration)
        (flags ++ command.freeFlags.map Flag.freed) := by
  cases command
  simp only [linkUnder, linkAll_eq_map]

end Command

/-! ## Names along a lead -/

theorem valueNames_append (front back : List Parameter) :
    valueNames (front ++ back) = valueNames front ++ valueNames back := by
  simp [valueNames]

theorem mem_valueNames {ps : List Parameter} {name : String} :
    name ∈ valueNames ps ↔ ∃ p ∈ ps, p.isLiteral = false ∧ p.name = name := by
  simp [valueNames, and_assoc]

theorem leadTo_eq (lead : List Parameter) (parent child : Declaration Act) :
    leadTo lead parent child = lead ++ (parent.between child ++ [child.literal]) :=
  List.append_assoc _ _ _

theorem valueNames_leadTo (lead : List Parameter) (parent child : Declaration Act) :
    valueNames (leadTo lead parent child) =
      valueNames lead ++ valueNames (parent.between child) := by
  have hliteral : valueNames [child.literal] = [] := rfl
  rw [leadTo_eq, valueNames_append, valueNames_append, hliteral, List.append_nil]

theorem names_freed (flags : List Flag) :
    (flags.map Flag.freed).flatMap Flag.names = flags.flatMap Flag.names := by
  rw [List.flatMap_map]
  rfl

/-- The names of parameters are among the names that they take up. -/
theorem map_name_sublist (ps : List Parameter) :
    (ps.map Parameter.name).Sublist (ps.flatMap Parameter.claimedNames) := by
  induction ps with
  | nil => exact List.Sublist.slnil
  | cons p ps ih =>
    have hname : [p.name].Sublist p.claimedNames := by
      unfold Parameter.claimedNames
      split <;> simp
    rw [List.map_cons, List.flatMap_cons, ← List.singleton_append]
    exact hname.append ih

/-- A consistent usage stores each of its values under a name of its own. -/
theorem Usage.IsConsistent.nodup_valueNames {usage : Usage Act} (h : usage.IsConsistent) :
    (valueNames usage.parameters).Nodup :=
  ((List.filter_sublist.map Parameter.name).trans (map_name_sublist usage.parameters)).nodup
    h.distinct

/-! ## Commands that stand in a tree -/

/-- A command that passes where it stands: behind the parameters `lead`, all
positional ones of fixed width, and below the free flags `flags`. -/
structure Command.Stands (lead : List Parameter) (flags : List Flag) (command : Command Act) :
    Prop where
  verified : command.verifyUnder (valueNames lead) (flags.flatMap Flag.names) = .ok ()
  leadRequired : ∀ p ∈ lead, p.isFlag = false → p.isRequired = true
  leadDistinct : (valueNames lead).Nodup
  flagsDistinct : (flags.flatMap Flag.names).Nodup

theorem Command.Stands.root {command : Command Act} (h : command.verify = .ok ()) :
    command.Stands [] [] where
  verified := h
  leadRequired := by simp
  leadDistinct := List.nodup_nil
  flagsDistinct := List.nodup_nil

theorem mem_leadTo {lead : List Parameter} {parent child : Declaration Act} {p : Parameter} :
    p ∈ leadTo lead parent child ↔ p ∈ lead ∨ p ∈ parent.between child ∨ p = child.literal := by
  rw [leadTo_eq, List.mem_append, List.mem_append, List.mem_singleton]

namespace Declaration

variable {parent child : Declaration Act} {inherited scope : List String}

/-- What stands between a command and a subcommand is one of its usages, if it
is anything. -/
theorem between_eq_nil_or (parent child : Declaration Act) :
    parent.between child = [] ∨ ∃ main ∈ parent.usages, parent.between child = main.parameters := by
  unfold between
  split
  · next main rest _ husages => exact .inr ⟨main, by simp [husages], rfl⟩
  · exact .inl rfl

theorem Admits.isRequired_of_mem_between (h : parent.Admits child) {p : Parameter}
    (hp : p ∈ parent.between child) (hflag : p.isFlag = false) : p.isRequired = true := by
  unfold between at hp
  split at hp
  · next main rest hattachment husages =>
    obtain ⟨first, others, heq, hrequired⟩ := h hattachment
    rw [husages, List.cons.injEq] at heq
    obtain ⟨rfl, rfl⟩ := heq
    exact hrequired p (List.mem_filter.2 ⟨hp, by simp [hflag]⟩)
  · simp at hp

/-- No value of a usage is named like an inherited one. -/
theorem IsConsistent.name_not_mem_inherited {d : Declaration Act}
    (h : d.IsConsistent inherited scope) {usage : Usage Act} (husage : usage ∈ d.usages)
    {name : String} (hname : name ∈ valueNames usage.parameters) : name ∉ inherited := by
  obtain ⟨p, hp, hliteral, rfl⟩ := mem_valueNames.1 hname
  have hclash := h.unclashing usage husage p hp
  simp only [Parameter.clashes, hliteral, Bool.or_eq_false_iff] at hclash
  simpa using hclash.1

/-- The values that a subcommand inherits have names of their own. -/
theorem IsConsistent.nodup_inherited (h : parent.IsConsistent inherited scope)
    (hinherited : inherited.Nodup) (child : Declaration Act) :
    (inherited ++ valueNames (parent.between child)).Nodup := by
  rcases parent.between_eq_nil_or child with hnone | ⟨main, hmain, heq⟩
  · rw [hnone]
    simpa [valueNames] using hinherited
  · rw [heq, List.nodup_append]
    refine ⟨hinherited, (h.usages main hmain).nodup_valueNames, ?_⟩
    rintro name hname _ hvalue rfl
    exact h.name_not_mem_inherited hmain hvalue hname

end Declaration

/-- What a command is granted is handed on to its subcommands. -/
theorem Command.Stands.child {lead : List Parameter} {flags : List Flag}
    {command child : Command Act} (h : command.Stands lead flags)
    (hchild : child ∈ command.children) :
    child.Stands (leadTo lead command.toDeclaration child.toDeclaration)
      (flags ++ command.freeFlags.map Flag.freed) := by
  obtain ⟨hconsistent, -, hchildren⟩ := Command.verifyUnder_eq_ok_iff.1 h.verified
  obtain ⟨hadmits, hverified⟩ := hchildren child hchild
  have hscope : (flags ++ command.freeFlags.map Flag.freed).flatMap Flag.names =
      flags.flatMap Flag.names ++ command.toDeclaration.freeNames := by
    rw [List.flatMap_append, names_freed, Declaration.freeNames]
  refine ⟨?_, ?_, ?_, ?_⟩
  · rw [valueNames_leadTo, hscope]
    exact hverified
  · intro p hp hflag
    rcases mem_leadTo.1 hp with hp | hp | rfl
    · exact h.leadRequired p hp hflag
    · exact hadmits.isRequired_of_mem_between hp hflag
    · rfl
  · rw [valueNames_leadTo]
    exact hconsistent.nodup_inherited h.leadDistinct child.toDeclaration
  · rw [hscope, ← areNew_nil_iff, areNew_append_iff, areNew_nil_iff]
    exact ⟨h.flagsDistinct, hconsistent.freeNew⟩

/-! ## Sound nodes -/

/-- What holds of every node of a tree that is linked from a verified command. -/
structure Node.IsSound (node : Node Act) : Prop where
  usages : ∀ usage ∈ node.usages, usage.IsConsistent
  /-- No parameter of a usage is named like a value of the lead, and no flag like
  a free one in scope. -/
  unclashing : ∀ usage ∈ node.usages, ∀ p ∈ usage.parameters,
    p.clashes (valueNames node.lead) (node.scopeFlags.flatMap Flag.names) = false
  defaultEmpty : node.defaultUsage.parameters = []
  leadRequired : ∀ p ∈ node.lead, p.isFlag = false → p.isRequired = true
  leadDistinct : (valueNames node.lead).Nodup
  scopeDistinct : (node.scopeFlags.flatMap Flag.names).Nodup
  effective : node.effective = arrange (fun a b => b.ownLiterals ≤ a.ownLiterals)
    (EffectiveUsage.behind node.lead 0 node.usages)
  effectiveDefault : node.effectiveDefault = node.defaultUsage.behind node.lead
  /-- Names of subcommands differ by more than letter case. -/
  siblings : (node.children.flatMap fun child => child.names.map Text.smallLetters).Nodup
  childPath : ∀ child ∈ node.children, child.path = node.path ++ [child.name]

/-- A command that stands somewhere is linked to a sound node. -/
theorem Command.Stands.isSound {lead : List Parameter} {flags : List Flag} {command : Command Act}
    (h : command.Stands lead flags) (above : List String) :
    (command.linkUnder above lead flags).IsSound := by
  obtain ⟨hconsistent, hsiblings, -⟩ := Command.verifyUnder_eq_ok_iff.1 h.verified
  have hscope : (command.linkUnder above lead flags).scopeFlags.flatMap Flag.names =
      flags.flatMap Flag.names ++ command.toDeclaration.freeNames := by
    rw [scopeFlags_linkUnder, List.flatMap_append, names_freed, Declaration.freeNames]
  refine ⟨?_, ?_, ?_, ?_, ?_, ?_, ?_, ?_, ?_, ?_⟩
  · simpa using hconsistent.usages
  · rw [hscope]
    simpa using hconsistent.unclashing
  · simpa using hconsistent.defaultEmpty
  · simpa using h.leadRequired
  · simpa using h.leadDistinct
  · rw [hscope, ← areNew_nil_iff, areNew_append_iff, areNew_nil_iff]
    exact ⟨h.flagsDistinct, hconsistent.freeNew⟩
  · simp
  · simp
  · simpa [List.flatMap_map, siblingNames] using hsiblings
  · simp

/-- Whatever the way to a node below a command, the node is linked from a command
that stands there. -/
theorem Command.Stands.exists_of_descent {root node : Node Act} {trail : List (Node Act)}
    (hdescent : root.Descent trail node) {lead : List Parameter} {flags : List Flag}
    {above : List String} {command : Command Act} (h : command.Stands lead flags)
    (hroot : root = command.linkUnder above lead flags) :
    ∃ (below : Command Act) (lead : List Parameter) (flags : List Flag) (above : List String),
      below.Stands lead flags ∧ node = below.linkUnder above lead flags := by
  induction hdescent generalizing lead flags above command with
  | here node => exact ⟨command, lead, flags, above, h, hroot⟩
  | @down node child last trail hchild below ih =>
    rw [hroot, children_linkUnder, List.mem_map] at hchild
    obtain ⟨declared, hmem, hlinked⟩ := hchild
    exact ih (h.child hmem) hlinked.symm

/-- Every node of the tree is sound. -/
def Node.IsSoundTree (root : Node Act) : Prop :=
  ∀ (trail : List (Node Act)) (node : Node Act), root.Descent trail node → node.IsSound

/-- Every node of a tree that is linked from a verified command is sound. -/
theorem Command.isSoundTree_link {command : Command Act} (h : command.verify = .ok ()) :
    command.link.IsSoundTree := by
  intro trail node hdescent
  obtain ⟨below, lead, flags, above, hstands, rfl⟩ :=
    (Command.Stands.root h).exists_of_descent hdescent rfl
  exact hstands.isSound above

theorem Node.IsSoundTree.isSound {root : Node Act} (h : root.IsSoundTree) : root.IsSound :=
  h [] root (.here root)

theorem Node.IsSoundTree.child {root child : Node Act} (h : root.IsSoundTree)
    (hchild : child ∈ root.children) : child.IsSoundTree :=
  fun trail node hdescent => h (child :: trail) node (.down hchild hdescent)

/-- The path of a node is the path of the root and the names on the way. -/
theorem Node.IsSoundTree.path_eq {root node : Node Act} {trail : List (Node Act)}
    (h : root.IsSoundTree) (hdescent : root.Descent trail node) :
    node.path = root.path ++ trail.map fun passed => passed.name := by
  induction hdescent with
  | here node => simp
  | @down node child last trail hchild below ih =>
    rw [ih (h.child hchild), h.isSound.childPath child hchild, List.map_cons, List.append_assoc,
      List.singleton_append]

/-! ## Lookups -/

section Lookup

variable {α β : Type} {xs : List α} {x y : α}

/-- A search finds what alone passes its test. -/
theorem find?_eq_some_of_unique {test : α → Bool} (hx : x ∈ xs) (htest : test x = true)
    (hunique : ∀ y ∈ xs, test y = true → y = x) : xs.find? test = some x := by
  obtain ⟨y, hfound⟩ := Option.isSome_iff_exists.1 (List.find?_isSome.2 ⟨x, hx, htest⟩)
  rw [hfound, hunique y (List.mem_of_find?_eq_some hfound) (List.find?_some hfound)]

/-- Where all keys are different, a key belongs to one entry. -/
theorem eq_of_mem_of_nodup_flatMap {keys : α → List β} (h : (xs.flatMap keys).Nodup)
    (hx : x ∈ xs) (hy : y ∈ xs) {key : β} (hkey : key ∈ keys x) (hother : key ∈ keys y) :
    x = y := by
  have hsymm : Std.Symm (Function.onFun List.Disjoint keys) :=
    ⟨fun _ _ hdisjoint _ hfirst hsecond => hdisjoint hsecond hfirst⟩
  by_contra hne
  exact (List.nodup_flatMap.1 h).2.forall hx hy hne hkey hother

end Lookup

/-! ## Finding subcommands -/

theorem Declaration.answersTo_name (d : Declaration Act) (exact : Bool) :
    d.answersTo d.name exact = true := by
  refine List.any_eq_true.2 ⟨d.name, List.mem_cons_self, ?_⟩
  cases exact with
  | true => simp [Text.sameWord]
  | false => exact Text.sameFolded_iff.2 rfl

/-- A command answers only to words that are one of its names, letter case apart. -/
theorem Declaration.smallLetters_mem_of_answersTo {d : Declaration Act} {word : String}
    {exact : Bool} (h : d.answersTo word exact = true) :
    Text.smallLetters word ∈ d.names.map Text.smallLetters := by
  obtain ⟨name, hname, hsame⟩ := List.any_eq_true.1 h
  have hletters : Text.smallLetters name = Text.smallLetters word := by
    cases exact with
    | true =>
      have heq : name = word := by simpa [Text.sameWord] using hsame
      rw [heq]
    | false =>
      have hfolded : Text.folded name = Text.folded word := Text.sameFolded_iff.1 hsame
      rw [Text.smallLetters, hfolded, Text.smallLetters]
  exact hletters ▸ List.mem_map_of_mem hname

/-- Of subcommands with distinct names, only one answers to a word. -/
theorem find?_answersTo {children : List (Node Act)} {child : Node Act} {word : String}
    {exact : Bool}
    (hdistinct : (children.flatMap fun child => child.names.map Text.smallLetters).Nodup)
    (hchild : child ∈ children) (hword : child.answersTo word exact = true) :
    children.find? (fun child => child.answersTo word exact) = some child := by
  apply find?_eq_some_of_unique hchild hword
  intro other hother hanswers
  exact eq_of_mem_of_nodup_flatMap hdistinct hother hchild
    (Declaration.smallLetters_mem_of_answersTo hanswers)
    (Declaration.smallLetters_mem_of_answersTo hword)

theorem Node.IsSound.child?_eq_some {node child : Node Act} (h : node.IsSound)
    (hchild : child ∈ node.children) {word : String} {exact : Bool}
    (hword : child.answersTo word exact = true) : node.child? word exact = some child :=
  find?_answersTo h.siblings hchild hword

end Parlance
