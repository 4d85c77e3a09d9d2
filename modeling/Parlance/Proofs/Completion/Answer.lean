import Parlance.Engine.Suggest
import Parlance.Proofs.Selection.Finding

/-!
# What an answer is made of

The answer of a completion holds the candidates of the root, and these are put
together node by node: the usages of a node offer parameters and flags, unless a
flag waits for its value, and a subcommand offers its word or what lies below it.
-/

set_option autoImplicit false

namespace Parlance

variable {Act : Type}

/-- The source holds every permission there is. -/
def Source.HoldsAll (source : Source) : Prop :=
  ∀ permission, source.holds permission = true

theorem Source.HoldsAll.mayUse {source : Source} (h : source.HoldsAll)
    (permission : Option String) : source.mayUse permission = true := by
  cases permission with
  | none => rfl
  | some permission => exact h permission

namespace Completion

/-- The request for completions of the last of the tokens. -/
def ofTokens (matcher : Matcher) (config : Config) (source : Source) (tokens : List String) :
    Completion :=
  let (done, start) := Engine.splitLast tokens
  { matcher, config, source, done, start }

theorem ofTokens_concat (matcher : Matcher) (config : Config) (source : Source)
    (done : List String) (start : String) :
    ofTokens matcher config source (done ++ [start]) = { matcher, config, source, done, start } := by
  simp [ofTokens, Engine.splitLast]

/-- What an engine suggests behind a label is the answer to the request, if the root
may be offered at all. -/
theorem suggest_eq (engine : Engine Act) (source : Source) {label : String} {root : Node Act}
    (hroot : engine.command? label = some root) (tokens : List String) :
    engine.suggest source label tokens =
      if engine.isVisible source root then
        (ofTokens engine.matcher engine.config source tokens).answer root
      else [] := by
  rw [Engine.suggest, hroot]
  rfl

/-! ## The answer -/

variable {c : Completion}

/-- Where any number of completions may be given for a new token, all candidates are. -/
theorem mem_answer_iff (hlimit : c.config.maxSuggestions = 0) (hstart : c.start = "")
    {root : Node Act} {word : String} : word ∈ c.answer root ↔ word ∈ c.ofNode root := by
  rw [answer, Config.limit, if_pos hlimit, List.mem_eraseDups, List.mem_filter, hstart,
    Text.beginsFolded_empty, and_iff_left rfl]

/-! ## Nodes -/

theorem ofNode_eq (c : Completion) (node : Node Act) : c.ofNode node =
    match c.pending node (c.offered node) with
    | [] =>
      (c.offered node).flatMap (c.ofUsage node) ++ c.ofChildren (c.filters node) node.children
    | waiting => (waiting.filterMap Flag.type).flatMap c.ofType := by
  cases node
  unfold ofNode
  rfl

/-- Where no flag waits for its value, a node offers what its usages and its
subcommands offer. -/
theorem ofNode_of_pending_eq_nil {node : Node Act} (h : c.pending node (c.offered node) = []) :
    c.ofNode node =
      (c.offered node).flatMap (c.ofUsage node) ++ c.ofChildren (c.filters node) node.children := by
  rw [ofNode_eq, h]

/-- To a source with all permissions a node offers all its usages. -/
theorem offered_eq (h : c.source.HoldsAll) (node : Node Act) :
    c.offered node = node.effective.map EffectiveUsage.usage := by
  rw [offered, List.filter_eq_self]
  intro usage husage
  rw [h.mayUse, Bool.or_true]

/-- What is offered for one subcommand. -/
def ofChild (c : Completion) (filter : Bool) (child : Node Act) : List String :=
  let positional := (TokenSplit.ofTokens child.flagsOnPath c.done).positional
  match child.literalSlot? with
  | none => []
  | some slot =>
    if filter && !c.source.mayUse child.permission then []
    else if !c.matcher.acceptsAll child.positionalLead positional then []
    else if positional.length = slot then child.names
    else if slot < positional.length then c.ofNode child
    else []

theorem ofChildren_eq (c : Completion) (filter : Bool) (children : List (Node Act)) :
    c.ofChildren filter children = children.flatMap (c.ofChild filter) := by
  induction children with
  | nil => rfl
  | cons child children ih =>
    rw [ofChildren, ih, List.flatMap_cons]
    rfl

/-- A node offers what is offered for one of its subcommands, unless a flag waits for
its value. -/
theorem mem_ofNode_of_child {node child : Node Act}
    (hpending : c.pending node (c.offered node) = []) (hchild : child ∈ node.children)
    {word : String} (hword : word ∈ c.ofChild (c.filters node) child) : word ∈ c.ofNode node := by
  rw [ofNode_of_pending_eq_nil hpending, ofChildren_eq]
  exact List.mem_append_right _ (List.mem_flatMap.2 ⟨child, hchild, hword⟩)

section OfChild

variable {filter : Bool} {child : Node Act} {slot : Nat}

/-- Behind tokens that the parameters in front of its word accept, a subcommand offers
its word. -/
theorem ofChild_of_length_eq (hsource : c.source.HoldsAll)
    (hslot : child.literalSlot? = some slot)
    (haccepts : c.matcher.acceptsAll child.positionalLead
      (TokenSplit.ofTokens child.flagsOnPath c.done).positional = true)
    (hlength : (TokenSplit.ofTokens child.flagsOnPath c.done).positional.length = slot) :
    c.ofChild filter child = child.names := by
  simp [ofChild, hslot, hsource.mayUse, haccepts, hlength]

/-- A subcommand that the tokens reach offers what it offers as a node. -/
theorem ofChild_of_reach (hsource : c.source.HoldsAll)
    (hreach : (c.matcher.reach? child c.done).isSome = true) :
    c.ofChild filter child = c.ofNode child := by
  obtain ⟨slot, hslot, hlength, haccepts⟩ := Matcher.isSome_reach?_iff.1 hreach
  simp [ofChild, hslot, hsource.mayUse, haccepts, hlength, Nat.ne_of_gt hlength]

end OfChild

end Completion

end Parlance
