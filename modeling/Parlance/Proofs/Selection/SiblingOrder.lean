import Parlance.Proofs.Completion.Offering
import Parlance.Proofs.Rows
import Parlance.Proofs.Selection.Priority

/-!
# Order of subcommands

A walk goes into the first subcommand that is reached. Where all subcommands stand right
behind their parents, and no token begins with a dash, they all ask the same token for
their word, and as names of siblings differ by more than letter case, only one can have
it. So the order of subcommands, at whatever depth, decides nothing
(`Matcher.select_rearranged`).
-/

set_option autoImplicit false

namespace Parlance

variable {Act : Type}

/-! ## Trees in another order -/

namespace Command

/-- The commands differ only in the order of subcommands, at whatever depth. -/
inductive Rearranged : Command Act → Command Act → Prop where
  | mk {d : Declaration Act} {xs ys zs : List (Command Act)}
      (hchildren : List.Forall₂ Rearranged xs ys) (horder : ys.Perm zs) :
      Rearranged ⟨d, xs⟩ ⟨d, zs⟩

/-- The command and all those below it are to stand right behind their parents. -/
def IsDirect (command : Command Act) : Prop :=
  ∀ (above : List (Command Act)) (node : Command Act), command.Passage above node →
    node.attachment = .direct

variable {command other : Command Act}

theorem isDirect_iff : command.IsDirect ↔
    command.attachment = .direct ∧ ∀ child ∈ command.children, child.IsDirect :=
  forall_passage_iff

theorem Rearranged.toDeclaration_eq (h : command.Rearranged other) :
    command.toDeclaration = other.toDeclaration := by
  cases h
  rfl

theorem Rearranged.exists_child (h : command.Rearranged other) {child : Command Act}
    (hchild : child ∈ command.children) :
    ∃ moved ∈ other.children, child.Rearranged moved := by
  cases h with
  | mk hchildren horder =>
    obtain ⟨moved, hmoved, hrearranged⟩ := exists_of_mem_forall₂ hchildren hchild
    exact ⟨moved, horder.mem_iff.1 hmoved, hrearranged⟩

theorem Rearranged.exists_origin (h : command.Rearranged other) {moved : Command Act}
    (hmoved : moved ∈ other.children) :
    ∃ child ∈ command.children, child.Rearranged moved := by
  cases h with
  | mk hchildren horder =>
    exact exists_of_mem_forall₂ hchildren.flip (horder.mem_iff.2 hmoved)

end Command

/-! ## Nodes without their subcommands -/

/-- The node with its subcommands left out. -/
def Node.bare (node : Node Act) : Node Act :=
  { node with children := [] }

/-- The selection with the subcommands of its node left out. -/
def Selection.bare : Selection Act → Selection Act
  | complete node usage => complete node.bare usage
  | incomplete node => incomplete node.bare
  | failure root => failure root.bare

theorem Command.Rearranged.bare_linkUnder {command other : Command Act}
    (h : command.Rearranged other) (above : List String) (lead : List Parameter)
    (flags : List Flag) :
    (command.linkUnder above lead flags).bare = (other.linkUnder above lead flags).bare := by
  cases h
  rfl

theorem Search.map_orElse {α β : Type} (f : α → β) (first : Search α) (second : Unit → Search α) :
    (first.orElse second).map f = (first.map f).orElse fun _ => (second ()).map f := by
  obtain ⟨found, accepted⟩ := first
  cases found <;> rfl

theorem Search.accepted_map {α β : Type} (f : α → β) (search : Search α) :
    (search.map f).accepted = search.accepted :=
  rfl

namespace Matcher

variable {m : Matcher} {tokens : List String}

/-- Which usages of a node match does not depend on its subcommands. -/
theorem tryUsages_bare (node : Node Act) (es : List (EffectiveUsage Act)) :
    m.tryUsages node.bare tokens es = m.tryUsages node tokens es := by
  induction es with
  | nil => rfl
  | cons e es ih =>
    rw [tryUsages, tryUsages, ih]
    rfl

theorem reach?_eq_of_bare {x y : Node Act} (h : x.bare = y.bare) :
    m.reach? x tokens = m.reach? y tokens := by
  show m.reach? x.bare tokens = m.reach? y.bare tokens
  rw [h]

/-- What comes of going into a subcommand that is reached. -/
def enter (m : Matcher) (tokens : List String) (child : Node Act) : Search (Selection Act) where
  found := some ((m.walk tokens child).found.getD (.incomplete child))
  accepted := (m.reach? child tokens).toList ++ (m.walk tokens child).accepted

theorem walkAll_eq (children : List (Node Act)) :
    m.walkAll tokens children =
      ((children.find? fun child => (m.reach? child tokens).isSome).map
        (m.enter tokens)).getD {} := by
  induction children with
  | nil => rfl
  | cons child children ih =>
    rw [walkAll, List.find?_cons]
    cases hreach : m.reach? child tokens with
    | none => exact ih
    | some literal => simp [enter, hreach]

/-! ## Subcommands that are reached -/

variable {lead : List Parameter} {flags : List Flag} {command other : Command Act}

/-- Tokens that reach a subcommand right behind its parent have its word where the lead
of the parent ends. -/
theorem exists_word_of_reach {child : Command Act} (hdirect : child.attachment = .direct)
    {path : List String} {scope : List Flag} {parent : Declaration Act}
    (htokens : ∀ token ∈ tokens, IsUndashed token)
    (hreach : (m.reach? (child.linkUnder path (leadTo lead parent child.toDeclaration) scope)
      tokens).isSome = true) :
    ∃ word, tokens[(lead.filter fun p => !p.isFlag).length]? = some word ∧
      child.answersTo word m.exact = true := by
  have hbetween : parent.between child.toDeclaration = [] := by
    unfold Declaration.between
    rw [hdirect]
  obtain ⟨literal, hliteral⟩ := Option.isSome_iff_exists.1 hreach
  obtain ⟨hlength, haccepts⟩ := acceptsAll_of_reach hliteral
  rw [TokenSplit.positional_of_undashed _ htokens, Command.positionalLead_leadTo, hbetween,
    List.append_nil] at hlength haccepts
  generalize lead.filter (fun p => !p.isFlag) = front at hlength haccepts ⊢
  rw [List.length_append, List.length_singleton] at hlength
  have hlt : front.length < tokens.length := by omega
  have hmem : (child.toDeclaration.literal, tokens[front.length]) ∈
      (front ++ [child.toDeclaration.literal]).zip tokens := by
    rw [List.mem_iff_getElem?]
    exact ⟨front.length, List.getElem?_zip_eq_some.2
      ⟨List.getElem?_concat_length, List.getElem?_eq_getElem hlt⟩⟩
  exact ⟨tokens[front.length], List.getElem?_eq_getElem hlt, List.all_eq_true.1 haccepts _ hmem⟩

/-- The tokens reach at most one of the nodes. -/
def ReachesAtMostOne (m : Matcher) (tokens : List String) (nodes : List (Node Act)) : Prop :=
  ∀ x ∈ nodes, ∀ y ∈ nodes, (m.reach? x tokens).isSome = true →
    (m.reach? y tokens).isSome = true → x = y

/-- Of the subcommands of one command, tokens reach at most one. -/
theorem reachesAtMostOne_children (hstands : command.Stands lead flags)
    (hdirect : ∀ child ∈ command.children, child.attachment = .direct) (above : List String)
    (htokens : ∀ token ∈ tokens, IsUndashed token) :
    m.ReachesAtMostOne tokens (command.linkUnder above lead flags).children := by
  have hword : ∀ child ∈ (command.linkUnder above lead flags).children,
      (m.reach? child tokens).isSome = true →
      ∃ word, tokens[(lead.filter fun p => !p.isFlag).length]? = some word ∧
        child.answersTo word m.exact = true := by
    intro child hchild hreach
    rw [Command.children_linkUnder, List.mem_map] at hchild
    obtain ⟨declared, hmem, rfl⟩ := hchild
    rw [Command.toDeclaration_linkUnder]
    exact exists_word_of_reach (hdirect declared hmem) htokens hreach
  intro x hx y hy hreachX hreachY
  obtain ⟨word, htoken, hanswersX⟩ := hword x hx hreachX
  obtain ⟨word', htoken', hanswersY⟩ := hword y hy hreachY
  obtain rfl : word = word' := Option.some.inj (htoken.symm.trans htoken')
  exact eq_of_mem_of_nodup_flatMap (hstands.isSound above).siblings hx hy
    (Declaration.smallLetters_mem_of_answersTo hanswersX)
    (Declaration.smallLetters_mem_of_answersTo hanswersY)

/-- A walk goes into the one node that is reached, wherever it stands. -/
theorem ReachesAtMostOne.walkAll_eq {nodes : List (Node Act)} (h : m.ReachesAtMostOne tokens nodes)
    {child : Node Act} (hchild : child ∈ nodes)
    (hreach : (m.reach? child tokens).isSome = true) :
    m.walkAll tokens nodes = m.enter tokens child := by
  have hfind : nodes.find? (fun child => (m.reach? child tokens).isSome) = some child := by
    apply find?_eq_some_of_unique hchild hreach
    intro sibling hsibling hreached
    exact h sibling hsibling child hchild hreached hreach
  rw [Matcher.walkAll_eq, hfind]
  rfl

theorem walkAll_eq_of_not_reach {nodes : List (Node Act)}
    (h : ∀ child ∈ nodes, ¬ (m.reach? child tokens).isSome = true) :
    m.walkAll tokens nodes = {} := by
  rw [walkAll_eq, List.find?_eq_none.2 h]
  rfl

/-! ## Walks -/

theorem tryUsages_map_bare {node node' : Node Act} (h : node.bare = node'.bare)
    (kind : EffectiveUsage Act → Bool) :
    ((m.tryUsages node tokens (node.effective.filter kind)).map (Selection.complete node)).map
        Selection.bare =
      ((m.tryUsages node' tokens (node'.effective.filter kind)).map (Selection.complete node')).map
        Selection.bare := by
  have hbare : ∀ node : Node Act,
      ((m.tryUsages node tokens (node.effective.filter kind)).map (Selection.complete node)).map
          Selection.bare =
        (m.tryUsages node.bare tokens (node.bare.effective.filter kind)).map
          (Selection.complete node.bare) := by
    intro node
    rw [tryUsages_bare]
    simp only [Search.map, Option.map_map]
    rfl
  rw [hbare node, hbare node', h]

theorem enter_map_bare {x y : Node Act} (h : x.bare = y.bare)
    (hwalk : (m.walk tokens x).map Selection.bare = (m.walk tokens y).map Selection.bare) :
    (m.enter tokens x).map Selection.bare = (m.enter tokens y).map Selection.bare := by
  have hfound : (m.walk tokens x).found.map Selection.bare =
      (m.walk tokens y).found.map Selection.bare := congrArg Search.found hwalk
  have haccepted : (m.walk tokens x).accepted = (m.walk tokens y).accepted := by
    rw [← Search.accepted_map Selection.bare, hwalk, Search.accepted_map]
  have hreach : m.reach? x tokens = m.reach? y tokens := reach?_eq_of_bare h
  have hgetD : ∀ child : Node Act,
      Selection.bare ((m.walk tokens child).found.getD (.incomplete child)) =
        ((m.walk tokens child).found.map Selection.bare).getD (.incomplete child.bare) := by
    intro child
    rw [← Selection.bare, Option.getD_map]
  simp only [enter, Search.map, Option.map_some, hgetD, hfound, haccepted, hreach, h]

/-- Nodes that pair off are walked through alike if they are alike and are walked alike, and
at most one of them is reached on either side. -/
theorem walkAll_map_bare {xs ys : List (Node Act)} (hxs : m.ReachesAtMostOne tokens xs)
    (hys : m.ReachesAtMostOne tokens ys)
    (hforth : ∀ x ∈ xs, ∃ y ∈ ys, x.bare = y.bare ∧
      (m.walk tokens x).map Selection.bare = (m.walk tokens y).map Selection.bare)
    (hback : ∀ y ∈ ys, ∃ x ∈ xs, x.bare = y.bare) :
    (m.walkAll tokens xs).map Selection.bare = (m.walkAll tokens ys).map Selection.bare := by
  by_cases hreached : ∃ x ∈ xs, (m.reach? x tokens).isSome = true
  · obtain ⟨x, hx, hreachX⟩ := hreached
    obtain ⟨y, hy, hbare, hwalk⟩ := hforth x hx
    rw [hxs.walkAll_eq hx hreachX, hys.walkAll_eq hy (reach?_eq_of_bare hbare ▸ hreachX)]
    exact enter_map_bare hbare hwalk
  · have hnoneX : ∀ x ∈ xs, ¬ (m.reach? x tokens).isSome = true :=
      fun x hx hreachX => hreached ⟨x, hx, hreachX⟩
    have hnoneY : ∀ y ∈ ys, ¬ (m.reach? y tokens).isSome = true := by
      intro y hy
      obtain ⟨x, hx, hbare⟩ := hback y hy
      rw [← reach?_eq_of_bare hbare]
      exact hnoneX x hx
    rw [walkAll_eq_of_not_reach hnoneX, walkAll_eq_of_not_reach hnoneY]

/-- A walk finds the same and notes the same, whatever the order of subcommands. -/
theorem walk_map_bare (h : command.Rearranged other) (hstands : command.Stands lead flags)
    (hother : other.Stands lead flags) (hdirect : command.IsDirect) (above : List String)
    (htokens : ∀ token ∈ tokens, IsUndashed token) :
    (m.walk tokens (command.linkUnder above lead flags)).map Selection.bare =
      (m.walk tokens (other.linkUnder above lead flags)).map Selection.bare := by
  induction command using Command.induct generalizing other above lead flags with
  | step command ih =>
    have hbare := h.bare_linkUnder above lead flags
    have hsame := h.toDeclaration_eq
    have hchildren := (Command.isDirect_iff.1 hdirect).2
    have hattachment : ∀ child ∈ command.children, child.attachment = .direct :=
      fun child hchild => (Command.isDirect_iff.1 (hchildren child hchild)).1
    have hattachment' : ∀ moved ∈ other.children, moved.attachment = .direct := by
      intro moved hmoved
      obtain ⟨child, hchild, hrearranged⟩ := h.exists_origin hmoved
      rw [← hrearranged.toDeclaration_eq]
      exact hattachment child hchild
    have hbelow : (m.walkAll tokens (command.linkUnder above lead flags).children).map
          Selection.bare =
        (m.walkAll tokens (other.linkUnder above lead flags).children).map Selection.bare := by
      apply walkAll_map_bare (reachesAtMostOne_children hstands hattachment above htokens)
        (reachesAtMostOne_children hother hattachment' above htokens)
      · rw [Command.children_linkUnder, Command.children_linkUnder, List.forall_mem_map, ← hsame]
        intro child hchild
        obtain ⟨moved, hmoved, hrearranged⟩ := h.exists_child hchild
        have hstandsMoved := hother.child hmoved
        rw [← hsame, ← hrearranged.toDeclaration_eq] at hstandsMoved
        refine ⟨_, List.mem_map_of_mem hmoved, ?_⟩
        rw [← hrearranged.toDeclaration_eq]
        exact ⟨hrearranged.bare_linkUnder _ _ _, ih child hchild hrearranged
          (hstands.child hchild) hstandsMoved (hchildren child hchild) _⟩
      · rw [Command.children_linkUnder, Command.children_linkUnder, List.forall_mem_map, ← hsame]
        intro moved hmoved
        obtain ⟨child, hchild, hrearranged⟩ := h.exists_origin hmoved
        refine ⟨_, List.mem_map_of_mem hchild, ?_⟩
        rw [hrearranged.toDeclaration_eq]
        exact hrearranged.bare_linkUnder _ _ _
    rw [walk_eq, walk_eq, Search.map_orElse, Search.map_orElse, Search.map_orElse,
      Search.map_orElse, Node.literalUsages, Node.literalUsages, Node.valueUsages,
      Node.valueUsages, tryUsages_map_bare hbare, tryUsages_map_bare hbare, hbelow]

end Matcher

/-! ## Selections -/

namespace Selection

/-- How far the tokens got. -/
inductive Kind where
  | complete
  | incomplete
  | failure
  deriving DecidableEq, Repr

def kind : Selection Act → Kind
  | complete _ _ => .complete
  | incomplete _ => .incomplete
  | failure _ => .failure

/-- The usage that the tokens match, with its place among the declared ones. A default usage
has none. -/
def entry? (m : Matcher) (tokens : List String) : Selection Act → Option (EffectiveUsage Act)
  | complete node _ => (node.literalUsages ++ node.valueUsages).find? fun e =>
      (m.tryUsage node tokens e.usage).found.isSome
  | incomplete _ => none
  | failure _ => none

variable {m : Matcher} {tokens : List String} {selection : Selection Act}

theorem kind_bare : selection.bare.kind = selection.kind := by
  cases selection <;> rfl

theorem path_bare : selection.bare.node.path = selection.node.path := by
  cases selection <;> rfl

theorem usage?_bare : selection.bare.usage? = selection.usage? := by
  cases selection <;> rfl

theorem entry?_bare : selection.bare.entry? m tokens = selection.entry? m tokens := by
  cases selection <;> rfl

end Selection

namespace Matcher

variable {m : Matcher} {tokens : List String}

/-- A selected usage is the one that the tokens match, or the default usage of the root. -/
theorem entry?_select_of_complete {root node : Node Act} {usage : Usage Act}
    (h : (m.select root tokens).selection = .complete node usage) :
    (∃ e ∈ node.effective, (m.select root tokens).selection.entry? m tokens = some e ∧
      e.usage = usage) ∨ (node = root ∧ usage = root.effectiveDefault) := by
  have hsettles := m.settles_selection root tokens
  rw [h] at hsettles ⊢
  cases hsettles with
  | default hnothing htokens => exact .inr ⟨rfl, rfl⟩
  | below hprefers =>
    cases hprefers with
    | @usage node first way hfirst hback =>
      left
      rw [Selection.entry?, List.find?_append]
      rcases Nat.eq_zero_or_pos first.ownLiterals with hzero | hpos
      · have hwords := literalUsages_found_eq_none_iff.2 (hback hzero).1
        have hvalue := valueUsages_found_eq_some_iff.2 ⟨first, rfl, hzero, hfirst⟩
        rw [tryUsages_found_eq, Option.map_eq_none_iff] at hwords
        rw [tryUsages_found_eq, Option.map_eq_some_iff] at hvalue
        obtain ⟨e, hfind, husage⟩ := hvalue
        rw [hwords, Option.none_or]
        exact ⟨e, List.mem_of_mem_filter (List.mem_of_find?_eq_some hfind), hfind, husage⟩
      · have hliteral := literalUsages_found_eq_some_iff.2 ⟨first, rfl, hpos, hfirst⟩
        rw [tryUsages_found_eq, Option.map_eq_some_iff] at hliteral
        obtain ⟨e, hfind, husage⟩ := hliteral
        rw [hfind, Option.some_or]
        exact ⟨e, List.mem_of_mem_filter (List.mem_of_find?_eq_some hfind), rfl, husage⟩

theorem bare_select_eq {root root' : Node Act} (h : root.bare = root'.bare)
    (hwalk : (m.walk tokens root).map Selection.bare = (m.walk tokens root').map Selection.bare) :
    (m.select root tokens).selection.bare = (m.select root' tokens).selection.bare := by
  let otherwise (root : Node Act) : Selection Act :=
    if (TokenSplit.ofTokens root.flagsOnPath tokens).positional.isEmpty then
      .complete root root.effectiveDefault else .failure root
  have hotherwise : (otherwise root).bare = (otherwise root').bare := by
    have hbare : ∀ root : Node Act, (otherwise root).bare = otherwise root.bare := by
      intro root
      exact apply_ite Selection.bare _ _ _
    rw [hbare, hbare, h]
  have hfound : (m.walk tokens root).found.map Selection.bare =
      (m.walk tokens root').found.map Selection.bare := congrArg Search.found hwalk
  have hgetD : ∀ root : Node Act, (m.select root tokens).selection.bare =
      ((m.walk tokens root).found.map Selection.bare).getD (otherwise root).bare := by
    intro root
    rw [selection_eq_getD, Option.getD_map]
  rw [hgetD, hgetD, hfound, hotherwise]

/-- In the tree of a verified command whose subcommands all stand right behind their
parents, tokens without dashes select the same and note the same last match, in whatever
order subcommands stand, at whatever depth. -/
theorem select_rearranged (m : Matcher) {command other : Command Act}
    (h : command.Rearranged other) (hverify : command.verify = .ok ())
    (hother : other.verify = .ok ()) (hdirect : command.IsDirect) {tokens : List String}
    (htokens : ∀ token ∈ tokens, IsUndashed token) :
    let found := m.select command.link tokens
    let found' := m.select other.link tokens
    found.selection.kind = found'.selection.kind ∧
    found.selection.node.path = found'.selection.node.path ∧
    found.selection.usage? = found'.selection.usage? ∧
    found.selection.entry? m tokens = found'.selection.entry? m tokens ∧
    (∀ node usage, found.selection = .complete node usage →
      (∃ e ∈ node.effective, found.selection.entry? m tokens = some e ∧ e.usage = usage) ∨
        (node = command.link ∧ usage = command.link.effectiveDefault)) ∧
    found.lastMatched = found'.lastMatched := by
  intro found found'
  have hwalk : (m.walk tokens command.link).map Selection.bare =
      (m.walk tokens other.link).map Selection.bare :=
    walk_map_bare h (.root hverify) (.root hother) hdirect [] htokens
  have hselection : found.selection.bare = found'.selection.bare :=
    bare_select_eq (h.bare_linkUnder [] [] []) hwalk
  have haccepted : (m.walk tokens command.link).accepted = (m.walk tokens other.link).accepted := by
    rw [← Search.accepted_map Selection.bare, hwalk, Search.accepted_map]
  refine ⟨?_, ?_, ?_, ?_, fun _ _ => entry?_select_of_complete, congrArg deepest haccepted⟩
  · rw [← Selection.kind_bare, hselection, Selection.kind_bare]
  · rw [← Selection.path_bare, hselection, Selection.path_bare]
  · rw [← Selection.usage?_bare, hselection, Selection.usage?_bare]
  · rw [← Selection.entry?_bare, hselection, Selection.entry?_bare]

/-- A gate that can be shut for a while, or opened. -/
def gating (children : List (Command Unit)) : Command Unit where
  name := "gate"
  children := children

def shutting : Command Unit where
  name := "shut"
  usages := [.ofParameters [{ name := "minutes", kind := .required .integer }]]

/-- A garden with a gate and a pond. -/
def gardening : Command Unit where
  name := "garden"
  children := [gating [shutting, { name := "open" }], { name := "pond", aliases := ["pool"] }]

/-- The same garden with all subcommands in another order. -/
def gardeningAround : Command Unit where
  name := "garden"
  children := [{ name := "pond", aliases := ["pool"] }, gating [{ name := "open" }, shutting]]

/-- The gate is shut in either garden, with the first usage for that. -/
theorem select_rearranged_gardening :
    let tokens := ["GATE", "shut", "5"]
    let found := select {} gardening.link tokens
    let found' := select {} gardeningAround.link tokens
    gardening.Rearranged gardeningAround ∧
    found'.selection.kind = .complete ∧
    found'.selection.node.path = ["garden", "gate", "shut"] ∧
    (found'.selection.entry? {} tokens).map EffectiveUsage.declaredIndex = some 0 ∧
    found.selection.entry? {} tokens = found'.selection.entry? {} tokens ∧
    found.lastMatched = found'.lastMatched := by
  intro tokens found found'
  have hleaf : ∀ d : Declaration Unit, Command.Rearranged ⟨d, []⟩ ⟨d, []⟩ :=
    fun d => .mk .nil (.refl _)
  have hgate : (gating [shutting, { name := "open" }]).Rearranged
      (gating [{ name := "open" }, shutting]) :=
    .mk (.cons (hleaf _) (.cons (hleaf _) .nil)) (.swap _ _ _)
  have hgarden : gardening.Rearranged gardeningAround :=
    .mk (.cons hgate (.cons (hleaf _) .nil)) (.swap _ _ _)
  have hleafDirect : ∀ d : Declaration Unit, d.attachment = .direct →
      Command.IsDirect ⟨d, []⟩ := fun d hown => Command.isDirect_iff.2 ⟨hown, by simp⟩
  have hgateDirect : (gating [shutting, { name := "open" }]).IsDirect :=
    Command.isDirect_iff.2 ⟨rfl, List.forall_mem_cons.2
      ⟨hleafDirect _ rfl, List.forall_mem_singleton.2 (hleafDirect _ rfl)⟩⟩
  have hdirect : gardening.IsDirect :=
    Command.isDirect_iff.2 ⟨rfl, List.forall_mem_cons.2
      ⟨hgateDirect, List.forall_mem_singleton.2 (hleafDirect _ rfl)⟩⟩
  have htokens : ∀ token ∈ tokens, IsUndashed token := by decide
  obtain ⟨hkind, hpath, -, hentry, -, hlast⟩ :=
    select_rearranged {} hgarden rfl rfl hdirect htokens
  refine ⟨hgarden, ?_, ?_, ?_, hentry, hlast⟩
  · rw [← hkind]
    rfl
  · rw [← hpath]
    rfl
  · rw [← hentry]
    decide

end Matcher

end Parlance
