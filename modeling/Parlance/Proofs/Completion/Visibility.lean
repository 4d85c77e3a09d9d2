import Parlance.Proofs.Completion.Answer

/-!
# What completions keep from a source

Where completions are filtered, usages and subcommands that the source may not use are
held back, unless the node above them says otherwise. Nothing of what is held back shows:
with it cut off, every answer is the same, candidate by candidate, whether a flag waits
for its value or the answer is cut short (`Engine.suggest_noninterfering`).
-/

set_option autoImplicit false

namespace Parlance

variable {Act : Type}

/-! ## Trees with something cut off -/

mutual

/-- The tree without the usages and subcommands that the source may not use. A node that
ignores permissions keeps its own. -/
def Node.visibleTo (source : Source) : Node Act → Node Act
  | ⟨d, path, lead, scopeFlags, effective, effectiveDefault, children⟩ =>
    { d with
      path, lead, scopeFlags, effectiveDefault
      effective := effective.filter fun e =>
        d.ignoresPermission || source.mayUse e.usage.permission
      children := Node.visibleAll source d.ignoresPermission children }

/-- The subcommands that the source may use, or all of them, each with the same cut off. -/
def Node.visibleAll (source : Source) (all : Bool) : List (Node Act) → List (Node Act)
  | [] => []
  | child :: children =>
    if all || source.mayUse child.permission then
      child.visibleTo source :: Node.visibleAll source all children
    else Node.visibleAll source all children

end

/-- The usage without its place, its description and its action. -/
def EffectiveUsage.outline (e : EffectiveUsage Act) : EffectiveUsage Act where
  usage := { parameters := e.usage.parameters, permission := e.usage.permission }
  declaredIndex := 0
  ownLiterals := 0

mutual

/-- The tree without what completions do not go by: paths, descriptions, what was
declared before it was linked, and default usages. -/
def Node.outline : Node Act → Node Act
  | ⟨d, _, lead, scopeFlags, effective, _, children⟩ =>
    { name := d.name
      aliases := d.aliases
      permission := d.permission
      ignoresPermission := d.ignoresPermission
      lead, scopeFlags
      effective := effective.map EffectiveUsage.outline
      children := Node.outlineAll children }

/-- Subcommands without what completions do not go by. -/
def Node.outlineAll : List (Node Act) → List (Node Act)
  | [] => []
  | child :: children => child.outline :: Node.outlineAll children

end

namespace Node

variable (source : Source) (node : Node Act)

@[simp] theorem toDeclaration_visibleTo :
    (node.visibleTo source).toDeclaration = node.toDeclaration := by
  cases node; rfl

@[simp] theorem lead_visibleTo : (node.visibleTo source).lead = node.lead := by
  cases node; rfl

@[simp] theorem scopeFlags_visibleTo : (node.visibleTo source).scopeFlags = node.scopeFlags := by
  cases node; rfl

@[simp] theorem effective_visibleTo : (node.visibleTo source).effective =
    node.effective.filter fun e => node.ignoresPermission || source.mayUse e.usage.permission := by
  cases node; rfl

theorem visibleAll_eq (all : Bool) (children : List (Node Act)) :
    visibleAll source all children =
      (children.filter fun child => all || source.mayUse child.permission).map
        (visibleTo source) := by
  induction children with
  | nil => rfl
  | cons child children ih =>
    rw [visibleAll, ih]
    split
    · next h => simp [h]
    · next h => simp [h]

@[simp] theorem children_visibleTo : (node.visibleTo source).children =
    (node.children.filter fun child =>
      node.ignoresPermission || source.mayUse child.permission).map (visibleTo source) := by
  rw [← visibleAll_eq]
  cases node
  rfl

@[simp] theorem names_outline : node.outline.names = node.names := by
  cases node; rfl

@[simp] theorem permission_outline : node.outline.permission = node.permission := by
  cases node; rfl

@[simp] theorem ignoresPermission_outline :
    node.outline.ignoresPermission = node.ignoresPermission := by
  cases node; rfl

@[simp] theorem lead_outline : node.outline.lead = node.lead := by
  cases node; rfl

@[simp] theorem scopeFlags_outline : node.outline.scopeFlags = node.scopeFlags := by
  cases node; rfl

@[simp] theorem effective_outline :
    node.outline.effective = node.effective.map EffectiveUsage.outline := by
  cases node; rfl

theorem outlineAll_eq (children : List (Node Act)) : outlineAll children = children.map outline := by
  induction children with
  | nil => rfl
  | cons child children ih => rw [outlineAll, ih, List.map_cons]

@[simp] theorem children_outline : node.outline.children = node.children.map outline := by
  rw [← outlineAll_eq]
  cases node
  rfl

end Node

/-! ## What a completion goes by -/

namespace Completion

variable {c : Completion} {node other : Node Act}

theorem ofUsage_congr (hscope : other.scopeFlags = node.scopeFlags) {usage another : Usage Act}
    (hparameters : another.parameters = usage.parameters) :
    c.ofUsage other another = c.ofUsage node usage := by
  simp only [ofUsage, Node.flagsFor, Usage.flags, Usage.positional, hscope, hparameters]

/-- Of its usages a node offers what their parameters are. -/
theorem ofNode_congr (hscope : other.scopeFlags = node.scopeFlags) (hlead : other.lead = node.lead)
    (hoffered : (c.offered other).map Usage.parameters = (c.offered node).map Usage.parameters)
    (hchildren : c.ofChildren (c.filters other) other.children =
      c.ofChildren (c.filters node) node.children) :
    c.ofNode other = c.ofNode node := by
  have hpath : other.flagsOnPath = node.flagsOnPath := by
    rw [Node.flagsOnPath, Node.flagsOnPath, hlead, hscope]
  have hflags : ∀ (n : Node Act) (usages : List (Usage Act)), usages.map n.flagsFor =
      (usages.map Usage.parameters).map fun ps => ps.filterMap Parameter.flag? ++ n.scopeFlags := by
    intro n usages
    rw [List.map_map]
    rfl
  have hpending : c.pending other (c.offered other) = c.pending node (c.offered node) := by
    rw [pending, pending, hflags, hflags, hoffered, hscope, hpath]
  have husages : ∀ (n : Node Act) (usages : List (Usage Act)), usages.flatMap (c.ofUsage n) =
      (usages.map Usage.parameters).flatMap fun parameters => c.ofUsage n { parameters } := by
    intro n usages
    rw [List.flatMap_map]
    rfl
  have hown : (c.offered other).flatMap (c.ofUsage other) =
      (c.offered node).flatMap (c.ofUsage node) := by
    rw [husages, husages, hoffered]
    exact List.flatMap_congr fun parameters _ => ofUsage_congr hscope rfl
  rw [ofNode_eq, ofNode_eq, hpending, hown, hchildren]

theorem ofChild_congr {filter : Bool} (hnames : other.names = node.names)
    (hpermission : other.permission = node.permission) (hlead : other.lead = node.lead)
    (hscope : other.scopeFlags = node.scopeFlags) (hnode : c.ofNode other = c.ofNode node) :
    c.ofChild filter other = c.ofChild filter node := by
  have hpath : other.flagsOnPath = node.flagsOnPath := by
    rw [Node.flagsOnPath, Node.flagsOnPath, hlead, hscope]
  have hpositional : other.positionalLead = node.positionalLead := by
    rw [Node.positionalLead, Node.positionalLead, hlead]
  have hslot : other.literalSlot? = node.literalSlot? := by
    rw [Node.literalSlot?, Node.literalSlot?, hpositional]
  rw [ofChild, ofChild, hslot, hpath, hpositional, hpermission, hnames, hnode]

theorem flatMap_filter_of_eq_nil {α β : Type} {keeps : α → Bool} {f : α → List β} {xs : List α}
    (h : ∀ x ∈ xs, keeps x = false → f x = []) : (xs.filter keeps).flatMap f = xs.flatMap f := by
  induction xs with
  | nil => rfl
  | cons x xs ih =>
    rw [List.forall_mem_cons] at h
    cases hkeeps : keeps x with
    | true => simp [hkeeps, ih h.2]
    | false => simp [hkeeps, h.1 hkeeps, ih h.2]

/-- A subcommand that is held back offers nothing. -/
theorem ofChild_of_hidden (h : c.source.mayUse node.permission = false) :
    c.ofChild true node = [] := by
  unfold ofChild
  cases node.literalSlot? with
  | none => rfl
  | some slot => simp [h]

/-! ## Nothing that is held back shows -/

theorem filters_eq (hfilter : c.config.filterSuggestionsByPermission = true) (node : Node Act) :
    c.filters node = !node.ignoresPermission := by
  rw [filters, hfilter, Bool.true_and]

/-- What is held back at the node is not among the usages that it offers. -/
theorem offered_visibleTo (hfilter : c.config.filterSuggestionsByPermission = true)
    (node : Node Act) : c.offered (node.visibleTo c.source) = c.offered node := by
  have hoffered : ∀ n : Node Act, c.offered n =
      (n.effective.filter fun e =>
        n.ignoresPermission || c.source.mayUse e.usage.permission).map EffectiveUsage.usage := by
    intro n
    rw [offered, filters_eq hfilter, Bool.not_not, List.filter_map]
    rfl
  rw [hoffered, hoffered, Node.effective_visibleTo, Node.toDeclaration_visibleTo,
    List.filter_filter]
  simp only [Bool.and_self]

/-- With everything cut off that is held back, a node offers what it offered. -/
theorem ofNode_visibleTo (hfilter : c.config.filterSuggestionsByPermission = true)
    (node : Node Act) : c.ofNode (node.visibleTo c.source) = c.ofNode node := by
  induction node using Node.induct with
  | step node ih =>
    apply ofNode_congr
    · exact node.scopeFlags_visibleTo c.source
    · exact node.lead_visibleTo c.source
    · rw [offered_visibleTo hfilter]
    · have hchild : ∀ child ∈ node.children, ∀ filter,
          c.ofChild filter (child.visibleTo c.source) = c.ofChild filter child := by
        intro child hchild filter
        apply ofChild_congr
        · rw [Node.toDeclaration_visibleTo]
        · rw [Node.toDeclaration_visibleTo]
        · exact child.lead_visibleTo c.source
        · exact child.scopeFlags_visibleTo c.source
        · exact ih child hchild
      rw [ofChildren_eq, ofChildren_eq, filters_eq hfilter, filters_eq hfilter,
        Node.toDeclaration_visibleTo, Node.children_visibleTo, List.flatMap_map]
      have hhidden : ∀ child ∈ node.children,
          (node.ignoresPermission || c.source.mayUse child.permission) = false →
            c.ofChild (!node.ignoresPermission) child = [] := by
        intro child _ hhidden
        rw [Bool.or_eq_false_iff] at hhidden
        rw [hhidden.1]
        exact ofChild_of_hidden hhidden.2
      rw [← flatMap_filter_of_eq_nil hhidden]
      apply List.flatMap_congr
      intro child hmem
      exact hchild child (List.mem_of_mem_filter hmem) _

/-- What completions do not go by makes no difference. -/
theorem ofNode_outline (c : Completion) (node : Node Act) : c.ofNode node.outline = c.ofNode node := by
  induction node using Node.induct with
  | step node ih =>
    have hfilters : c.filters node.outline = c.filters node := by
      rw [filters, filters, Node.ignoresPermission_outline]
    apply ofNode_congr
    · exact node.scopeFlags_outline
    · exact node.lead_outline
    · rw [offered, offered, hfilters, Node.effective_outline, List.map_map, List.filter_map,
        List.filter_map, List.map_map, List.map_map]
      rfl
    · rw [hfilters, ofChildren_eq, ofChildren_eq, Node.children_outline, List.flatMap_map]
      apply List.flatMap_congr
      intro child hchild
      apply ofChild_congr
      · exact child.names_outline
      · exact child.permission_outline
      · exact child.lead_outline
      · exact child.scopeFlags_outline
      · exact ih child hchild

/-- Of a tree an answer shows what the source may see, in outline. -/
theorem answer_outline_visibleTo (hfilter : c.config.filterSuggestionsByPermission = true)
    (root : Node Act) : c.answer (root.visibleTo c.source).outline = c.answer root := by
  rw [answer, answer, ofNode_outline, ofNode_visibleTo hfilter]

theorem answer_visibleTo (hfilter : c.config.filterSuggestionsByPermission = true)
    (root : Node Act) : c.answer (root.visibleTo c.source) = c.answer root := by
  rw [answer, answer, ofNode_visibleTo hfilter]

end Completion

/-! ## Suggestions of an engine -/

namespace Engine

variable (source : Source) (engine : Engine Act)

/-- The engine with everything cut off that is held back from the source. -/
def visibleTo : Engine Act :=
  { engine with commands := engine.commands.map (Node.visibleTo source) }

/-- What the suggestions to the source go by: the settings, the resolvers, and of the
roots what the source may see, in outline. -/
def shownTo : Engine Act where
  config := engine.config
  resolvers := engine.resolvers
  commands := engine.commands.map fun root => (root.visibleTo source).outline

variable {engine}

/-- Roots under the same labels, with the same answers and shown to the same sources, make
for the same suggestions. -/
theorem suggest_congr {other : Engine Act} {source : Source} {view : Node Act → Node Act}
    {tokens : List String} (hconfig : other.config = engine.config)
    (hresolvers : other.resolvers = engine.resolvers)
    (hcommands : other.commands = engine.commands.map view)
    (hnames : ∀ root, (view root).names = root.names)
    (hpermission : ∀ root, (view root).permission = root.permission)
    (hignores : ∀ root, (view root).ignoresPermission = root.ignoresPermission)
    (hanswer : ∀ root,
      (Completion.ofTokens engine.matcher engine.config source tokens).answer (view root) =
        (Completion.ofTokens engine.matcher engine.config source tokens).answer root)
    (label : String) : other.suggest source label tokens = engine.suggest source label tokens := by
  have hfound : other.command? label = (engine.command? label).map view := by
    rw [command?, command?, hcommands, List.find?_map]
    simp only [Function.comp_def, Declaration.isLabeled, hnames]
  have hmatcher : other.matcher = engine.matcher := by
    rw [matcher, matcher, hconfig, hresolvers]
  cases hroot : engine.command? label with
  | none =>
    rw [hroot, Option.map_none] at hfound
    rw [suggest, suggest, hroot, hfound]
  | some root =>
    rw [hroot, Option.map_some] at hfound
    have hvisible : other.isVisible source (view root) = engine.isVisible source root := by
      rw [isVisible, isVisible, hconfig, hpermission, hignores]
    rw [Completion.suggest_eq other source hfound, Completion.suggest_eq engine source hroot,
      hvisible, hmatcher, hconfig, hanswer]

theorem suggest_visibleTo (hfilter : engine.config.filterSuggestionsByPermission = true)
    (label : String) (tokens : List String) :
    (engine.visibleTo source).suggest source label tokens = engine.suggest source label tokens := by
  have hconfig : (engine.visibleTo source).config = engine.config := rfl
  have hresolvers : (engine.visibleTo source).resolvers = engine.resolvers := rfl
  have hcommands : (engine.visibleTo source).commands =
      engine.commands.map (Node.visibleTo source) := rfl
  apply suggest_congr hconfig hresolvers hcommands
  · intro root
    rw [Node.toDeclaration_visibleTo]
  · intro root
    rw [Node.toDeclaration_visibleTo]
  · intro root
    rw [Node.toDeclaration_visibleTo]
  · intro root
    exact Completion.answer_visibleTo hfilter root

theorem suggest_shownTo (hfilter : engine.config.filterSuggestionsByPermission = true)
    (label : String) (tokens : List String) :
    (engine.shownTo source).suggest source label tokens = engine.suggest source label tokens := by
  have hconfig : (engine.shownTo source).config = engine.config := rfl
  have hresolvers : (engine.shownTo source).resolvers = engine.resolvers := rfl
  have hcommands : (engine.shownTo source).commands =
      engine.commands.map fun root => (root.visibleTo source).outline := rfl
  apply suggest_congr hconfig hresolvers hcommands
  · intro root
    rw [Node.names_outline, Node.toDeclaration_visibleTo]
  · intro root
    rw [Node.permission_outline, Node.toDeclaration_visibleTo]
  · intro root
    rw [Node.ignoresPermission_outline, Node.toDeclaration_visibleTo]
  · intro root
    exact Completion.answer_outline_visibleTo hfilter root

/-- Where completions are filtered, cutting off what is held back from the source changes
no answer and no suggestion to it. So trees, and engines, that agree in what is left
cannot be told apart by the source. -/
theorem suggest_noninterfering (engine : Engine Act) (source : Source)
    (hfilter : engine.config.filterSuggestionsByPermission = true) (tokens : List String) :
    (∀ root : Node Act,
      (Completion.ofTokens engine.matcher engine.config source tokens).answer
          (root.visibleTo source) =
        (Completion.ofTokens engine.matcher engine.config source tokens).answer root) ∧
    (∀ root second : Node Act,
      (second.visibleTo source).outline = (root.visibleTo source).outline →
      (Completion.ofTokens engine.matcher engine.config source tokens).answer second =
        (Completion.ofTokens engine.matcher engine.config source tokens).answer root) ∧
    (∀ label, (engine.visibleTo source).suggest source label tokens =
      engine.suggest source label tokens) ∧
    ∀ other : Engine Act, other.shownTo source = engine.shownTo source → ∀ label,
      other.suggest source label tokens = engine.suggest source label tokens := by
  refine ⟨fun root => Completion.answer_visibleTo hfilter root, ?_,
    fun label => suggest_visibleTo source hfilter label tokens, ?_⟩
  · intro root second hagree
    rw [← Completion.answer_outline_visibleTo hfilter second,
      ← Completion.answer_outline_visibleTo hfilter root]
    exact congrArg _ hagree
  · intro other hagree label
    have hshown : (other.shownTo source).config = (engine.shownTo source).config := by rw [hagree]
    have hconfig : other.config = engine.config := hshown
    have hother : other.config.filterSuggestionsByPermission = true := by rw [hconfig, hfilter]
    rw [← suggest_shownTo source hother, ← suggest_shownTo source hfilter, hagree]

/-- A vault that anybody may open, and that some may seal and audit. Both take a key. -/
def guarding : Command Unit where
  name := "vault"
  usages := [
    { Usage.ofParameters [{ name := "seal", kind := .literal [] },
        { name := "key", kind := .flag [] (some (.choice ["iron"])) none }] with
      permission := some "vault.seal" },
    .ofParameters [{ name := "open", kind := .literal [] },
      { name := "key", kind := .flag [] (some (.choice ["brass"])) none }]]
  children := [{ name := "audit", permission := some "vault.audit" }]

/-- A vault that can be opened and no more. -/
def opening : Command Unit where
  name := "vault"
  usages := [.ofParameters [{ name := "open", kind := .literal [] },
    { name := "key", kind := .flag [] (some (.choice ["brass"])) none }]]

/-- A source without permissions cannot tell the two vaults apart, not even by the key
that is called for, of which one only is suggested. The console is told of the other key. -/
theorem suggest_noninterfering_guarding :
    ∃ guarded opened : Engine Unit, ∃ bob : Source,
      guarded.commands = [guarding.link] ∧ opened.commands = [opening.link] ∧
      guarded.config.filterSuggestionsByPermission = true ∧
      opened.shownTo bob = guarded.shownTo bob ∧
      opened.suggest bob "vault" ["-key", ""] = guarded.suggest bob "vault" ["-key", ""] ∧
      guarded.suggest bob "vault" ["-key", ""] = ["brass"] ∧
      guarded.suggest Source.console "vault" ["-key", ""] = ["iron"] := by
  have hfilter : ({ maxSuggestions := 1 } : Config).filterSuggestionsByPermission = true := rfl
  have hagree : ({ config := { maxSuggestions := 1 }, commands := [opening.link] } :
        Engine Unit).shownTo (.holding "bob" []) =
      ({ config := { maxSuggestions := 1 }, commands := [guarding.link] } :
        Engine Unit).shownTo (.holding "bob" []) := rfl
  obtain ⟨-, -, -, hsame⟩ := suggest_noninterfering
    { config := { maxSuggestions := 1 }, commands := [guarding.link] } (.holding "bob" []) hfilter
    ["-key", ""]
  exact ⟨_, _, _, rfl, rfl, hfilter, hagree, hsame _ hagree "vault", rfl, rfl⟩

end Engine

end Parlance
