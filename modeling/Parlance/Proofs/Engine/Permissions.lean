import Parlance.Proofs.Engine.Preparing

/-!
# Permissions

Preparing does not check permissions on the nodes that it walked, but on those
that it finds again by the names in the path. In the tree of a verified command
these are the same nodes, since the names of siblings differ. So whoever gets an
invocation holds every permission on the way to it, and whoever lacks one is told
of the first, before a gate is asked.
-/

set_option autoImplicit false

namespace Parlance

variable {Act : Type}

/-! ## Permissions on the way to a node -/

/-- Permissions of the nodes, one after the other, and then that of the usage. -/
def permissionsOn (trail : List (Node Act)) (usage : Usage Act) : List String :=
  trail.flatMap (fun node => node.permission.toList) ++ usage.permission.toList

/-- The names on the way to a node find the nodes on that way again. -/
theorem permissionsAlong_of_descent {root node : Node Act} {trail : List (Node Act)}
    (h : root.IsSoundTree) (hdescent : root.Descent trail node) :
    permissionsAlong root (trail.map fun passed => passed.name) =
      (root :: trail).flatMap fun passed => passed.permission.toList := by
  induction hdescent with
  | here node => simp [permissionsAlong]
  | @down node child last trail hchild below ih =>
    have hfound : node.child? child.name true = some child :=
      h.isSound.child?_eq_some hchild (child.answersTo_name true)
    rw [List.map_cons, permissionsAlong, hfound, List.flatMap_cons, ← ih (h.child hchild)]

/-- Permissions that are asked of whoever runs a usage at the path of a node are
those on every way to the node. -/
theorem permissionsFor_of_descent {root node : Node Act} {trail : List (Node Act)}
    (h : root.IsSoundTree) (hroot : root.path = [root.name]) (hdescent : root.Descent trail node)
    (usage : Usage Act) :
    permissionsFor root node.path usage = permissionsOn (root :: trail) usage := by
  have hnames : node.path.drop 1 = trail.map fun passed => passed.name := by
    rw [h.path_eq hdescent, hroot, List.singleton_append, List.drop_one, List.tail_cons]
  rw [permissionsFor, hnames, permissionsAlong_of_descent h hdescent, permissionsOn]

namespace Engine

variable {engine : Engine Act} {source : Source} {label : String} {tokens : List String}
  {root : Node Act}

theorem Reached.permissionsFor_eq (h : engine.Reached) (hroot : engine.command? label = some root)
    {trail : List (Node Act)} {node : Node Act} (hdescent : root.Descent trail node)
    (usage : Usage Act) :
    permissionsFor root node.path usage = permissionsOn (root :: trail) usage := by
  obtain ⟨command, -, hlinked⟩ := h.exists_verified hroot
  have hpath : root.path = [root.name] := by
    rw [hlinked, Command.link, Command.path_linkUnder, Command.toDeclaration_linkUnder,
      List.nil_append]
  exact permissionsFor_of_descent (h.isSoundTree hroot) hpath hdescent usage

/-! ## Allowing -/

/-- A usage is allowed only to a source that holds all permissions for it. -/
theorem forall_holds_of_allow {node : Node Act} {usage : Usage Act} {trailing : Trailing}
    {invocation : Invocation Act}
    (h : (engine.allow source root node usage trailing label tokens).2 = .ok invocation) :
    invocation.path = node.path ∧ invocation.usage = usage ∧
      ∀ permission ∈ permissionsFor root node.path usage, source.holds permission = true := by
  unfold allow at h
  split at h
  · cases h
  · next hfind =>
    simp only at h
    split at h
    · cases h
    · split at h
      · cases h
      · obtain rfl := Except.ok.inj h
        refine ⟨rfl, rfl, ?_⟩
        intro permission hpermission
        simpa using List.find?_eq_none.1 hfind permission hpermission

theorem allow_of_missing {node : Node Act} {usage : Usage Act} {trailing : Trailing}
    {missing : String}
    (h : ((permissionsFor root node.path usage).find? fun permission => !source.holds permission) =
      some missing) :
    engine.allow source root node usage trailing label tokens =
      ([], .error (.permissionDenied missing)) := by
  rw [allow, h]

/-! ## Preparing and dispatching -/

/-- An invocation is prepared only for a source with all permissions on the way. -/
theorem Reached.forall_holds_of_prepare (h : engine.Reached) {outcome : Outcome Act}
    {invocation : Invocation Act} (hprepare : (engine.prepare source label tokens).2 = .ok outcome)
    (hinvocation : outcome.invocation? = some invocation) :
    ∃ root trail, engine.command? label = some root ∧
      root.Descent trail (engine.matcher.select root tokens).selection.node ∧
      (engine.matcher.select root tokens).selection.node.path = invocation.path ∧
      (engine.matcher.select root tokens).selection.usage? = some invocation.usage ∧
      ∀ permission ∈ permissionsOn (root :: trail) invocation.usage,
        source.holds permission = true := by
  obtain ⟨root, usage, hroot, husage, hallow⟩ := exists_allow_of_prepare hprepare hinvocation
  obtain ⟨trail, hdescent⟩ := engine.matcher.exists_descent_select root tokens
  obtain ⟨hpath, rfl, hholds⟩ := forall_holds_of_allow hallow
  rw [h.permissionsFor_eq hroot hdescent] at hholds
  exact ⟨root, trail, hroot, hdescent, hpath.symm, husage, hholds⟩

/-- A source that lacks a permission on the way to a selected usage is denied the
first one that it lacks, and nothing happens. -/
theorem Reached.prepare_of_missing (h : engine.Reached)
    (hroot : engine.command? label = some root) {usage : Usage Act} {trail : List (Node Act)}
    (husage : (engine.matcher.select root tokens).selection.usage? = some usage)
    (hdescent : root.Descent trail (engine.matcher.select root tokens).selection.node)
    {missing : String}
    (hmissing : ((permissionsOn (root :: trail) usage).find? fun permission =>
      !source.holds permission) = some missing) :
    engine.prepare source label tokens = ([], .error (.permissionDenied missing)) := by
  rw [← h.permissionsFor_eq hroot hdescent] at hmissing
  rw [prepare_of_usage? hroot husage, allow_of_missing hmissing]
  rfl

/-- A dispatch that is not prepared leaves the engine as it is. -/
theorem dispatch_of_prepare_error {perform : Performer Act} {events : List (Event Act)}
    {error : DispatchError} (h : engine.prepare source label tokens = (events, .error error)) :
    engine.dispatch perform source label tokens = { engine, events, answer := .error error } := by
  rw [dispatch, h]

/-- Permissions are safe in every engine in use. An invocation is prepared only for
a source that holds the permission of every command on the way from the root and
that of the selected usage. A source that lacks some of them for a selected usage
is denied the first one that it lacks, without any gate being asked or action
performed. -/
theorem Reached.permissions_safe (h : engine.Reached) (source : Source) (label : String)
    (tokens : List String) :
    (∀ outcome invocation, (engine.prepare source label tokens).2 = .ok outcome →
      outcome.invocation? = some invocation →
      ∃ root, engine.command? label = some root ∧
        (engine.matcher.select root tokens).selection.usage? = some invocation.usage ∧
        (∃ trail node, root.Descent trail node ∧ node.path = invocation.path) ∧
        ∀ trail node, root.Descent trail node → node.path = invocation.path →
          ∀ permission ∈ permissionsOn (root :: trail) invocation.usage,
            source.holds permission = true) ∧
    ∀ root usage, engine.command? label = some root →
      (engine.matcher.select root tokens).selection.usage? = some usage →
      (∃ trail, root.Descent trail (engine.matcher.select root tokens).selection.node) ∧
      ∀ trail, root.Descent trail (engine.matcher.select root tokens).selection.node →
        (∃ permission ∈ permissionsOn (root :: trail) usage, source.holds permission = false) →
        ∃ missing, ((permissionsOn (root :: trail) usage).find? fun permission =>
            !source.holds permission) = some missing ∧
          engine.prepare source label tokens = ([], .error (.permissionDenied missing)) ∧
          ∀ perform, engine.dispatch perform source label tokens =
            { engine, events := [], answer := .error (.permissionDenied missing) } := by
  refine ⟨?_, ?_⟩
  · intro outcome invocation hprepare hinvocation
    obtain ⟨root, trail, hroot, hdescent, hpath, husage, hholds⟩ :=
      h.forall_holds_of_prepare hprepare hinvocation
    refine ⟨root, hroot, husage, ⟨trail, _, hdescent, hpath⟩, ?_⟩
    intro other node hother hnode
    -- Two ways to nodes of one path ask for the same permissions.
    rw [← h.permissionsFor_eq hroot hother, hnode, ← hpath, h.permissionsFor_eq hroot hdescent]
    exact hholds
  · intro root usage hroot husage
    refine ⟨engine.matcher.exists_descent_select root tokens, ?_⟩
    rintro trail hdescent ⟨permission, hpermission, hlacks⟩
    have hsome : ((permissionsOn (root :: trail) usage).find? fun permission =>
        !source.holds permission).isSome = true :=
      List.find?_isSome.2 ⟨permission, hpermission, by simp [hlacks]⟩
    obtain ⟨missing, hmissing⟩ := Option.isSome_iff_exists.1 hsome
    have hdenied := h.prepare_of_missing hroot husage hdescent hmissing
    exact ⟨missing, hmissing, hdenied, fun perform => dispatch_of_prepare_error hdenied⟩

/-- A command for administrators, whose subcommand asks for more. -/
def administering : Command Unit where
  name := "admin"
  permission := some "admin"
  children := [{
    name := "reload"
    permission := some "admin.reload"
    usages := [{ permission := some "admin.run" }] }]

/-- Whoever may not reload is denied that, and not the usage behind it. -/
theorem Reached.permissions_safe_administering :
    let engine : Engine Unit := { commands := [administering.link] }
    engine.prepare (.holding "guest" ["admin"]) "admin" ["reload"] =
      ([], .error (.permissionDenied "admin.reload")) := by
  intro engine
  have hregister : Engine.register {} administering = .ok engine := rfl
  have hsafe := Reached.permissions_safe (.register (.start {}) hregister)
    (.holding "guest" ["admin"]) "admin" ["reload"]
  obtain ⟨child, hchild, hnode⟩ : ∃ child, administering.link.children = [child] ∧
      (engine.matcher.select administering.link ["reload"]).selection.node = child :=
    ⟨_, rfl, rfl⟩
  have hdescent : administering.link.Descent [child]
      (engine.matcher.select administering.link ["reload"]).selection.node := by
    rw [hnode]
    exact .down (by simp [hchild]) (.here child)
  obtain ⟨missing, hfirst, hprepare, -⟩ := (hsafe.2 administering.link _ rfl rfl).2 [child] hdescent
    ⟨"admin.reload", by rw [← hnode]; decide, rfl⟩
  have hmissing : missing = "admin.reload" := by
    rw [← hnode] at hfirst
    exact (Option.some.inj hfirst).symm
  rw [hprepare, hmissing]

end Engine

end Parlance
