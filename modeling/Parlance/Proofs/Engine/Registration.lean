import Parlance.Proofs.Engine.Reached

/-!
# Histories of registrations

What an engine holds after any row of registrations, whether they succeed or fail. Labels
are compared in small letters: no two roots share one, so a label finds the root that has
it and no other. A registration that fails leaves nothing behind, so the engine is the
one that comes about from the accepted commands alone (`Engine.registry_after`).

The engine finds a label through its map of labels. `Roster` fills that map the way it is
filled while commands are registered, label by label; it stays in step with the engine's
commands through every history, so looking into the map is the same as searching them.
-/

set_option autoImplicit false

namespace Parlance

variable {Act : Type}

/-! ## Calls -/

/-- A call that adds commands to an engine. -/
inductive Registration (Act : Type) where
  | root (command : Command Act)
  | tree (action : Option Act) (tree : TreeDefinition)

/-- The commands that the call tries to register, in their order. Definitions that
cannot be built are passed over. -/
def Registration.commands : Registration Act → List (Command Act)
  | .root command => [command]
  | .tree action described => described.commands.filterMap fun d => (d.build action).toOption

namespace Engine

/-- The engine after a command was tried; a failure leaves it as it is. -/
def tried (engine : Engine Act) (command : Command Act) : Engine Act :=
  match engine.register command with
  | .ok next => next
  | .error _ => engine

/-- The engine after a call, whatever comes of it. -/
def call (engine : Engine Act) : Registration Act → Engine Act
  | .root command => engine.tried command
  | .tree action tree => (engine.registerTree action tree).1

/-- The engine after a row of calls on an empty one. -/
def after (config : Config) (history : List (Registration Act)) : Engine Act :=
  history.foldl call { config }

/-- Of commands that are tried one after the other, those that are registered. -/
def accepted (engine : Engine Act) : List (Command Act) → List (Command Act)
  | [] => []
  | command :: commands =>
    match engine.register command with
    | .ok next => command :: next.accepted commands
    | .error _ => engine.accepted commands

/-- The commands that a row of calls on an empty engine registers. -/
def acceptedIn (config : Config) (history : List (Registration Act)) : List (Command Act) :=
  ({ config } : Engine Act).accepted (history.flatMap Registration.commands)

theorem fst_registerAll (engine : Engine Act) (action : Option Act) (ds : List CommandDefinition) :
    (engine.registerAll action ds).1 =
      (ds.filterMap fun d => (d.build action).toOption).foldl tried engine := by
  induction ds generalizing engine with
  | nil => rfl
  | cons d ds ih =>
    cases hbuild : d.build action with
    | error e =>
      have hfailed : engine.registerDefinition action d = .error e := by
        rw [registerDefinition, hbuild]
        rfl
      have hnone : (d.build action).toOption = none := by
        rw [hbuild]
        rfl
      simp only [registerAll, hfailed, List.filterMap_cons, hnone, ← ih]
    | ok command =>
      have hstep : engine.registerDefinition action d = engine.register command := by
        rw [registerDefinition, hbuild]
        rfl
      have hsome : (d.build action).toOption = some command := by
        rw [hbuild]
        rfl
      simp only [registerAll, hstep, List.filterMap_cons, hsome, List.foldl_cons, tried]
      cases engine.register command with
      | error e => exact ih engine
      | ok next => exact ih next

/-- A row of calls tries the commands of each call. -/
theorem after_eq_foldl (config : Config) (history : List (Registration Act)) :
    after config history = (history.flatMap Registration.commands).foldl tried { config } := by
  have hcall : (call : Engine Act → Registration Act → Engine Act) =
      fun engine registration => registration.commands.foldl tried engine := by
    funext engine registration
    cases registration with
    | root command => rfl
    | tree action tree => exact fst_registerAll engine action tree.commands
  rw [after, hcall, List.foldl_flatMap]

/-- Registering the accepted commands alone, all of them succeed, and the engine is the
same. -/
theorem foldlM_register_accepted (engine : Engine Act) (commands : List (Command Act)) :
    (engine.accepted commands).foldlM register engine = .ok (commands.foldl tried engine) := by
  induction commands generalizing engine with
  | nil => rfl
  | cons command commands ih =>
    rw [accepted, List.foldl_cons, tried]
    cases hregister : engine.register command with
    | error e => exact ih engine
    | ok next =>
      simp only [List.foldlM_cons, hregister]
      exact ih next

end Engine

/-! ## Labels -/

theorem Declaration.isLabeled_iff {d : Declaration Act} {label : String} :
    d.isLabeled label = true ↔ ∃ name ∈ d.names, Text.lower name = Text.lower label := by
  simp [isLabeled]

/-- The two have no label in common, letter case apart. -/
def Declaration.Apart (d other : Declaration Act) : Prop :=
  ∀ name ∈ d.names, ∀ taken ∈ other.names, Text.lower name ≠ Text.lower taken

theorem Declaration.Apart.symm {d other : Declaration Act} (h : d.Apart other) : other.Apart d :=
  fun name hname taken htaken => (h taken htaken name hname).symm

instance : Std.Symm fun root other : Node Act => root.Apart other.toDeclaration where
  symm _ _ h := h.symm

namespace Engine

variable {engine next : Engine Act} {command : Command Act} {label : String} {root : Node Act}

/-- No two roots have a label in common, letter case apart. -/
def HasApartLabels (engine : Engine Act) : Prop :=
  engine.commands.Pairwise fun root other => root.Apart other.toDeclaration

theorem isSome_command?_iff : (engine.command? label).isSome = true ↔
    ∃ root ∈ engine.commands, ∃ name ∈ root.names, Text.lower name = Text.lower label := by
  simp only [command?, List.find?_isSome, Declaration.isLabeled_iff]

theorem mem_of_command?_eq_some (h : engine.command? label = some root) :
    root ∈ engine.commands ∧ ∃ name ∈ root.names, Text.lower name = Text.lower label := by
  unfold command? at h
  have hlabeled := List.find?_some h
  exact ⟨List.mem_of_find?_eq_some h, Declaration.isLabeled_iff.1 hlabeled⟩

/-- A label finds a root exactly if it is one of the root's own. -/
theorem HasApartLabels.command?_eq_some_iff (h : engine.HasApartLabels) :
    engine.command? label = some root ↔ root ∈ engine.commands ∧
      ∃ name ∈ root.names, Text.lower name = Text.lower label := by
  constructor
  · exact mem_of_command?_eq_some
  · intro ⟨hroot, name, hname, hlabel⟩
    apply find?_eq_some_of_unique hroot (Declaration.isLabeled_iff.2 ⟨name, hname, hlabel⟩)
    intro other hother hlabeled
    obtain ⟨taken, htaken, hequal⟩ := Declaration.isLabeled_iff.1 hlabeled
    by_contra hne
    have hapart := List.Pairwise.forall h hother hroot hne
    exact hapart taken htaken name hname (hequal.trans hlabel.symm)

/-- A command is registered only if none of its labels is taken. -/
theorem HasApartLabels.register (h : engine.HasApartLabels)
    (hregister : engine.register command = .ok next) : next.HasApartLabels := by
  obtain ⟨-, hfree, rfl⟩ := register_eq_ok_iff.1 hregister
  rw [HasApartLabels, List.pairwise_append]
  refine ⟨h, List.pairwise_singleton _ _, ?_⟩
  intro root hroot other hother name hname taken htaken hequal
  obtain rfl := List.mem_singleton.1 hother
  rw [Command.link, Command.toDeclaration_linkUnder] at htaken
  have hfound : (engine.command? taken).isSome = true :=
    isSome_command?_iff.2 ⟨root, hroot, name, hname, hequal⟩
  exact List.find?_eq_none.1 hfree taken htaken hfound

theorem HasApartLabels.tried (h : engine.HasApartLabels) (command : Command Act) :
    (engine.tried command).HasApartLabels := by
  unfold Engine.tried
  split
  · next hregister => exact h.register hregister
  · exact h

theorem HasApartLabels.foldl (h : engine.HasApartLabels) (commands : List (Command Act)) :
    (commands.foldl Engine.tried engine).HasApartLabels := by
  induction commands generalizing engine with
  | nil => exact h
  | cons command commands ih => exact ih (h.tried command)

end Engine

/-! ## The map of the labels -/

namespace Roster

/-- The roster after a row of calls on an empty one. -/
def after (history : List (Registration Act)) : Roster Act :=
  (history.flatMap Registration.commands).foldl
    (fun roster command => (roster.register command).2) {}

/-- The roster holds the roots of the engine, and its map the place of every label. -/
structure InStep (roster : Roster Act) (engine : Engine Act) : Prop where
  roots : roster.roots = engine.commands
  places : ∀ (key : String) (place : Nat), roster.places.get? key = some place ↔
    ∃ root, engine.commands[place]? = some root ∧ ∃ name ∈ root.names, Text.lower name = key

variable {roster : Roster Act} {engine : Engine Act} {label : String}

theorem get?_indexed (places : NameMap Nat) (place : Nat) (names : List String) (key : String) :
    (indexed places place names).get? key =
      if key ∈ names.map Text.lower then some place else places.get? key := by
  induction names generalizing places with
  | nil => simp [indexed]
  | cons name names ih =>
    have hstep : indexed places place (name :: names) =
        indexed (places.insert (Text.lower name) place) place names := rfl
    rw [hstep, ih, NameMap.get?_insert, List.map_cons]
    simp only [List.mem_cons]
    by_cases hhere : key = Text.lower name
    · simp [hhere]
    · simp [hhere]

/-- The map knows the labels that are taken. -/
theorem InStep.isSome_get?_eq (h : roster.InStep engine) (label : String) :
    (roster.places.get? (Text.lower label)).isSome = (engine.command? label).isSome := by
  rw [Bool.eq_iff_iff, Engine.isSome_command?_iff, Option.isSome_iff_exists]
  simp only [h.places]
  constructor
  · intro ⟨place, root, hplace, hlabel⟩
    exact ⟨root, List.mem_of_getElem? hplace, hlabel⟩
  · intro ⟨root, hroot, hlabel⟩
    obtain ⟨place, hplace⟩ := List.getElem?_of_mem hroot
    exact ⟨place, root, hplace, hlabel⟩

/-- The map finds what a search of the commands finds. -/
theorem InStep.root?_eq (h : roster.InStep engine) (hapart : engine.HasApartLabels)
    (label : String) : roster.root? label = engine.command? label := by
  cases hplace : roster.places.get? (Text.lower label) with
  | none =>
    have hnone : engine.command? label = none := by
      rw [← Option.not_isSome_iff_eq_none, ← h.isSome_get?_eq, hplace]
      exact Bool.false_ne_true
    rw [root?, hplace, Option.bind_none, hnone]
  | some place =>
    obtain ⟨root, hroot, hlabel⟩ := (h.places _ _).1 hplace
    rw [root?, hplace, Option.bind_some, h.roots, hroot]
    exact (hapart.command?_eq_some_iff.2 ⟨List.mem_of_getElem? hroot, hlabel⟩).symm

/-- With the map and without, a command is accepted or refused for the same reason; a
refused one leaves the roster as it is, an accepted one is added with all its labels. -/
theorem InStep.register_cases (h : roster.InStep engine) (command : Command Act) :
    (∃ e, engine.register command = .error e ∧ roster.register command = (.error e, roster)) ∨
    (engine.register command =
        .ok { engine with commands := engine.commands ++ [command.link] } ∧
      roster.register command = (.ok (), {
        roots := roster.roots ++ [command.link]
        places := indexed roster.places roster.roots.length command.names })) := by
  have htaken : (fun name => (roster.places.get? (Text.lower name)).isSome) =
      fun name => (engine.command? name).isSome := funext h.isSome_get?_eq
  rw [register, Engine.register, htaken]
  cases command.verify with
  | error e => exact .inl ⟨e, rfl, rfl⟩
  | ok _ =>
    cases command.names.find? fun name => (engine.command? name).isSome with
    | some taken => exact .inl ⟨.duplicateCommand taken, rfl, rfl⟩
    | none => exact .inr ⟨rfl, rfl⟩

theorem getElem?_concat_eq_some_iff {α : Type} {xs : List α} {x y : α} {i : Nat} :
    (xs ++ [x])[i]? = some y ↔ xs[i]? = some y ∨ (i = xs.length ∧ y = x) := by
  rcases Nat.lt_trichotomy i xs.length with hlt | heq | hgt
  · simp [List.getElem?_append_left hlt, Nat.ne_of_lt hlt]
  · subst heq
    simp [eq_comm]
  · have hbeyond : (xs ++ [x]).length ≤ i := by
      rw [List.length_append, List.length_singleton]
      omega
    have hnone : xs.length ≤ i := by omega
    simp [List.getElem?_eq_none hbeyond, List.getElem?_eq_none hnone, Nat.ne_of_gt hgt]

/-- Every command that is tried keeps the map in step. -/
theorem InStep.tried (h : roster.InStep engine) (command : Command Act) :
    (roster.register command).2.InStep (engine.tried command) := by
  rcases h.register_cases command with ⟨e, hengine, hroster⟩ | ⟨hengine, hroster⟩
  · rw [Engine.tried, hengine, hroster]
    exact h
  · obtain ⟨-, hfree, -⟩ := Engine.register_eq_ok_iff.1 hengine
    rw [Engine.tried, hengine, hroster]
    refine ⟨by rw [h.roots], ?_⟩
    intro key place
    -- A root with the key has the old place, or it is the one that is added.
    have hplace : (∃ root, (engine.commands ++ [command.link])[place]? = some root ∧
          ∃ name ∈ root.names, Text.lower name = key) ↔
        roster.places.get? key = some place ∨
          (place = engine.commands.length ∧ key ∈ command.names.map Text.lower) := by
      have hnames : command.link.names = command.names := by
        rw [Command.link, Command.toDeclaration_linkUnder]
      simp only [getElem?_concat_eq_some_iff, h.places, or_and_right, exists_or, and_assoc,
        exists_and_left, exists_eq_left, hnames, List.mem_map]
    rw [hplace, get?_indexed, h.roots]
    split
    · next hkey =>
      obtain ⟨name, hname, hlower⟩ := List.mem_map.1 hkey
      have hnew : roster.places.get? key ≠ some place := by
        intro hold
        have htaken : (engine.command? name).isSome = true := by
          rw [← h.isSome_get?_eq, hlower, hold]
          rfl
        exact List.find?_eq_none.1 hfree name hname htaken
      simp [hnew, hkey, eq_comm]
    · next hkey => simp [hkey]

theorem InStep.foldl (h : roster.InStep engine) (commands : List (Command Act)) :
    (commands.foldl (fun roster command => (roster.register command).2) roster).InStep
      (commands.foldl Engine.tried engine) := by
  induction commands generalizing roster engine with
  | nil => exact h
  | cons command commands ih => exact ih (h.tried command)

/-- The commands that are refused leave no trace in the roster. -/
theorem InStep.foldl_accepted (h : roster.InStep engine) (commands : List (Command Act)) :
    (engine.accepted commands).foldl (fun roster command => (roster.register command).2) roster =
      commands.foldl (fun roster command => (roster.register command).2) roster := by
  induction commands generalizing roster engine with
  | nil => rfl
  | cons command commands ih =>
    have htried := h.tried command
    rw [Engine.accepted, List.foldl_cons]
    rcases h.register_cases command with ⟨e, hengine, hroster⟩ | ⟨hengine, -⟩
    · rw [Engine.tried, hengine, hroster] at htried
      rw [hengine, hroster]
      exact ih htried
    · rw [Engine.tried, hengine] at htried
      rw [hengine, List.foldl_cons]
      exact ih htried

theorem inStep_empty (config : Config) : ({} : Roster Act).InStep { config } :=
  ⟨rfl, fun key place => by simp [NameMap.get?]⟩

theorem inStep_after (config : Config) (history : List (Registration Act)) :
    (after history).InStep (Engine.after config history) := by
  rw [Engine.after_eq_foldl]
  exact (inStep_empty config).foldl _

end Roster

/-! ## Whole histories -/

theorem Engine.hasApartLabels_after (config : Config) (history : List (Registration Act)) :
    (after config history).HasApartLabels := by
  rw [after_eq_foldl]
  apply HasApartLabels.foldl
  exact List.Pairwise.nil

theorem Roster.after_acceptedIn (config : Config) (history : List (Registration Act)) :
    after ((Engine.acceptedIn config history).map .root) = after history := by
  have hcommands : ((Engine.acceptedIn config history).map Registration.root).flatMap
      Registration.commands = Engine.acceptedIn config history := by
    rw [List.flatMap_map]
    exact List.flatMap_singleton' _
  rw [after, hcommands, Engine.acceptedIn, (inStep_empty config).foldl_accepted, ← after]

/-- After any row of calls no two roots share a label, a label finds the root that has it,
and a command that is refused changes neither the commands nor the map of the labels. The
engine is the one that registering the accepted commands alone leads to, and looking a label
up in the map finds what a search of the commands finds. -/
theorem Engine.registry_after (config : Config) (history : List (Registration Act)) :
    (after config history).HasApartLabels ∧
    (∀ label root, (after config history).command? label = some root ↔
      root ∈ (after config history).commands ∧
        ∃ name ∈ root.names, Text.lower name = Text.lower label) ∧
    (∀ command e, (after config history).register command = .error e →
      after config (history ++ [.root command]) = after config history ∧
      Roster.after (history ++ [.root command]) = Roster.after history) ∧
    (acceptedIn config history).foldlM register { config } = .ok (after config history) ∧
    Roster.after ((acceptedIn config history).map .root) = Roster.after history ∧
    (Roster.after history).InStep (after config history) ∧
    ∀ label, (Roster.after history).root? label = (after config history).command? label := by
  have hapart := hasApartLabels_after config history
  have hstep := Roster.inStep_after config history
  refine ⟨hapart, fun label root => hapart.command?_eq_some_iff, ?_, ?_,
    Roster.after_acceptedIn config history, hstep, hstep.root?_eq hapart⟩
  · intro command e hrefused
    constructor
    · rw [after, List.foldl_append, List.foldl_cons, List.foldl_nil, call, ← after, tried, hrefused]
    · obtain ⟨fault, -, hroster⟩ | ⟨haccepted, -⟩ := hstep.register_cases command
      · rw [Roster.after, List.flatMap_append, List.foldl_append, ← Roster.after,
          List.flatMap_singleton, Registration.commands, List.foldl_cons, hroster, List.foldl_nil]
      · rw [haccepted] at hrefused
        cases hrefused
  · rw [after_eq_foldl]
    exact foldlM_register_accepted _ _

/-- Two commands and a tree. The second command and one definition of the tree take
labels of the first, in other letter cases. -/
def enlisting : List (Registration Unit) :=
  [.root { name := "give", aliases := ["g"] }, .root { name := "grant", aliases := ["G"] },
    .tree none { commands := [{ name := "GIVE" }, { name := "kit" }] }]

/-- Two commands are accepted, a third one with a label of theirs is refused, and the map
goes on to find the first. -/
theorem Engine.registry_after_enlisting :
    (acceptedIn {} enlisting).map (fun command => command.name) = ["give", "kit"] ∧
    (after {} enlisting).register { name := "list", aliases := ["Kit"] } =
      .error (.duplicateCommand "Kit") ∧
    after {} (enlisting ++ [.root { name := "list", aliases := ["Kit"] }]) = after {} enlisting ∧
    ((Roster.after enlisting).root? "G").map (fun root => root.name) = some "give" := by
  have hrefused : (after {} enlisting).register { name := "list", aliases := ["Kit"] } =
      .error (.duplicateCommand "Kit") := rfl
  obtain ⟨-, -, hunchanged, -, -, -, hroot⟩ := registry_after {} enlisting
  refine ⟨rfl, hrefused, (hunchanged _ _ hrefused).1, ?_⟩
  rw [hroot]
  rfl

end Parlance
