import Mathlib.Data.List.Nodup
import Parlance.Command.Verify

/-!
# What the checks decide

Every check of a usage, a declaration or a command succeeds exactly when a rule
holds, and the rule is written here without the check. `Usage.IsConsistent` and
`Declaration.IsConsistent` are the rules of one usage and of one command, and
`Command.verifyUnder_eq_ok_iff` is the step from a command to its subcommands.
-/

set_option autoImplicit false

namespace Parlance

variable {Act : Type}

/-! ## Checks in a row -/

/-- A row of two checks succeeds when both do. -/
theorem bind_eq_ok_iff {ε α β : Type} {x : Except ε α} {f : α → Except ε β} {b : β} :
    x >>= f = .ok b ↔ ∃ a, x = .ok a ∧ f a = .ok b := by
  cases x <;> simp [bind, Except.bind]

theorem map_eq_ok_iff {ε α β : Type} {x : Except ε α} {f : α → β} {b : β} :
    x.map f = .ok b ↔ ∃ a, x = .ok a ∧ f a = b := by
  cases x <;> simp [Except.map]

/-- A mapped outcome fails where the outcome does. -/
theorem map_eq_error_iff {ε α β : Type} {x : Except ε α} {f : α → β} {e : ε} :
    x.map f = .error e ↔ x = .error e := by
  cases x <;> simp [Except.map]

/-- A row of two steps fails where one of them does. -/
theorem bind_eq_error_iff {ε α β : Type} {x : Except ε α} {f : α → Except ε β} {e : ε} :
    x >>= f = .error e ↔ x = .error e ∨ ∃ a, x = .ok a ∧ f a = .error e := by
  cases x <;> simp [bind, Except.bind]

/-- A row of two checks succeeds when both do, and the first one tells nothing. -/
theorem check_bind_eq_ok_iff {β : Type} {x : Check Unit} {f : Unit → Check β} {b : β} :
    x >>= f = .ok b ↔ x = .ok () ∧ f () = .ok b := by
  cases x <;> simp [bind, Except.bind]

/-! ## New names -/

/-- The names are distinct, and none of them is taken. -/
def AreNew (taken names : List String) : Prop :=
  names.Nodup ∧ ∀ name ∈ names, name ∉ taken

theorem areNew_nil (taken : List String) : AreNew taken [] :=
  ⟨List.nodup_nil, by simp⟩

theorem areNew_nil_iff {names : List String} : AreNew [] names ↔ names.Nodup := by
  simp [AreNew]

/-- Which names are taken matters, and not their order. -/
theorem AreNew.congr {taken other names : List String} (h : ∀ name, name ∈ taken ↔ name ∈ other) :
    AreNew taken names ↔ AreNew other names := by
  simp only [AreNew, h]

/-- Names in a row are new when those in front are, and the others are new to
all that came before them. -/
theorem areNew_append_iff {taken front back : List String} :
    AreNew taken (front ++ back) ↔ AreNew taken front ∧ AreNew (taken ++ front) back := by
  simp only [AreNew, List.nodup_append, List.mem_append, not_or, ne_eq]
  constructor
  · rintro ⟨⟨hfront, hback, hne⟩, hnew⟩
    exact ⟨⟨hfront, fun x hx => hnew x (.inl hx)⟩, hback,
      fun y hy => ⟨hnew y (.inr hy), fun hx => hne y hx y hy rfl⟩⟩
  · rintro ⟨⟨hfront, hnew⟩, hback, hfresh⟩
    refine ⟨⟨hfront, hback, fun x hx y hy hxy => (hfresh y hy).2 (hxy ▸ hx)⟩, ?_⟩
    rintro z (hz | hz)
    · exact hnew z hz
    · exact (hfresh z hz).1

theorem areNew_cons_iff {taken names : List String} {name : String} :
    AreNew taken (name :: names) ↔ name ∉ taken ∧ AreNew (name :: taken) names := by
  have hswap : AreNew (taken ++ [name]) names ↔ AreNew (name :: taken) names :=
    AreNew.congr fun x => by simp [or_comm]
  rw [← List.singleton_append, areNew_append_iff, hswap]
  simp [AreNew]

theorem claimNames_eq_ok_iff {usage : String} {names seen result : List String} :
    claimNames usage seen names = .ok result ↔
      AreNew seen names ∧ result = names.reverse ++ seen := by
  induction names generalizing seen with
  | nil => simp [claimNames, areNew_nil, eq_comm]
  | cons name names ih =>
    unfold claimNames
    by_cases hseen : name ∈ seen
    · simp [hseen, areNew_cons_iff]
    · rw [if_neg (by simpa using hseen), ih, areNew_cons_iff]
      simp [hseen]

theorem claimChildNames_eq_ok_iff {command : String} {names taken result : List String} :
    claimChildNames command taken names = .ok result ↔
      AreNew taken (names.map Text.smallLetters) ∧
        result = (names.map Text.smallLetters).reverse ++ taken := by
  induction names generalizing taken with
  | nil => simp [claimChildNames, areNew_nil, eq_comm]
  | cons name names ih =>
    unfold claimChildNames
    by_cases htaken : Text.smallLetters name ∈ taken
    · simp [htaken, areNew_cons_iff]
    · rw [if_neg (by simpa using htaken), ih, List.map_cons, areNew_cons_iff]
      simp [htaken]

theorem claimFreeNames_eq_ok_iff {command : String} {names scope result : List String} :
    claimFreeNames command scope names = .ok result ↔
      (∀ name ∈ names, Flag.isTypableName name = true) ∧ AreNew scope names ∧
        result = scope ++ names := by
  induction names generalizing scope with
  | nil =>
    rw [claimFreeNames, List.append_nil, Except.ok.injEq]
    exact ⟨fun h => ⟨by simp, areNew_nil scope, h.symm⟩, fun h => h.2.2.symm⟩
  | cons name names ih =>
    unfold claimFreeNames
    by_cases htypable : Flag.isTypableName name = true
    · by_cases hscope : name ∈ scope
      · simp [htypable, hscope, areNew_cons_iff]
      · have hswap : AreNew (scope ++ [name]) names ↔ AreNew (name :: scope) names :=
          AreNew.congr fun x => by simp [or_comm]
        rw [if_neg (by simp [htypable]), if_neg (by simpa using hscope), ih, areNew_cons_iff, hswap]
        simp [htypable, hscope]
    · simp [htypable]

theorem checkFlagNames_eq_ok_iff {names : List String} :
    checkFlagNames names = .ok () ↔ ∀ name ∈ names, Flag.isTypableName name = true := by
  induction names with
  | nil => simp [checkFlagNames]
  | cons name names ih =>
    unfold checkFlagNames
    by_cases h : Flag.isTypableName name = true <;> simp [h, ih]

/-! ## Usages -/

/-- What is asked of one parameter, whatever the others: a name that is not
blank, bounds that fit the type, and names that can be typed if it is a flag. -/
structure Parameter.IsWellNamed (p : Parameter) : Prop where
  named : Text.allBlank p.name = false
  typable : p.isFlag = true → ∀ name ∈ p.claimedNames, Flag.isTypableName name = true
  bounded : p.boundsFit = true

/-- The rule of a usage. -/
structure Usage.IsConsistent (usage : Usage Act) : Prop where
  parameters : ∀ p ∈ usage.parameters, p.IsWellNamed
  /-- All names and aliases of flags differ, and so do the names of the others. -/
  distinct : (usage.parameters.flatMap Parameter.claimedNames).Nodup
  /-- Only the last positional parameter may be greedy. -/
  greedyLast : ∀ p ∈ usage.positional.dropLast, p.isGreedy = false

theorem checkParameters_eq_ok_iff {usage : String} {ps : List Parameter} {seen : List String} :
    checkParameters usage seen ps = .ok () ↔
      (∀ p ∈ ps, p.IsWellNamed) ∧ AreNew seen (ps.flatMap Parameter.claimedNames) := by
  induction ps generalizing seen with
  | nil => simp [checkParameters, areNew_nil]
  | cons p ps ih =>
    have hseen : AreNew (p.claimedNames.reverse ++ seen) (ps.flatMap Parameter.claimedNames) ↔
        AreNew (seen ++ p.claimedNames) (ps.flatMap Parameter.claimedNames) :=
      AreNew.congr fun name => by simp [or_comm]
    have hwell : p.IsWellNamed ↔ Text.allBlank p.name = false ∧
        (p.isFlag = true → checkFlagNames p.claimedNames = .ok ()) ∧ p.boundsFit = true := by
      rw [checkFlagNames_eq_ok_iff]
      exact ⟨fun h => ⟨h.named, h.typable, h.bounded⟩, fun h => ⟨h.1, h.2.1, h.2.2⟩⟩
    rw [List.flatMap_cons, areNew_append_iff, List.forall_mem_cons, hwell]
    unfold checkParameters
    cases hblank : Text.allBlank p.name with
    | true => simp
    | false =>
      simp only [Bool.false_eq_true, if_false, bind_eq_ok_iff, claimNames_eq_ok_iff]
      cases p.isFlag <;> cases p.boundsFit <;>
        simp [check_bind_eq_ok_iff, ih, hseen] <;> tauto

theorem checkGreedy_eq_ok_iff {usage : String} {ps : List Parameter} :
    checkGreedy usage ps = .ok () ↔ ∀ p ∈ ps.dropLast, p.isGreedy = false := by
  rcases List.eq_nil_or_concat' ps with rfl | ⟨front, last, rfl⟩
  · simp [checkGreedy]
  · have hnone : (∀ p ∈ front, p.isGreedy = false) ↔ front.countP Parameter.isGreedy = 0 := by
      rw [List.countP_eq_zero]
      simp
    rw [List.dropLast_concat, hnone, checkGreedy, List.countP_append]
    cases hlast : last.isGreedy <;>
      rcases hcount : front.countP Parameter.isGreedy with - | - | n <;>
      simp [hlast]

/-- A usage passes its checks exactly if it is consistent. -/
theorem Usage.verify_eq_ok_iff {usage : Usage Act} :
    usage.verify = .ok () ↔ usage.IsConsistent := by
  rw [Usage.verify, check_bind_eq_ok_iff, checkParameters_eq_ok_iff, checkGreedy_eq_ok_iff,
    areNew_nil_iff]
  constructor
  · rintro ⟨⟨hps, hdistinct⟩, hgreedy⟩
    exact ⟨hps, hdistinct, hgreedy⟩
  · intro h
    exact ⟨⟨h.parameters, h.distinct⟩, h.greedyLast⟩

theorem checkUsages_eq_ok_iff {inherited scope : List String} {usages : List (Usage Act)} :
    checkUsages inherited scope usages = .ok () ↔
      ∀ usage ∈ usages, usage.IsConsistent ∧
        ∀ p ∈ usage.parameters, p.clashes inherited scope = false := by
  induction usages with
  | nil => simp [checkUsages]
  | cons usage usages ih =>
    rw [checkUsages, check_bind_eq_ok_iff, Usage.verify_eq_ok_iff, List.forall_mem_cons]
    cases hfind : usage.parameters.find? (Parameter.clashes inherited scope) with
    | some p =>
      have hclash := List.find?_some hfind
      have hmem := List.mem_of_find?_eq_some hfind
      simp only [reduceCtorEq, and_false, false_iff, throw, throwThe, MonadExceptOf.throw]
      rintro ⟨⟨-, hfree⟩, -⟩
      rw [hfree p hmem] at hclash
      exact Bool.false_ne_true hclash
    | none =>
      rw [List.find?_eq_none] at hfind
      simp only [Bool.not_eq_true] at hfind
      rw [and_iff_left hfind]
      exact and_congr_right fun _ => ih

theorem checkAmbiguity_eq_ok_iff {command : String} {usages : List (Usage Act)} :
    checkAmbiguity command usages = .ok () ↔
      usages.Pairwise fun a b => a.isAmbiguousWith b = false := by
  induction usages with
  | nil => simp [checkAmbiguity]
  | cons first rest ih =>
    rw [checkAmbiguity, List.pairwise_cons]
    cases hfind : rest.find? first.isAmbiguousWith with
    | some second =>
      have hambiguous := List.find?_some hfind
      have hmem := List.mem_of_find?_eq_some hfind
      simp only [reduceCtorEq, false_iff]
      rintro ⟨hclear, -⟩
      rw [hclear second hmem] at hambiguous
      exact Bool.false_ne_true hambiguous
    | none =>
      rw [List.find?_eq_none] at hfind
      simp only [Bool.not_eq_true] at hfind
      simp only [ih, iff_and_self]
      exact fun _ => hfind

/-! ## Declarations -/

/-- Names of the parameters that store a value: all but fixed words. -/
def valueNames (ps : List Parameter) : List String :=
  (ps.filter fun p => !p.isLiteral).map Parameter.name

namespace Declaration

/-- Names and aliases of the free flags. -/
def freeNames (d : Declaration Act) : List String :=
  d.freeFlags.flatMap Flag.names

/-- The parameters that a subcommand takes over from its parent's first usage. -/
def between (parent child : Declaration Act) : List Parameter :=
  match child.attachment, parent.usages with
  | .main, main :: _ => main.parameters
  | _, _ => []

/-- The subcommand may stand where it asks to: behind the first usage of its
parent only if that takes a fixed number of tokens. -/
def Admits (parent child : Declaration Act) : Prop :=
  child.attachment = .main → ∃ main rest, parent.usages = main :: rest ∧
    ∀ p ∈ main.positional, p.isRequired = true

/-- The rule of a declaration, where values named `inherited` and free flags
named `scope` come from above. -/
structure IsConsistent (inherited scope : List String) (d : Declaration Act) : Prop where
  named : ∀ name ∈ d.names, Text.allBlank name = false
  defaultEmpty : d.defaultUsage.parameters = []
  freeTypable : ∀ name ∈ d.freeNames, Flag.isTypableName name = true
  freeNew : AreNew scope d.freeNames
  usages : ∀ usage ∈ d.usages, usage.IsConsistent
  /-- No parameter is named like an inherited value, and no flag like a free one. -/
  unclashing : ∀ usage ∈ d.usages, ∀ p ∈ usage.parameters,
    p.clashes inherited (scope ++ d.freeNames) = false
  unambiguous : d.usages.Pairwise fun a b => a.isAmbiguousWith b = false

theorem verify_eq_ok_iff {inherited scope result : List String} {d : Declaration Act} :
    d.verify inherited scope = .ok result ↔
      d.IsConsistent inherited scope ∧ result = scope ++ d.freeNames := by
  have hnames : d.names.any Text.allBlank = false ↔
      ∀ name ∈ d.names, Text.allBlank name = false := by
    simp
  have hempty : d.defaultUsage.isEmpty = true ↔ d.defaultUsage.parameters = [] := by
    simp [Usage.isEmpty]
  have hrow : d.verify inherited scope =
      if d.names.any Text.allBlank = true then .error .emptyName
      else if (!d.defaultUsage.isEmpty) = true then .error (.defaultUsageNotEmpty d.name)
      else do
        let scope ← claimFreeNames d.name scope d.freeNames
        checkUsages inherited scope d.usages
        checkAmbiguity d.name d.usages
        return scope := rfl
  rw [hrow]
  constructor
  · intro h
    split at h
    · cases h
    split at h
    · cases h
    next hblank hdefault =>
      obtain ⟨_, hclaim, h⟩ := bind_eq_ok_iff.1 h
      obtain ⟨htypable, hnew, rfl⟩ := claimFreeNames_eq_ok_iff.1 hclaim
      obtain ⟨husages, h⟩ := check_bind_eq_ok_iff.1 h
      obtain ⟨hpairs, hresult⟩ := check_bind_eq_ok_iff.1 h
      rw [checkUsages_eq_ok_iff] at husages
      rw [checkAmbiguity_eq_ok_iff] at hpairs
      exact ⟨⟨hnames.1 (by simpa using hblank), hempty.1 (by simpa using hdefault), htypable,
        hnew, fun usage hu => (husages usage hu).1, fun usage hu => (husages usage hu).2,
        hpairs⟩, (Except.ok.inj hresult).symm⟩
  · rintro ⟨h, rfl⟩
    rw [if_neg (by rw [hnames.2 h.named]; exact Bool.false_ne_true),
      if_neg (by rw [hempty.2 h.defaultEmpty]; exact Bool.false_ne_true), bind_eq_ok_iff]
    refine ⟨_, claimFreeNames_eq_ok_iff.2 ⟨h.freeTypable, h.freeNew, rfl⟩, ?_⟩
    rw [check_bind_eq_ok_iff, checkUsages_eq_ok_iff, check_bind_eq_ok_iff,
      checkAmbiguity_eq_ok_iff]
    exact ⟨fun usage hu => ⟨h.usages usage hu, h.unclashing usage hu⟩, h.unambiguous, rfl⟩

end Declaration

theorem inheritedFrom_eq_ok_iff {parent child : Declaration Act} {names : List String} :
    inheritedFrom parent child = .ok names ↔
      parent.Admits child ∧ names = valueNames (parent.between child) := by
  unfold inheritedFrom Declaration.Admits Declaration.between
  cases child.attachment with
  | direct =>
    rw [Except.ok.injEq, eq_comm]
    simp [valueNames]
  | main =>
    cases parent.usages with
    | nil => simp
    | cons main rest =>
      have hall : main.positional.all Parameter.isRequired = true ↔
          ∃ first others, main :: rest = first :: others ∧
            ∀ p ∈ first.positional, p.isRequired = true := by
        simp
      by_cases h : main.positional.all Parameter.isRequired = true
      · simp only [h, if_true, Except.ok.injEq, forall_const, valueNames, ← hall, true_and]
        exact eq_comm
      · simp only [h, Bool.false_eq_true, if_false, reduceCtorEq, forall_const, ← hall, false_and]

/-! ## Commands -/

/-- Names and aliases of subcommands, letter case apart. -/
def siblingNames (children : List (Command Act)) : List String :=
  children.flatMap fun child => child.names.map Text.smallLetters

theorem Command.verifyAll_eq_ok_iff {inherited scope taken : List String}
    {parent : Declaration Act} {children : List (Command Act)} :
    Command.verifyAll inherited scope parent taken children = .ok () ↔
      AreNew taken (siblingNames children) ∧
        ∀ child ∈ children, parent.Admits child.toDeclaration ∧
          child.verifyUnder (inherited ++ valueNames (parent.between child.toDeclaration)) scope
            = .ok () := by
  induction children generalizing taken with
  | nil => simp [Command.verifyAll, siblingNames, areNew_nil]
  | cons child children ih =>
    have hswap : AreNew ((child.names.map Text.smallLetters).reverse ++ taken)
          (siblingNames children) ↔
        AreNew (taken ++ child.names.map Text.smallLetters) (siblingNames children) :=
      AreNew.congr fun name => by simp [or_comm]
    rw [Command.verifyAll, bind_eq_ok_iff, List.forall_mem_cons, siblingNames, List.flatMap_cons,
      areNew_append_iff, ← siblingNames, ← hswap]
    constructor
    · rintro ⟨_, hclaim, h⟩
      obtain ⟨hnew, rfl⟩ := claimChildNames_eq_ok_iff.1 hclaim
      obtain ⟨_, hmore, h⟩ := bind_eq_ok_iff.1 h
      obtain ⟨hadmits, rfl⟩ := inheritedFrom_eq_ok_iff.1 hmore
      obtain ⟨hchild, h⟩ := check_bind_eq_ok_iff.1 h
      obtain ⟨hrest, hchildren⟩ := ih.1 h
      exact ⟨⟨hnew, hrest⟩, ⟨hadmits, hchild⟩, hchildren⟩
    · rintro ⟨⟨hnew, hrest⟩, ⟨hadmits, hchild⟩, hchildren⟩
      refine ⟨_, claimChildNames_eq_ok_iff.2 ⟨hnew, rfl⟩, ?_⟩
      refine bind_eq_ok_iff.2 ⟨_, inheritedFrom_eq_ok_iff.2 ⟨hadmits, rfl⟩, ?_⟩
      exact check_bind_eq_ok_iff.2 ⟨hchild, ih.2 ⟨hrest, hchildren⟩⟩

/-- A command passes if its declaration is consistent, its subcommands have
distinct names and may stand where they ask to, and each of them passes with the
values and the free flags that it inherits. -/
theorem Command.verifyUnder_eq_ok_iff {inherited scope : List String} {command : Command Act} :
    command.verifyUnder inherited scope = .ok () ↔
      command.toDeclaration.IsConsistent inherited scope ∧
        (siblingNames command.children).Nodup ∧
        ∀ child ∈ command.children, command.toDeclaration.Admits child.toDeclaration ∧
          child.verifyUnder
            (inherited ++ valueNames (command.toDeclaration.between child.toDeclaration))
            (scope ++ command.toDeclaration.freeNames) = .ok () := by
  cases command with
  | mk d children =>
    rw [Command.verifyUnder, bind_eq_ok_iff, ← areNew_nil_iff]
    constructor
    · rintro ⟨_, hverify, hchildren⟩
      obtain ⟨hd, rfl⟩ := Declaration.verify_eq_ok_iff.1 hverify
      exact ⟨hd, Command.verifyAll_eq_ok_iff.1 hchildren⟩
    · rintro ⟨hd, hchildren⟩
      exact ⟨_, Declaration.verify_eq_ok_iff.2 ⟨hd, rfl⟩, Command.verifyAll_eq_ok_iff.2 hchildren⟩

end Parlance
