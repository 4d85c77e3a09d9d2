import Parlance.Proofs.Command.Passage
import Parlance.Proofs.Usage.Ambiguity

/-!
# Well-formed trees

The rules of a usage and of a command in its place in a tree, told without the checks:
names by their characters, clashes by the commands on the way from the root. These are
the trees that verification accepts, and no others (`Command.verify_eq_ok_iff_isWellFormed`).
-/

set_option autoImplicit false

namespace Parlance

variable {Act : Type}

/-! ## Names -/

/-- Not all characters of the name are blank. -/
def IsVisible (name : String) : Prop :=
  ∃ c ∈ name.toList, Text.isBlank c = false

theorem allBlank_eq_false_iff {name : String} : Text.allBlank name = false ↔ IsVisible name := by
  simp [Text.allBlank, IsVisible]

/-- The name can be typed behind a dash. -/
structure IsFlagName (name : String) : Prop where
  nonempty : name ≠ ""
  undashed : name.toList.head? ≠ some '-'
  unbroken : ∀ c ∈ name.toList, Text.isBlank c = false

theorem isTypableName_iff {name : String} : Flag.isTypableName name = true ↔ IsFlagName name := by
  have hempty : name = "" ↔ name.toList = [] := String.toList_eq_nil_iff.symm
  have hunbroken : Text.hasBlank name = false ↔ ∀ c ∈ name.toList, Text.isBlank c = false := by
    simp [Text.hasBlank]
  unfold Flag.isTypableName
  constructor
  · intro h
    split at h
    · cases h
    · next c cs heq =>
      simp only [Bool.and_eq_true, bne_iff_ne, Bool.not_eq_true'] at h
      exact ⟨by simp [hempty, heq], by simpa [heq] using h.1, hunbroken.1 h.2⟩
  · intro h
    split
    · next heq => exact absurd (hempty.2 heq) h.nonempty
    · next c cs heq =>
      have hdash : c ≠ '-' := by simpa [heq] using h.undashed
      rw [hunbroken.2 h.unbroken]
      simpa using hdash

/-! ## Usages -/

namespace Parameter

variable {p : Parameter}

/-- The bounds stand on a number, and the least is not above the greatest. -/
structure AllowsBounds (p : Parameter) (bounds : Bounds) : Prop where
  numeric : p.type? = some .integer ∨ p.type? = some .float
  ordered : ∀ least ∈ bounds.least, ∀ greatest ∈ bounds.greatest, least ≤ greatest

theorem boundsFit_iff : p.boundsFit = true ↔ ∀ bounds ∈ p.bounds, p.AllowsBounds bounds := by
  have hnumeric : p.type?.any ValueType.isNumeric = true ↔
      (p.type? = some .integer ∨ p.type? = some .float) := by
    cases p.type? with
    | none => simp
    | some type => cases type <;> simp [ValueType.isNumeric]
  have hordered : ∀ bounds : Bounds, bounds.areOrdered = true ↔
      ∀ least ∈ bounds.least, ∀ greatest ∈ bounds.greatest, least ≤ greatest := by
    rintro ⟨least, greatest⟩
    cases least <;> cases greatest <;> simp [Bounds.areOrdered]
  unfold boundsFit
  cases p.bounds with
  | none => simp
  | some bounds =>
    simp only [Bool.and_eq_true, hnumeric, hordered, Option.mem_some_iff, forall_eq']
    exact ⟨fun h => ⟨h.1, h.2⟩, fun h => ⟨h.numeric, h.ordered⟩⟩

theorem isFlag_iff_exists_flag? : p.isFlag = true ↔ ∃ flag, p.flag? = some flag := by
  cases hkind : p.kind <;> simp [isFlag, flag?, hkind]

theorem claimedNames_of_flag? {flag : Flag} (h : p.flag? = some flag) :
    p.claimedNames = flag.names := by
  unfold flag? at h
  split at h
  · next hkind =>
    obtain rfl := Option.some.inj h
    simp [claimedNames, hkind, Flag.names]
  · cases h

end Parameter

/-- What is told of the names of flags is told of the names that their parameters take
up. -/
theorem forall_mem_flags_iff {usage : Usage Act} {holds : String → Prop} :
    (∀ flag ∈ usage.flags, ∀ name ∈ flag.names, holds name) ↔
      ∀ p ∈ usage.parameters, p.isFlag = true → ∀ name ∈ p.claimedNames, holds name := by
  constructor
  · intro h p hp hflag
    obtain ⟨flag, heq⟩ := Parameter.isFlag_iff_exists_flag?.1 hflag
    rw [Parameter.claimedNames_of_flag? heq]
    exact h flag (List.mem_filterMap.2 ⟨p, hp, heq⟩)
  · intro h flag hflag
    obtain ⟨p, hp, heq⟩ := List.mem_filterMap.1 hflag
    rw [← Parameter.claimedNames_of_flag? heq]
    exact h p hp (Parameter.isFlag_iff_exists_flag?.2 ⟨flag, heq⟩)

/-- The rules of a usage. -/
structure Usage.IsWellFormed (usage : Usage Act) : Prop where
  visible : ∀ p ∈ usage.parameters, IsVisible p.name
  /-- The names of the parameters and the aliases of the flags are all different. -/
  distinct : (usage.parameters.flatMap Parameter.claimedNames).Nodup
  flagNames : ∀ flag ∈ usage.flags, ∀ name ∈ flag.names, IsFlagName name
  bounded : ∀ p ∈ usage.parameters, ∀ bounds ∈ p.bounds, p.AllowsBounds bounds
  /-- No positional parameter stands behind a greedy one; so there is one at most. -/
  greedyLast : ∀ front p back, usage.positional = front ++ p :: back → p.isGreedy = true →
    back = []

theorem forall_dropLast_iff {α : Type} {holds : α → Prop} {xs : List α} :
    (∀ x ∈ xs.dropLast, ¬ holds x) ↔
      ∀ front x back, xs = front ++ x :: back → holds x → back = [] := by
  constructor
  · rintro h front x back rfl hx
    by_contra hback
    refine h x ?_ hx
    rw [List.dropLast_append_of_ne_nil (List.cons_ne_nil x back),
      List.dropLast_cons_of_ne_nil hback]
    exact List.mem_append_right _ List.mem_cons_self
  · intro h x hmem hx
    rcases List.eq_nil_or_concat' xs with rfl | ⟨rest, last, rfl⟩
    · simp at hmem
    · rw [List.dropLast_concat] at hmem
      obtain ⟨front, back, rfl⟩ := List.append_of_mem hmem
      have hnone := h front x (back ++ [last]) (by simp) hx
      simp at hnone

theorem Usage.verify_iff_isWellFormed {usage : Usage Act} :
    usage.verify = .ok () ↔ usage.IsWellFormed := by
  have hgreedy : (∀ p ∈ usage.positional.dropLast, p.isGreedy = false) ↔
      ∀ front p back, usage.positional = front ++ p :: back → p.isGreedy = true → back = [] := by
    rw [← forall_dropLast_iff]
    simp
  rw [Usage.verify_eq_ok_iff]
  constructor
  · intro h
    exact ⟨fun p hp => allBlank_eq_false_iff.1 (h.parameters p hp).named, h.distinct,
      forall_mem_flags_iff.2 fun p hp hflag name hname =>
        isTypableName_iff.1 ((h.parameters p hp).typable hflag name hname),
      fun p hp => Parameter.boundsFit_iff.1 (h.parameters p hp).bounded,
      hgreedy.1 h.greedyLast⟩
  · intro h
    refine ⟨fun p hp => ⟨?_, ?_, ?_⟩, h.distinct, hgreedy.2 h.greedyLast⟩
    · exact allBlank_eq_false_iff.2 (h.visible p hp)
    · exact fun hflag name hname =>
        isTypableName_iff.2 (forall_mem_flags_iff.1 h.flagNames p hp hflag name hname)
    · exact Parameter.boundsFit_iff.2 (h.bounded p hp)

/-! ## Commands -/

namespace Command

/-- Some command on the way is attached to the main usage of its parent, and a value of
that usage has the name. -/
def InheritsValue (way : List (Command Act)) (name : String) : Prop :=
  ∃ front parent child back, way = front ++ parent :: child :: back ∧
    child.attachment = .main ∧
    ∃ main ∈ parent.usages.head?, ∃ p ∈ main.parameters, p.isLiteral = false ∧ p.name = name

/-- Some command on the way has a free flag with the name. -/
def HasFreeName (way : List (Command Act)) (name : String) : Prop :=
  ∃ upper ∈ way, ∃ flag ∈ upper.freeFlags, name ∈ flag.names

/-- The rules of a command that stands below the commands `above`. -/
structure IsWellFormed (above : List (Command Act)) (command : Command Act) : Prop where
  visible : ∀ name ∈ command.name :: command.aliases, IsVisible name
  defaultEmpty : command.defaultUsage.parameters = []
  freeNames : ∀ flag ∈ command.freeFlags, ∀ name ∈ flag.names, IsFlagName name
  freeDistinct : (command.freeFlags.flatMap Flag.names).Nodup
  freeNew : ∀ flag ∈ command.freeFlags, ∀ name ∈ flag.names, ¬ HasFreeName above name
  usages : ∀ usage ∈ command.usages, usage.verify = .ok ()
  uninherited : ∀ usage ∈ command.usages, ∀ p ∈ usage.parameters, p.isLiteral = false →
    ¬ InheritsValue (above ++ [command]) p.name
  unshadowed : ∀ usage ∈ command.usages, ∀ flag ∈ usage.flags, ∀ name ∈ flag.names,
    ¬ HasFreeName (above ++ [command]) name
  unambiguous : ∀ (i j : Nat) (first second : Usage Act), i ≠ j →
    command.usages[i]? = some first → command.usages[j]? = some second →
    first.isAmbiguousWith second = false
  /-- Subcommands have different names, letter case apart. -/
  siblings : (command.children.flatMap fun child => child.name :: child.aliases).Pairwise
    fun name other => Text.sameFolded name other = false
  attachable : ∀ child ∈ command.children, child.attachment = .main →
    ∃ main ∈ command.usages.head?, ∀ p ∈ main.positional,
      (∃ type, p.kind = .required type) ∨ ∃ aliases, p.kind = .literal aliases

end Command

theorem Declaration.mem_between_iff {parent child : Declaration Act} {p : Parameter} :
    p ∈ parent.between child ↔
      child.attachment = .main ∧ ∃ main ∈ parent.usages.head?, p ∈ main.parameters := by
  unfold between
  cases child.attachment with
  | direct => simp
  | main => cases parent.usages <;> simp

theorem Declaration.admits_iff {parent child : Declaration Act} :
    parent.Admits child ↔ (child.attachment = .main →
      ∃ main ∈ parent.usages.head?, ∀ p ∈ main.positional,
        (∃ type, p.kind = .required type) ∨ ∃ aliases, p.kind = .literal aliases) := by
  have hkind : ∀ p : Parameter, p.isRequired = true ↔
      (∃ type, p.kind = .required type) ∨ ∃ aliases, p.kind = .literal aliases := by
    intro p
    cases hkind : p.kind <;> simp [Parameter.isRequired, hkind]
  unfold Admits
  cases parent.usages <;> simp [hkind]

namespace Command

variable {command : Command Act} {above way : List (Command Act)} {name : String}

theorem inheritsValue_iff : InheritsValue way name ↔ name ∈ valueNames (leadAlong way) := by
  rw [mem_valueNames]
  constructor
  · rintro ⟨front, parent, child, back, heq, hattachment, main, hmain, p, hp, hliteral, hname⟩
    exact ⟨p, mem_leadAlong_iff.2 ⟨front, parent, child, back, heq,
      .inl (Declaration.mem_between_iff.2 ⟨hattachment, main, hmain, hp⟩)⟩, hliteral, hname⟩
  · rintro ⟨p, hp, hliteral, hname⟩
    obtain ⟨front, parent, child, back, heq, hbetween | rfl⟩ := mem_leadAlong_iff.1 hp
    · obtain ⟨hattachment, main, hmain, hp⟩ := Declaration.mem_between_iff.1 hbetween
      exact ⟨front, parent, child, back, heq, hattachment, main, hmain, p, hp, hliteral, hname⟩
    · cases hliteral

theorem hasFreeName_iff : HasFreeName way name ↔
    name ∈ way.flatMap fun upper => upper.toDeclaration.freeNames := by
  simp [HasFreeName, Declaration.freeNames]

theorem siblings_iff {children : List (Command Act)} : (siblingNames children).Nodup ↔
    (children.flatMap fun child => child.name :: child.aliases).Pairwise
      fun name other => Text.sameFolded name other = false := by
  have hnames : siblingNames children =
      (children.flatMap fun child => child.name :: child.aliases).map Text.smallLetters := by
    rw [List.map_flatMap]
    rfl
  have hdiffer : ∀ name other : String, Text.smallLetters name ≠ Text.smallLetters other ↔
      Text.sameFolded name other = false := by
    intro name other
    rw [← Bool.not_eq_true, Text.sameFolded_iff, Text.smallLetters, Text.smallLetters, ne_eq,
      String.ofList_inj]
  rw [hnames, List.Nodup, List.pairwise_map]
  simp only [hdiffer]

theorem unambiguous_iff {usages : List (Usage Act)} :
    (usages.Pairwise fun first second => first.isAmbiguousWith second = false) ↔
      ∀ (i j : Nat) (first second : Usage Act), i ≠ j → usages[i]? = some first →
        usages[j]? = some second → first.isAmbiguousWith second = false := by
  rw [List.pairwise_iff_getElem]
  constructor
  · intro h i j first second hne hfirst hsecond
    obtain ⟨hi, rfl⟩ := List.getElem?_eq_some_iff.1 hfirst
    obtain ⟨hj, rfl⟩ := List.getElem?_eq_some_iff.1 hsecond
    rcases Nat.lt_or_gt_of_ne hne with hlt | hlt
    · exact h i j hi hj hlt
    · rw [Usage.isAmbiguousWith_comm]
      exact h j i hj hi hlt
  · intro h i j hi hj hlt
    exact h i j _ _ (Nat.ne_of_lt hlt) (List.getElem?_eq_getElem hi) (List.getElem?_eq_getElem hj)

/-- A parameter clashes with nothing if it is not named like an inherited value, and no
free flag has a name of its flag. -/
theorem unclashing_iff {usage : Usage Act} {inherited scope : List String} :
    (∀ p ∈ usage.parameters, p.clashes inherited scope = false) ↔
      (∀ p ∈ usage.parameters, p.isLiteral = false → p.name ∉ inherited) ∧
        ∀ flag ∈ usage.flags, ∀ name ∈ flag.names, name ∉ scope := by
  rw [forall_mem_flags_iff]
  simp only [Parameter.clashes, Bool.or_eq_false_iff, Bool.and_eq_false_imp, List.any_eq_false,
    Bool.not_eq_true', List.contains_eq_mem, decide_eq_true_eq, decide_eq_false_iff_not]
  exact ⟨fun h => ⟨fun p hp => (h p hp).1, fun p hp => (h p hp).2⟩,
    fun h p hp => ⟨h.1 p hp, h.2 p hp⟩⟩

/-- What verification asks of a command on a way is that it is well formed there. -/
theorem isWellFormed_iff : command.IsWellFormed above ↔
    command.toDeclaration.IsConsistent (valueNames (leadAlong (above ++ [command])))
      (above.flatMap fun upper => upper.toDeclaration.freeNames) ∧
    (siblingNames command.children).Nodup ∧
    ∀ child ∈ command.children, command.toDeclaration.Admits child.toDeclaration := by
  have hscope : (above ++ [command]).flatMap (fun upper => upper.toDeclaration.freeNames) =
      above.flatMap (fun upper => upper.toDeclaration.freeNames) ++
        command.toDeclaration.freeNames := by
    simp
  have hfree : ∀ {holds : String → Prop}, (∀ name ∈ command.toDeclaration.freeNames, holds name) ↔
      ∀ flag ∈ command.freeFlags, ∀ name ∈ flag.names, holds name := by
    intro holds
    simp only [Declaration.freeNames, List.forall_mem_flatMap]
  constructor
  · intro h
    refine ⟨⟨?_, h.defaultEmpty, ?_, ⟨h.freeDistinct, ?_⟩, ?_, ?_, ?_⟩,
      siblings_iff.2 h.siblings, ?_⟩
    · exact fun name hname => allBlank_eq_false_iff.2 (h.visible name hname)
    · exact hfree.2 fun flag hflag name hname =>
        isTypableName_iff.2 (h.freeNames flag hflag name hname)
    · exact hfree.2 fun flag hflag name hname =>
        mt hasFreeName_iff.2 (h.freeNew flag hflag name hname)
    · exact fun usage husage => Usage.verify_eq_ok_iff.1 (h.usages usage husage)
    · intro usage husage
      rw [unclashing_iff, ← hscope]
      exact ⟨fun p hp hliteral => mt inheritsValue_iff.2 (h.uninherited usage husage p hp hliteral),
        fun flag hflag name hname =>
          mt hasFreeName_iff.2 (h.unshadowed usage husage flag hflag name hname)⟩
    · exact unambiguous_iff.2 h.unambiguous
    · exact fun child hchild => Declaration.admits_iff.2 (h.attachable child hchild)
  · rintro ⟨h, hsiblings, hadmits⟩
    have hclashes : ∀ usage ∈ command.usages, _ := fun usage husage =>
      unclashing_iff.1 (h.unclashing usage husage)
    rw [← hscope] at hclashes
    refine ⟨?_, h.defaultEmpty, ?_, h.freeNew.1, ?_, ?_, ?_, ?_, unambiguous_iff.1 h.unambiguous,
      siblings_iff.1 hsiblings, ?_⟩
    · exact fun name hname => allBlank_eq_false_iff.1 (h.named name hname)
    · exact hfree.1 fun name hname => isTypableName_iff.1 (h.freeTypable name hname)
    · exact hfree.1 fun name hname => mt hasFreeName_iff.1 (h.freeNew.2 name hname)
    · exact fun usage husage => Usage.verify_eq_ok_iff.2 (h.usages usage husage)
    · exact fun usage husage p hp hliteral =>
        mt inheritsValue_iff.1 ((hclashes usage husage).1 p hp hliteral)
    · exact fun usage husage flag hflag name hname =>
        mt hasFreeName_iff.1 ((hclashes usage husage).2 flag hflag name hname)
    · exact fun child hchild => Declaration.admits_iff.1 (hadmits child hchild)

/-! ## Verified trees -/

/-- Verification accepts a tree if and only if each command in it is well formed in its
place, and a usage if and only if that is well formed. -/
theorem verify_eq_ok_iff_isWellFormed :
    (∀ command : Command Act, command.verify = .ok () ↔
      ∀ (above : List (Command Act)) (node : Command Act), command.Passage above node →
        node.IsWellFormed above) ∧
    ∀ usage : Usage Act, usage.verify = .ok () ↔ usage.IsWellFormed := by
  refine ⟨?_, fun usage => Usage.verify_iff_isWellFormed⟩
  intro command
  rw [verify, verifyUnder_eq_ok_iff_forall]
  simp only [isWellFormed_iff, List.nil_append]

end Command

end Parlance
