import Parlance.Proofs.Command.Tree
import Parlance.Proofs.Slot.Kinds
import Parlance.Resolution

/-!
# What resolving stores

Resolving a usage stores the values of its positional parameters, and then those
of the flags in effect, each under a name. A value is lost only where a later one
has its name, so all of them are kept under distinct names.
-/

set_option autoImplicit false

namespace Parlance

variable {Act : Type}

/-! ## Storing in a row -/

/-- Stores values in a row, each under its name. -/
def storeAll (arguments : Arguments) (entries : List (String × Option Value)) : Arguments :=
  entries.foldl (fun arguments entry => Matcher.store arguments entry.1 entry.2) arguments

theorem get?_store {arguments : Arguments} {name other : String} {value : Option Value} :
    (Matcher.store arguments name value).get? other =
      if other = name then value.or (arguments.get? other) else arguments.get? other := by
  cases value with
  | none => simp [Matcher.store]
  | some value => simp [Matcher.store, NameMap.get?_insert]

/-- A name that nothing is stored under keeps its value. -/
theorem get?_storeAll_of_forall {arguments : Arguments} {name : String}
    {entries : List (String × Option Value)} (h : ∀ value, (name, some value) ∉ entries) :
    (storeAll arguments entries).get? name = arguments.get? name := by
  induction entries generalizing arguments with
  | nil => rfl
  | cons entry entries ih =>
    have hrest : ∀ value, (name, some value) ∉ entries := fun value hmem =>
      h value (List.mem_cons_of_mem _ hmem)
    rw [storeAll, List.foldl_cons, ← storeAll, ih hrest, get?_store]
    split
    · next hname =>
      obtain ⟨other, value⟩ := entry
      cases value with
      | none => rfl
      | some value =>
        have hmem : (name, some value) ∈ (other, some value) :: entries := by simp [hname]
        exact absurd hmem (h value)
    · rfl

/-- Values that are stored under distinct names are all kept. -/
theorem get?_storeAll_of_nodup {arguments : Arguments} {name : String} {value : Value}
    {entries : List (String × Option Value)}
    (hdistinct : ((entries.filter fun entry => entry.2.isSome).map Prod.fst).Nodup)
    (h : (name, some value) ∈ entries) : (storeAll arguments entries).get? name = some value := by
  induction entries generalizing arguments with
  | nil => simp at h
  | cons entry entries ih =>
    rw [storeAll, List.foldl_cons, ← storeAll]
    rcases List.mem_cons.1 h with rfl | hmem
    · have hlater : ∀ later, (name, some later) ∉ entries := by
        intro later hlater
        simp only [List.filter_cons, Option.isSome_some, if_true, List.map_cons,
          List.nodup_cons] at hdistinct
        exact hdistinct.1 (List.mem_map_of_mem (List.mem_filter.2 ⟨hlater, rfl⟩))
      rw [get?_storeAll_of_forall hlater, get?_store, if_pos rfl, Option.some_or]
    · have hsublist : (entries.filter fun entry => entry.2.isSome).Sublist
          ((entry :: entries).filter fun entry => entry.2.isSome) :=
        (List.sublist_cons_self entry entries).filter _
      exact ih ((hsublist.map Prod.fst).nodup hdistinct) hmem

/-! ## What resolving stores -/

namespace Matcher

variable {m : Matcher} {source : Source}

/-- What a positional parameter stores, nothing if it has no value. -/
def filled (m : Matcher) (source : Source) (tokens : List String) (pair : Parameter × Slot) :
    String × Option Value :=
  (pair.1.name, (m.fill source tokens pair.1 pair.2).toOption.join)

/-- What a flag stores, nothing if it has no value. -/
def flagged (m : Matcher) (source : Source) (split : TokenSplit) (flag : Flag) :
    String × Option Value :=
  (flag.name, (m.flagValue source split flag).toOption.join)

theorem filled_of_fill {tokens : List String} {pair : Parameter × Slot} {value : Option Value}
    (h : m.fill source tokens pair.1 pair.2 = .ok value) :
    m.filled source tokens pair = (pair.1.name, value) := by
  rw [filled, h]
  cases value <;> rfl

theorem flagged_of_flagValue {split : TokenSplit} {flag : Flag} {value : Option Value}
    (h : m.flagValue source split flag = .ok value) :
    m.flagged source split flag = (flag.name, value) := by
  rw [flagged, h]
  cases value <;> rfl

theorem eq_storeAll_of_fillAll {tokens : List String} {pairs : List (Parameter × Slot)}
    {arguments result : Arguments} (h : m.fillAll source tokens arguments pairs = .ok result) :
    result = storeAll arguments (pairs.map (m.filled source tokens)) := by
  induction pairs generalizing arguments with
  | nil => exact (Except.ok.inj h).symm
  | cons pair pairs ih =>
    obtain ⟨value, hvalue, h⟩ := bind_eq_ok_iff.1 h
    rw [ih h, List.map_cons, filled_of_fill hvalue]
    rfl

theorem eq_storeAll_of_fillFlags {split : TokenSplit} {flags : List Flag}
    {arguments result : Arguments} (h : m.fillFlags source split arguments flags = .ok result) :
    result = storeAll arguments (flags.map (m.flagged source split)) := by
  induction flags generalizing arguments with
  | nil => exact (Except.ok.inj h).symm
  | cons flag flags ih =>
    obtain ⟨value, hvalue, h⟩ := bind_eq_ok_iff.1 h
    rw [ih h, List.map_cons, flagged_of_flagValue hvalue]
    rfl

/-- A usage that resolves stores the values of its positional parameters, then
those of the flags in effect. -/
theorem eq_storeAll_of_resolve {node : Node Act} {usage : Usage Act} {tokens : List String}
    {trailing : Trailing} {arguments : Arguments}
    (h : m.resolve source node usage tokens trailing = .ok arguments) :
    let split := TokenSplit.ofTokens (node.flagsFor usage) tokens
    let slots := (Slot.assign usage.positional split.positional.length).1
    arguments = storeAll {} ((usage.positional.zip slots).map (m.filled source split.positional) ++
      (node.flagsFor usage).map (m.flagged source split)) := by
  intro split slots
  obtain ⟨filled, hfill, h⟩ := bind_eq_ok_iff.1 h
  split at h
  · cases h
  · rw [eq_storeAll_of_fillFlags h, eq_storeAll_of_fillAll hfill, storeAll, storeAll, storeAll,
      List.foldl_append]
    rfl

/-- A fixed word stores nothing, unless it were given the slot of a greedy parameter. -/
theorem filled_snd_of_isLiteral (m : Matcher) (source : Source) (tokens : List String)
    {p : Parameter} {slot : Slot} (hliteral : p.isLiteral = true)
    (hslot : ∀ start stop, slot ≠ .greedy start stop) :
    (m.filled source tokens (p, slot)).2 = none := by
  have hfallback : p.fallback? = none := by
    cases hkind : p.kind <;> simp_all [Parameter.isLiteral, Parameter.fallback?]
  cases slot with
  | token index =>
    cases htoken : tokens[index]? with
    | none => simp [filled, fill, htoken, Except.toOption]
    | some token =>
      cases haccepts : m.accepts p token <;>
        simp [filled, fill, htoken, hliteral, haccepts, Except.toOption]
  | skipped => simp [filled, fill, ownFallback, hfallback, Except.toOption]
  | greedy start stop => exact absurd rfl (hslot start stop)
  | missing => simp [filled, fill, Except.toOption]

/-- Positional parameters store values only under the names of those that are not
fixed words. -/
theorem names_filled_sublist (m : Matcher) (source : Source) (tokens : List String)
    {pairs : List (Parameter × Slot)} (hslots : ∀ pair ∈ pairs, ∀ start stop,
      pair.2 = .greedy start stop → pair.1.isGreedy = true) :
    (((pairs.map (m.filled source tokens)).filter fun entry => entry.2.isSome).map
      Prod.fst).Sublist (valueNames (pairs.map Prod.fst)) := by
  induction pairs with
  | nil => exact List.Sublist.slnil
  | cons pair pairs ih =>
    rw [List.forall_mem_cons] at hslots
    have hrest := ih hslots.2
    obtain ⟨p, slot⟩ := pair
    cases hliteral : p.isLiteral with
    | true =>
      have hslot : ∀ start stop, slot ≠ .greedy start stop := by
        intro start stop hgreedy
        have hgreedy := hslots.1 start stop hgreedy
        cases hkind : p.kind <;> simp_all [Parameter.isLiteral, Parameter.isGreedy]
      have hnone := filled_snd_of_isLiteral m source tokens hliteral hslot
      simpa [hnone, valueNames, hliteral] using hrest
    | false =>
      have hnames : valueNames (((p, slot) :: pairs).map Prod.fst) =
          p.name :: valueNames (pairs.map Prod.fst) := by
        simp [valueNames, hliteral]
      rw [hnames, List.map_cons]
      cases hvalue : (m.filled source tokens (p, slot)).2 with
      | none => simpa [hvalue] using hrest.cons p.name
      | some value =>
        have hname : (m.filled source tokens (p, slot)).1 = p.name := rfl
        simpa [hvalue, hname] using hrest.cons_cons p.name

end Matcher

/-- The names of values are those of the positional ones and those of the flags. -/
theorem valueNames_perm (ps : List Parameter) :
    (valueNames ps).Perm (valueNames (ps.filter fun p => !p.isFlag) ++
      (ps.filterMap Parameter.flag?).map Flag.name) := by
  induction ps with
  | nil => exact .refl _
  | cons p ps ih =>
    rw [valueNames, valueNames] at ih ⊢
    cases hkind : p.kind with
    | flag aliases type fallback =>
      simpa [hkind, Parameter.isLiteral, Parameter.isFlag, Parameter.flag?] using
        (ih.cons p.name).trans List.perm_middle.symm
    | _ =>
      simpa [hkind, Parameter.isLiteral, Parameter.isFlag, Parameter.flag?] using ih

/-- Names under which resolving a usage of the node stores values: those of its
parameters, fixed words apart, and those of the free flags in scope. -/
def Node.storedNames (node : Node Act) (usage : Usage Act) : List String :=
  valueNames usage.parameters ++ node.scopeFlags.map Flag.name

/-- Distinct names are given to all that a usage stores. -/
theorem Matcher.nodup_names_stored (m : Matcher) (source : Source) {node : Node Act}
    {usage : Usage Act} (hdistinct : (node.storedNames usage).Nodup) (split : TokenSplit)
    (count : Nat) :
    ((((usage.positional.zip (Slot.assign usage.positional count).1).map
          (m.filled source split.positional) ++
        (node.flagsFor usage).map (m.flagged source split)).filter fun entry =>
      entry.2.isSome).map Prod.fst).Nodup := by
  have hslots : ∀ pair ∈ usage.positional.zip (Slot.assign usage.positional count).1,
      ∀ start stop, pair.2 = .greedy start stop → pair.1.isGreedy = true := by
    rintro ⟨p, slot⟩ hpair start stop rfl
    exact Slot.isGreedy_of_mem_zip_assignFrom hpair
  have hpositional := m.names_filled_sublist source split.positional hslots
  have hparameters :
      (usage.positional.zip (Slot.assign usage.positional count).1).map Prod.fst =
        usage.positional :=
    List.map_fst_zip (Nat.le_of_eq (Slot.length_assignFrom _ _ _).symm)
  have hflags : ((((node.flagsFor usage).map (m.flagged source split)).filter fun entry =>
      entry.2.isSome).map Prod.fst).Sublist ((node.flagsFor usage).map Flag.name) := by
    have hsublist := (List.filter_sublist (p := fun entry => entry.2.isSome)
      (l := (node.flagsFor usage).map (m.flagged source split))).map Prod.fst
    rwa [List.map_map] at hsublist
  have hperm := (valueNames_perm usage.parameters).append_right (node.scopeFlags.map Flag.name)
  rw [hparameters] at hpositional
  rw [List.filter_append, List.map_append]
  refine (hpositional.append hflags).nodup ?_
  rw [Node.flagsFor, List.map_append, ← List.append_assoc]
  exact hperm.nodup_iff.1 hdistinct

/-- The arguments hold every value that the tokens give to a positional parameter
of the usage or to a flag in effect. -/
def Matcher.Keeps (m : Matcher) (source : Source) (node : Node Act) (usage : Usage Act)
    (tokens : List String) (arguments : Arguments) : Prop :=
  let split := TokenSplit.ofTokens (node.flagsFor usage) tokens
  let slots := (Slot.assign usage.positional split.positional.length).1
  (∀ pair ∈ usage.positional.zip slots, ∀ value,
    m.fill source split.positional pair.1 pair.2 = .ok (some value) →
    arguments.get? pair.1.name = some value) ∧
  ∀ flag ∈ node.flagsFor usage, ∀ value,
    m.flagValue source split flag = .ok (some value) → arguments.get? flag.name = some value

/-- Under distinct names a usage that resolves keeps all of its values. -/
theorem Matcher.keeps_of_resolve {m : Matcher} {source : Source} {node : Node Act}
    {usage : Usage Act} {tokens : List String} {trailing : Trailing} {arguments : Arguments}
    (hdistinct : (node.storedNames usage).Nodup)
    (h : m.resolve source node usage tokens trailing = .ok arguments) :
    m.Keeps source node usage tokens arguments := by
  have hstored := m.eq_storeAll_of_resolve h
  unfold Keeps
  generalize TokenSplit.ofTokens (node.flagsFor usage) tokens = split at hstored ⊢
  have hentries := m.nodup_names_stored source hdistinct split split.positional.length
  rw [hstored]
  refine ⟨?_, ?_⟩
  · intro pair hpair value hvalue
    have hentry := List.mem_map_of_mem (f := m.filled source split.positional) hpair
    rw [filled_of_fill hvalue] at hentry
    exact get?_storeAll_of_nodup hentries (List.mem_append_left _ hentry)
  · intro flag hflag value hvalue
    have hentry := List.mem_map_of_mem (f := m.flagged source split) hflag
    rw [flagged_of_flagValue hvalue] at hentry
    exact get?_storeAll_of_nodup hentries (List.mem_append_right _ hentry)

end Parlance
