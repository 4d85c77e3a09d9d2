import Parlance.Proofs.Resolvers.LetterCase
import Parlance.Proofs.Selection.LetterCase

/-!
# Resolution and letter case

Two runs on tokens that differ in letter case only are compared step by step. They fail
with the same kind of error, or they store values under the same names, each pair of values
from one parameter or flag, and these values are alike for its type
(`Matcher.IgnoresCase.select_and_resolve`).
-/

set_option autoImplicit false

namespace Parlance

open Text

variable {Act : Type}

/-! ## Texts of several tokens -/

theorem map_intercalate {α β : Type} (f : α → β) (separator : List α) (parts : List (List α)) :
    (separator.intercalate parts).map f =
      (separator.map f).intercalate (parts.map (List.map f)) := by
  induction parts with
  | nil => rfl
  | cons part parts ih =>
    cases parts with
    | nil => simp only [List.intercalate_singleton, List.map_cons, List.map_nil]
    | cons next parts =>
      rw [List.map_cons] at ih
      simp only [List.map_cons, List.intercalate_cons_cons, List.map_append, ih]

/-- Tokens that are the same in small letters make texts that are. -/
theorem Text.sameFolded_intercalate {xs ys : List String}
    (h : xs.map smallLetters = ys.map smallLetters) (separator : String) :
    sameFolded (separator.intercalate xs) (separator.intercalate ys) = true := by
  have hfolded : ∀ parts : List String, folded (separator.intercalate parts) =
      (folded separator).intercalate ((parts.map smallLetters).map String.toList) := by
    intro parts
    have hsmall : (parts.map smallLetters).map String.toList = parts.map folded := by
      rw [List.map_map]
      exact List.map_congr_left fun part _ => String.toList_ofList
    rw [hsmall, folded, String.toList_intercalate, map_intercalate, List.map_map]
    rfl
  rw [sameFolded_iff, hfolded, hfolded, h]

/-! ## Single values -/

namespace Matcher

variable {m : Matcher} {source : Source} {a b : String} {xs ys : List String}

theorem IgnoresCase.convert_alike (hm : m.IgnoresCase) (h : sameFolded a b = true)
    (p : Parameter) :
    Resolved.Alike (Value.AlikeFor p.type?) (m.convert p a) (m.convert p b) := by
  have htype : ∀ {v w : Value}, v.AlikeFor (some (p.type?.getD .string)) w →
      v.AlikeFor p.type? w := by
    intro v w halike
    cases halike with
    | same => exact .same _
    | text hkeeps hsame =>
      refine .text ?_ hsame
      cases hp : p.type? with
      | none => rfl
      | some type => simpa [hp] using hkeeps
  refine (Resolvers.convert_alike hm.unregistered h _ _).bind ?_
  intro v w _ _ halike
  cases p.bounds with
  | none => exact .ok (htype halike)
  | some bounds =>
    -- Bounds are asked of numbers, and numbers are equal.
    simp only [halike.float?_eq]
    split
    · exact .ok (htype halike)
    · cases halike with
      | same => exact .error (.same _)
      | text => simp_all [Value.float?]

theorem IgnoresCase.fill_alike (hm : m.IgnoresCase)
    (h : xs.map smallLetters = ys.map smallLetters) {p : Parameter} {slot : Slot}
    (hslot : ∀ start stop, slot = .greedy start stop → p.isGreedy = true) :
    Resolved.Alike (Option.Rel (Value.AlikeFor p.type?)) (m.fill source xs p slot)
      (m.fill source ys p slot) := by
  have hself := Resolved.alike_self (Value.rel_alikeFor_self p.type?)
  cases slot with
  | token index =>
    have hrelated := rel_getElem? h index
    simp only [fill]
    generalize xs[index]? = x at hrelated ⊢
    generalize ys[index]? = y at hrelated ⊢
    cases hrelated with
    | none => exact .error (.same _)
    | some hsame =>
      simp only [hm.accepts_eq hsame]
      split
      · split
        · exact .ok .none
        · exact .error (.unknownSubcommand _ hsame)
      · exact (hm.convert_alike hsame p).map fun _ _ halike => .some halike
  | greedy start stop =>
    have hgreedy : p.type? = some .string := by
      have hkind := hslot start stop rfl
      unfold Parameter.isGreedy at hkind
      unfold Parameter.type?
      split at hkind <;> simp_all
    simp only [fill]
    split
    · refine .ok (.some (.text (by rw [hgreedy]; rfl) ?_))
      apply sameFolded_intercalate
      rw [List.map_take, List.map_take, List.map_drop, List.map_drop, h]
    · exact hself _
  | skipped => exact hself _
  | missing => exact .error (.same _)

theorem IgnoresCase.flagValue_alike (hm : m.IgnoresCase) {split split' : TokenSplit}
    (h : split.folded = split'.folded) (flag : Flag) :
    Resolved.Alike (Option.Rel (Value.AlikeFor flag.type)) (m.flagValue source split flag)
      (m.flagValue source split' flag) := by
  have hvalue : ((split.hit? flag.name).map FlagHit.value).map FlagValue.folded =
      ((split'.hit? flag.name).map FlagHit.value).map FlagValue.folded := by
    rw [← TokenSplit.map_value_hit?_folded, h, TokenSplit.map_value_hit?_folded]
  unfold flagValue
  generalize (split.hit? flag.name).map FlagHit.value = value at hvalue ⊢
  generalize (split'.hit? flag.name).map FlagHit.value = value' at hvalue ⊢
  have hself := Resolved.alike_self (Value.rel_alikeFor_self flag.type)
  cases value with
  | none =>
    rw [Option.map_none] at hvalue
    obtain rfl := Option.map_eq_none_iff.1 hvalue.symm
    exact hself _
  | some value =>
    obtain ⟨value', rfl, hfolded⟩ := Option.map_eq_some_iff.1 hvalue.symm
    cases value with
    | present =>
      cases value' <;> cases hfolded
      exact hself _
    | missing =>
      cases value' <;> cases hfolded
      exact hself _
    | raw token =>
      cases value' with
      | raw token' =>
        have hsame : sameFolded token token' = true :=
          smallLetters_eq_iff.1 (FlagValue.raw.inj hfolded).symm
        cases htype : flag.type with
        | none => exact .ok (.some (.text rfl hsame))
        | some type =>
          exact (Resolvers.convert_alike hm.unregistered hsame type flag.name).map
            fun _ _ halike => .some halike
      | present => cases hfolded
      | missing => cases hfolded

end Matcher

/-! ## Arguments -/

theorem NameMap.map_fst_place {α : Type} {name : String} {v w : α} {xs ys : List (String × α)}
    (h : xs.map Prod.fst = ys.map Prod.fst) :
    (place name v xs).map Prod.fst = (place name w ys).map Prod.fst := by
  induction xs generalizing ys with
  | nil =>
    rw [List.map_nil] at h
    rw [List.map_eq_nil_iff.1 h.symm]
    rfl
  | cons x xs ih =>
    rw [List.map_cons] at h
    obtain ⟨y, ys, rfl, hhead, htail⟩ := List.map_eq_cons_iff.1 h.symm
    simp only [place, hhead]
    split
    · simp only [List.map_cons, htail]
    · split
      · simp only [List.map_cons, htail]
      · simp only [List.map_cons, ih htail.symm]

/-- The arguments have the same names, and the two values of each name are related. -/
structure Arguments.Alike (related : String → Value → Value → Prop) (a b : Arguments) :
    Prop where
  names : a.names = b.names
  values : ∀ name v w, a.get? name = some v → b.get? name = some w → related name v w

theorem Arguments.Alike.store {related : String → Value → Value → Prop} {a b : Arguments}
    (h : Alike related a b) {name : String} {x y : Option Value}
    (hvalues : Option.Rel (related name) x y) :
    Alike related (Matcher.store a name x) (Matcher.store b name y) := by
  cases hvalues with
  | none => exact h
  | @some v w hrelated =>
    refine ⟨NameMap.map_fst_place h.names, ?_⟩
    intro other v' w' hv hw
    rw [Matcher.store, NameMap.get?_insert] at hv hw
    by_cases hname : other = name
    · rw [if_pos hname, Option.some.injEq] at hv hw
      rw [hname, ← hv, ← hw]
      exact hrelated
    · rw [if_neg hname] at hv hw
      exact h.values other v' w' hv hw

/-- What an argument comes from: a positional parameter with its slot, or a flag. -/
inductive Place where
  | parameter (p : Parameter) (slot : Slot)
  | flag (flag : Flag)

namespace Place

/-- The name under which the argument is stored. -/
def name : Place → String
  | parameter p _ => p.name
  | flag f => f.name

def type : Place → Option ValueType
  | parameter p _ => p.type?
  | flag f => f.type

/-- What the tokens give there. -/
def value (m : Matcher) (source : Source) (split : TokenSplit) : Place → Resolved (Option Value)
  | parameter p slot => m.fill source split.positional p slot
  | flag f => m.flagValue source split f

/-- The values are what the place has from either tokens, and alike for its type. -/
structure Gives (m : Matcher) (source : Source) (split split' : TokenSplit) (place : Place)
    (v w : Value) : Prop where
  first : place.value m source split = .ok (some v)
  second : place.value m source split' = .ok (some w)
  alike : v.AlikeFor place.type w

end Place

/-- Where the arguments of a usage come from, for a number of positional tokens. -/
def Node.places (node : Node Act) (usage : Usage Act) (count : Nat) : List Place :=
  ((usage.positional.zip (Slot.assign usage.positional count).1).map fun pair =>
    .parameter pair.1 pair.2) ++ (node.flagsFor usage).map .flag

namespace Matcher

variable {m : Matcher} {source : Source} {split split' : TokenSplit} {places : List Place}

/-- Some place of this name gives both values. -/
def GivenAlike (m : Matcher) (source : Source) (split split' : TokenSplit) (places : List Place)
    (name : String) (v w : Value) : Prop :=
  ∃ place ∈ places, place.name = name ∧ place.Gives m source split split' v w

theorem givenAlike_of_rel {place : Place} (hplace : place ∈ places) {x y : Option Value}
    (hx : place.value m source split = .ok x) (hy : place.value m source split' = .ok y)
    (h : Option.Rel (Value.AlikeFor place.type) x y) :
    Option.Rel (m.GivenAlike source split split' places place.name) x y := by
  cases h with
  | none => exact .none
  | some halike => exact .some ⟨place, hplace, rfl, hx, hy, halike⟩

theorem IgnoresCase.fillAll_alike (hm : m.IgnoresCase)
    (h : split.positional.map smallLetters = split'.positional.map smallLetters)
    {pairs : List (Parameter × Slot)}
    (hplaces : ∀ pair ∈ pairs, Place.parameter pair.1 pair.2 ∈ places)
    (hslots : ∀ pair ∈ pairs, ∀ start stop, pair.2 = .greedy start stop → pair.1.isGreedy = true)
    {a b : Arguments} (hab : Arguments.Alike (m.GivenAlike source split split' places) a b) :
    Resolved.Alike (Arguments.Alike (m.GivenAlike source split split' places))
      (m.fillAll source split.positional a pairs) (m.fillAll source split'.positional b pairs) := by
  induction pairs generalizing a b with
  | nil => exact .ok hab
  | cons pair pairs ih =>
    rw [List.forall_mem_cons] at hplaces hslots
    refine (hm.fill_alike h (hslots.1)).bind ?_
    intro x y hx hy hrelated
    exact ih hplaces.2 hslots.2 (hab.store (givenAlike_of_rel hplaces.1 hx hy hrelated))

theorem IgnoresCase.fillFlags_alike (hm : m.IgnoresCase) (h : split.folded = split'.folded)
    {flags : List Flag} (hplaces : ∀ flag ∈ flags, Place.flag flag ∈ places)
    {a b : Arguments} (hab : Arguments.Alike (m.GivenAlike source split split' places) a b) :
    Resolved.Alike (Arguments.Alike (m.GivenAlike source split split' places))
      (m.fillFlags source split a flags) (m.fillFlags source split' b flags) := by
  induction flags generalizing a b with
  | nil => exact .ok hab
  | cons flag flags ih =>
    rw [List.forall_mem_cons] at hplaces
    refine (hm.flagValue_alike h flag).bind ?_
    intro x y hx hy hrelated
    exact ih hplaces.2 (hab.store (givenAlike_of_rel hplaces.1 hx hy hrelated))

/-! ## Usages -/

/-- The arguments that tokens give to a usage once they are taken apart. -/
def resolveSplit (m : Matcher) (source : Source) (node : Node Act) (usage : Usage Act)
    (trailing : Trailing) (split : TokenSplit) : Resolved Arguments := do
  let assigned := Slot.assign usage.positional split.positional.length
  let arguments ← m.fillAll source split.positional (.ofList []) (usage.positional.zip assigned.1)
  if assigned.2 < split.positional.length && trailing == .reject then
    throw (.tooManyArguments (" ".intercalate (split.positional.drop assigned.2)))
  m.fillFlags source split arguments (node.flagsFor usage)

theorem resolve_eq_resolveSplit (node : Node Act) (usage : Usage Act) (tokens : List String)
    (trailing : Trailing) : m.resolve source node usage tokens trailing =
      m.resolveSplit source node usage trailing
        (TokenSplit.ofTokens (node.flagsFor usage) tokens) := rfl

theorem IgnoresCase.resolveSplit_alike (hm : m.IgnoresCase) (h : split.folded = split'.folded)
    (source : Source) (node : Node Act) (usage : Usage Act) (trailing : Trailing) :
    Resolved.Alike (Arguments.Alike (m.GivenAlike source split split'
        (node.places usage split.positional.length)))
      (m.resolveSplit source node usage trailing split)
      (m.resolveSplit source node usage trailing split') := by
  have hpositional : split.positional.map smallLetters = split'.positional.map smallLetters :=
    congrArg TokenSplit.positional h
  have hlength : split'.positional.length = split.positional.length := by
    rw [← List.length_map smallLetters, ← hpositional, List.length_map]
  have hstart : Arguments.Alike (m.GivenAlike source split split'
      (node.places usage split.positional.length)) (.ofList []) (.ofList []) := by
    refine ⟨rfl, ?_⟩
    intro name v w hv
    cases hv
  have hslots : ∀ pair ∈ usage.positional.zip
        (Slot.assign usage.positional split.positional.length).1,
      ∀ start stop, pair.2 = .greedy start stop → pair.1.isGreedy = true := by
    rintro ⟨p, slot⟩ hpair start stop rfl
    exact Slot.isGreedy_of_mem_zip_assignFrom hpair
  have hparameters : ∀ pair ∈ usage.positional.zip
        (Slot.assign usage.positional split.positional.length).1,
      Place.parameter pair.1 pair.2 ∈ node.places usage split.positional.length :=
    fun pair hpair => List.mem_append_left _ (List.mem_map_of_mem hpair)
  have hflags : ∀ flag ∈ node.flagsFor usage,
      Place.flag flag ∈ node.places usage split.positional.length :=
    fun flag hflag => List.mem_append_right _ (List.mem_map_of_mem hflag)
  unfold resolveSplit
  rw [hlength]
  refine (hm.fillAll_alike hpositional hparameters hslots hstart).bind ?_
  intro a b _ _ hab
  simp only
  split
  · refine .error (.tooManyArguments (sameFolded_intercalate ?_ " "))
    rw [List.map_drop, List.map_drop, hpositional]
  · exact hm.fillFlags_alike h hflags hab

/-- Letter case does not change what tokens do, where it does not count in fixed words, no
resolvers are registered, and tokens with dashes are left alone. The same is selected, and
the same parameter is the last match. A usage of a node resolves both times or fails both
times: if it resolves, the arguments have the same names, and the two values of a name come
from one place and differ at most in the letter case of a text; if it fails, the errors
differ at most in the letter case of the tokens that they quote. -/
theorem IgnoresCase.select_and_resolve (hm : m.IgnoresCase) {tokens other : List String}
    (h : List.Forall₂ IsRecased tokens other) (root : Node Act) :
    m.select root tokens = m.select root other ∧
    ∀ (source : Source) (node : Node Act) (usage : Usage Act) (trailing : Trailing),
      let split := TokenSplit.ofTokens (node.flagsFor usage) tokens
      let split' := TokenSplit.ofTokens (node.flagsFor usage) other
      (∃ a b, m.resolve source node usage tokens trailing = .ok a ∧
        m.resolve source node usage other trailing = .ok b ∧ a.names = b.names ∧
        ∀ name v w, a.get? name = some v → b.get? name = some w →
          ∃ place ∈ node.places usage split.positional.length, place.name = name ∧
            place.value m source split = .ok (some v) ∧
            place.value m source split' = .ok (some w) ∧ v.AlikeFor place.type w) ∨
      ∃ e e', m.resolve source node usage tokens trailing = .error e ∧
        m.resolve source node usage other trailing = .error e' ∧ e.Alike e' := by
  refine ⟨hm.select_eq h root, ?_⟩
  intro source node usage trailing split split'
  have halike := hm.resolveSplit_alike (TokenSplit.folded_ofTokens h (node.flagsFor usage)) source
    node usage trailing
  rw [← resolve_eq_resolveSplit, ← resolve_eq_resolveSplit] at halike
  cases hfirst : m.resolve source node usage tokens trailing with
  | ok a =>
    cases hsecond : m.resolve source node usage other trailing with
    | ok b =>
      rw [hfirst, hsecond] at halike
      left
      cases halike with
      | ok hab =>
        refine ⟨a, b, rfl, rfl, hab.names, ?_⟩
        intro name v w hv hw
        obtain ⟨place, hplace, hname, hgives⟩ := hab.values name v w hv hw
        exact ⟨place, hplace, hname, hgives.first, hgives.second, hgives.alike⟩
    | error e =>
      rw [hfirst, hsecond] at halike
      cases halike
  | error e =>
    cases hsecond : m.resolve source node usage other trailing with
    | ok b =>
      rw [hfirst, hsecond] at halike
      cases halike
    | error e' =>
      rw [hfirst, hsecond] at halike
      right
      cases halike with
      | error he => exact ⟨e, e', rfl, rfl, he⟩

/-- A coin for somebody, after a while, with some words. -/
def tippingUsage : Usage Unit :=
  .ofParameters [
    { name := "to", kind := .literal [] },
    { name := "coin", kind := .required (.choice ["gold", "silver"]) },
    { name := "after", kind := .required .duration },
    { name := "silent", kind := .flag ["s"] none none },
    { name := "words", kind := .greedy none }]

def tipping : Command Unit where
  name := "tip"
  usages := [tippingUsage]

/-- Loud or not, the tip is the same. -/
theorem IgnoresCase.select_and_resolve_tipping :
    let loud := ["TO", "GOLD", "2H30M", "-s", "Thank", "YOU"]
    let quiet := ["to", "Gold", "2h30m", "-s", "thank", "you"]
    (select {} tipping.link loud).selection =
      .complete tipping.link (tippingUsage.behind []) ∧
    select {} tipping.link loud = select {} tipping.link quiet ∧
    ∃ a b, resolve {} .console tipping.link (tippingUsage.behind []) loud .reject = .ok a ∧
      resolve {} .console tipping.link (tippingUsage.behind []) quiet .reject = .ok b ∧
      a.names = b.names ∧ a.names = ["after", "coin", "silent", "words"] := by
  intro loud quiet
  have hnames : (resolve {} .console tipping.link (tippingUsage.behind []) loud
      .reject).toOption.map NameMap.names = some ["after", "coin", "silent", "words"] := by
    decide +kernel
  have hcaseless : IgnoresCase {} := ⟨rfl, rfl⟩
  have hrecased : List.Forall₂ IsRecased loud quiet := by decide
  obtain ⟨hselect, hresolve⟩ := hcaseless.select_and_resolve hrecased tipping.link
  refine ⟨rfl, hselect, ?_⟩
  rcases hresolve .console tipping.link (tippingUsage.behind []) .reject with
    ⟨a, b, ha, hb, hsame, -⟩ | ⟨e, e', he, -⟩
  · rw [ha] at hnames
    exact ⟨a, b, ha, hb, hsame, Option.some.inj hnames⟩
  · rw [he] at hnames
    cases hnames

end Matcher

end Parlance
