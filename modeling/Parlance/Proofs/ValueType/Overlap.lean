import Parlance.Proofs.Completion.FixedWords
import Parlance.Proofs.Duration.Reading
import Parlance.Proofs.Element.Names

/-!
# Shapes that overlap

Types that have a token in common overlap, and types that overlap have one, unless one of
them takes any word and the other one none (`ValueType.overlaps_decides`); no such type
can be written (`ValueType.IsReadable.overlaps_iff`). Where types overlap, a token is at
hand: a whole number, a truth value or a duration, or a word of a choice. Where they do
not, letters tell the shapes apart: a duration has the letter of a unit in it and no number
has one, and the words for truth values have none of the other shapes.
-/

set_option autoImplicit false

namespace Parlance

open Text

/-! ## Letters of units -/

namespace Duration

/-- A group ends in the letter of its unit. -/
theorem exists_unit_of_hasShape {token : String} (h : hasShape token = true) :
    ∃ c ∈ token.toList, Unit.ofLetter? c ≠ none := by
  obtain ⟨groups, hnonempty, rfl⟩ := hasShape_iff.1 h
  obtain ⟨group, hgroup⟩ := List.exists_mem_of_ne_nil groups hnonempty
  have hletter : group.letter ∈ group.chars := List.mem_append_right _ List.mem_cons_self
  refine ⟨group.letter, ?_, ?_⟩
  · rw [written, String.toList_ofList]
    exact List.mem_flatMap.2 ⟨group, hgroup, hletter⟩
  · rw [Unit.ofLetter?_eq_some_iff.2 group.spelled]
    exact Option.some_ne_none _

end Duration

/-- No character of the text stands for a unit of time. -/
def LacksUnits (cs : List Char) : Prop :=
  ∀ c ∈ cs, Duration.Unit.ofLetter? c = none

instance (cs : List Char) : Decidable (LacksUnits cs) :=
  List.decidableBAll (fun c => Duration.Unit.ofLetter? c = none) cs

section LacksUnits

variable {cs ds : List Char}

theorem lacksUnits_append_iff : LacksUnits (cs ++ ds) ↔ LacksUnits cs ∧ LacksUnits ds :=
  List.forall_mem_append

theorem lacksUnits_of_forall_isDecimalDigit (h : ∀ c ∈ cs, isDecimalDigit c = true) :
    LacksUnits cs :=
  fun c hc => Duration.Unit.ofLetter?_of_isDecimalDigit (h c hc)

theorem lacksUnits_takeWhile_isDigit (cs : List Char) : LacksUnits (cs.takeWhile Char.isDigit) :=
  lacksUnits_of_forall_isDecimalDigit fun c hc =>
    isDecimalDigit_of_isDigit (List.all_eq_true.1 List.all_takeWhile c hc)

theorem lacksUnits_of_splitSign (h : LacksUnits (Decimal.splitSign cs).2) : LacksUnits cs := by
  unfold Decimal.splitSign at h
  split at h
  · exact List.forall_mem_cons.2 ⟨by decide, h⟩
  · exact List.forall_mem_cons.2 ⟨by decide, h⟩
  · exact h

theorem lacksUnits_of_natural? {n : Nat} (h : natural? cs = some n) : LacksUnits cs :=
  lacksUnits_of_forall_isDecimalDigit fun c hc =>
    isDecimalDigit_of_isDigit ((natural?_eq_some_iff.1 h).2.1 c hc)

theorem lacksUnits_of_isIntegerShape (h : ValueType.isIntegerShape cs = true) : LacksUnits cs := by
  rw [ValueType.isIntegerShape_eq, Bool.and_eq_true, List.all_eq_true] at h
  exact lacksUnits_of_splitSign (lacksUnits_of_forall_isDecimalDigit h.2)

theorem lacksUnits_of_exponentPart? {n : Int} (h : Decimal.exponentPart? cs = some n) :
    LacksUnits cs := by
  unfold Decimal.exponentPart? at h
  split at h
  · exact List.forall_mem_nil _
  · next c cs =>
    split at h
    · next hmark =>
      simp only [Decimal.exponent?] at h
      obtain ⟨_, hvalue, -⟩ := Option.map_eq_some_iff.1 h
      obtain ⟨_, hnatural, -⟩ := Option.bind_eq_some_iff.1 hvalue
      refine List.forall_mem_cons.2 ⟨?_, lacksUnits_of_splitSign (lacksUnits_of_natural? hnatural)⟩
      simp only [Bool.or_eq_true, decide_eq_true_eq] at hmark
      rcases hmark with rfl | rfl <;> decide
    · cases h

theorem lacksUnits_of_splitPoint (h : LacksUnits (Decimal.splitPoint cs).2) : LacksUnits cs := by
  unfold Decimal.splitPoint at h
  split at h
  · next after =>
    rw [← List.takeWhile_append_dropWhile (p := Char.isDigit) (l := after)]
    exact List.forall_mem_cons.2
      ⟨by decide, lacksUnits_append_iff.2 ⟨lacksUnits_takeWhile_isDigit after, h⟩⟩
  · exact h

theorem lacksUnits_of_unsigned? {negative : Bool} {numeral : Decimal.Numeral}
    (h : Decimal.unsigned? negative cs = some numeral) : LacksUnits cs := by
  rw [Decimal.unsigned?_eq] at h
  obtain ⟨_, -, h⟩ := Option.bind_eq_some_iff.1 h
  obtain ⟨_, hexponent, -⟩ := Option.map_eq_some_iff.1 h
  rw [← List.takeWhile_append_dropWhile (p := Char.isDigit) (l := cs), lacksUnits_append_iff]
  exact ⟨lacksUnits_takeWhile_isDigit cs,
    lacksUnits_of_splitPoint (lacksUnits_of_exponentPart? hexponent)⟩

/-- No numeral has the letter of a unit in it, not even one that is a word. -/
theorem lacksUnits_of_numeral {numeral : Decimal.Numeral}
    (h : Decimal.Numeral.ofList? cs = some numeral) : LacksUnits cs := by
  refine lacksUnits_of_splitSign ?_
  have hword : ∀ word : String, LacksUnits word.toList →
      String.ofList ((Decimal.splitSign cs).2.map Char.toLower) = word →
      LacksUnits (Decimal.splitSign cs).2 := by
    intro word hlacks hsmall c hc
    have hmem : c.toLower ∈ word.toList := by
      rw [← hsmall, String.toList_ofList]
      exact List.mem_map_of_mem hc
    have hnone := hlacks _ hmem
    rwa [Duration.Unit.ofLetter?, toLower_toLower, ← Duration.Unit.ofLetter?] at hnone
  simp only [Decimal.Numeral.ofList?] at h
  split at h
  · next hinfinite =>
    simp only [Bool.or_eq_true, decide_eq_true_eq] at hinfinite
    rcases hinfinite with hsmall | hsmall
    · exact hword "inf" (by decide) hsmall
    · exact hword "infinity" (by decide) hsmall
  · split at h
    · next hundefined => exact hword "nan" (by decide) hundefined
    · exact lacksUnits_of_unsigned? h

end LacksUnits

namespace ValueType

variable {a b : ValueType} {token : String}

/-! ## Types without a common token -/

/-- A number is no duration. -/
theorem not_duration_of_isNumeric (h : a.isNumeric = true) (haccepts : a.accepts token = true) :
    ¬ duration.accepts token = true := by
  have hlacks : LacksUnits token.toList := by
    cases a with
    | integer => exact lacksUnits_of_isIntegerShape haccepts
    | float =>
      obtain ⟨numeral, hnumeral⟩ := Option.isSome_iff_exists.1 haccepts
      exact lacksUnits_of_numeral hnumeral
    | _ => cases h
  intro hduration
  obtain ⟨c, hc, hunit⟩ := Duration.exists_unit_of_hasShape hduration
  exact hunit (hlacks c hc)

/-- A token of a choice may be taken for one of its words. -/
theorem any_accepts_of_choice {words : List String} (hchoice : (choice words).accepts token = true)
    (haccepts : a.accepts token = true) : words.any a.accepts = true := by
  obtain ⟨word, hword, hsame⟩ := List.any_eq_true.1 hchoice
  refine List.any_eq_true.2 ⟨word, hword, ?_⟩
  rwa [accepts_eq_of_sameFolded hsame]

/-- Truth values are told by words. -/
theorem accepts_boolean (token : String) :
    boolean.accepts token = (choice booleanWords).accepts token := rfl

/-- A truth value is neither a number nor a duration. -/
theorem not_boolean (ha : a.isNumeric = true ∨ a = duration) (haccepts : a.accepts token = true) :
    ¬ boolean.accepts token = true := by
  rw [accepts_boolean]
  intro hboolean
  have hany := any_accepts_of_choice hboolean haccepts
  rcases ha with ha | rfl
  · cases a with
    | integer | float => exact absurd hany (by decide)
    | _ => cases ha
  · exact absurd hany (by decide)

/-! ## The check -/

theorem overlaps_comm (a b : ValueType) : a.overlaps b = b.overlaps a := by
  cases a <;> cases b <;> try rfl
  case choice.choice xs ys =>
    rw [Bool.eq_iff_iff]
    simp only [overlaps, List.any_eq_true]
    constructor
    · rintro ⟨x, hx, y, hy, hsame⟩
      exact ⟨y, hy, x, hx, by rwa [sameFolded_comm]⟩
    · rintro ⟨y, hy, x, hx, hsame⟩
      exact ⟨x, hx, y, hy, by rwa [sameFolded_comm]⟩

/-- Any word may be of the type: it is a text, or it is left to the host. -/
def takesAnyWord : ValueType → Bool
  | string | word | custom _ => true
  | integer | float | boolean | duration | choice _ => false

theorem overlaps_of_takesAnyWord (h : b.takesAnyWord = true) : a.overlaps b = true := by
  cases b with
  | string | word | custom => cases a <;> rfl
  | _ => cases h

/-- A choice overlaps with a type that does not take any word if one of its words has the
shape of the type. -/
theorem choice_overlaps_eq (words : List String) (ha : a.takesAnyWord = false) :
    (choice words).overlaps a = words.any a.accepts := by
  cases a with
  | choice others =>
    have hshape : ∀ word, others.any (sameFolded word) = (choice others).accepts word := by
      intro word
      rw [accepts]
      simp only [sameFolded_comm]
    simp only [overlaps, hshape]
  | string | word | custom => cases ha
  | integer | float | boolean | duration => rfl

/-- A choice overlaps with any type that one of its words has the shape of. -/
theorem choice_overlaps {words : List String} (h : words.any a.accepts = true) :
    (choice words).overlaps a = true := by
  cases ha : a.takesAnyWord with
  | true => exact overlaps_of_takesAnyWord ha
  | false => rwa [choice_overlaps_eq words ha]

/-- Types that have a token in common overlap. -/
theorem overlaps_of_accepts (ha : a.accepts token = true) (hb : b.accepts token = true) :
    a.overlaps b = true := by
  have hchoice : ∀ words, b = choice words → a.overlaps b = true := by
    rintro words rfl
    rw [overlaps_comm]
    exact choice_overlaps (any_accepts_of_choice hb ha)
  cases a with
  | string | word | custom => rfl
  | choice words => exact choice_overlaps (any_accepts_of_choice ha hb)
  | integer | float =>
    cases b with
    | choice words => exact hchoice words rfl
    | boolean => exact (not_boolean (.inl rfl) ha hb).elim
    | duration => exact (not_duration_of_isNumeric rfl ha hb).elim
    | _ => rfl
  | boolean =>
    cases b with
    | choice words => exact hchoice words rfl
    | integer | float => exact (not_boolean (.inl rfl) hb ha).elim
    | duration => exact (not_boolean (.inr rfl) hb ha).elim
    | _ => rfl
  | duration =>
    cases b with
    | choice words => exact hchoice words rfl
    | integer | float => exact (not_duration_of_isNumeric rfl hb ha).elim
    | boolean => exact (not_boolean (.inr rfl) ha hb).elim
    | _ => rfl

/-! ## A token for types that overlap -/

theorem accepts_of_takesAnyWord (h : a.takesAnyWord = true) (hword : word.accepts token = true) :
    a.accepts token = true := by
  cases a with
  | word => exact hword
  | string | custom => rfl
  | _ => cases h

theorem exists_accepts_of_choice_overlaps {words : List String} (ha : a.takesAnyWord = false)
    (h : (choice words).overlaps a = true) :
    ∃ token, (choice words).accepts token = true ∧ a.accepts token = true := by
  rw [choice_overlaps_eq words ha] at h
  obtain ⟨word, hword, haccepts⟩ := List.any_eq_true.1 h
  exact ⟨word, List.any_eq_true.2 ⟨word, hword, sameFolded_refl word⟩, haccepts⟩

/-- Types that overlap though neither takes any word have a token in common. -/
theorem exists_accepts_of_overlaps (ha : a.takesAnyWord = false) (hb : b.takesAnyWord = false)
    (h : a.overlaps b = true) : ∃ token, a.accepts token = true ∧ b.accepts token = true := by
  cases a with
  | string | word | custom => cases ha
  | choice words => exact exists_accepts_of_choice_overlaps hb h
  | integer | float | boolean | duration =>
    cases b with
    | string | word | custom => cases hb
    | choice words =>
      rw [overlaps_comm] at h
      obtain ⟨token, hchoice, haccepts⟩ := exists_accepts_of_choice_overlaps ha h
      exact ⟨token, haccepts, hchoice⟩
    | integer | float | boolean | duration =>
      -- Only equal shapes overlap, and those of numbers.
      first
        | exact absurd h (by decide)
        | exact ⟨"1", by decide, by decide⟩
        | exact ⟨"true", by decide, by decide⟩
        | exact ⟨"1s", by decide, by decide⟩

/-- A choice that a text can be read as has words, and none is empty or has a blank. -/
theorem IsReadable.choice_words {words : List String} (h : (choice words).IsReadable) :
    words ≠ [] ∧ ∀ word ∈ words, ValueType.word.accepts word = true := by
  have hread := h.read
  have hplain := h.plain
  rw [toList_name_choice, lacks_cons_iff, lacks_append_iff] at hplain
  rw [toList_name_choice, ofText?_brace, before?_append] at hread
  simp only at hread
  split at hread
  · cases hread
  · next hnonempty =>
    rw [Option.some.injEq, choice.injEq] at hread
    refine ⟨hread ▸ hnonempty, ?_⟩
    intro word hword
    obtain ⟨hempty, -, hpart⟩ := forall_mem_choiceWords (hread.symm ▸ hword)
    have hlacks := hplain.2.1.of_subset hpart
    have hblank : hasBlank word = false := by
      rw [hasBlank, List.any_eq_false]
      intro c hc
      rw [(hlacks c hc).2]
      exact Bool.false_ne_true
    rw [ValueType.accepts, hblank]
    simpa using hempty

/-- Every type that is written has a token without blanks. -/
theorem IsReadable.exists_word (h : a.IsReadable) :
    ∃ token, word.accepts token = true ∧ a.accepts token = true := by
  cases a with
  | string | word | custom => exact ⟨"a", by decide, rfl⟩
  | integer | float => exact ⟨"1", by decide, by decide⟩
  | boolean => exact ⟨"true", by decide, by decide⟩
  | duration => exact ⟨"1s", by decide, by decide⟩
  | choice words =>
    obtain ⟨hnonempty, hwords⟩ := h.choice_words
    obtain ⟨word, hword⟩ := List.exists_mem_of_ne_nil _ hnonempty
    exact ⟨word, hwords word hword, List.any_eq_true.2 ⟨word, hword, sameFolded_refl word⟩⟩

/-- Types that can be written and overlap have a token in common. -/
theorem IsReadable.exists_accepts_of_overlaps (ha : a.IsReadable) (hb : b.IsReadable)
    (h : a.overlaps b = true) : ∃ token, a.accepts token = true ∧ b.accepts token = true := by
  cases hanyA : a.takesAnyWord with
  | true =>
    obtain ⟨token, hword, haccepts⟩ := hb.exists_word
    exact ⟨token, accepts_of_takesAnyWord hanyA hword, haccepts⟩
  | false =>
    cases hanyB : b.takesAnyWord with
    | true =>
      obtain ⟨token, hword, haccepts⟩ := ha.exists_word
      exact ⟨token, haccepts, accepts_of_takesAnyWord hanyB hword⟩
    | false => exact ValueType.exists_accepts_of_overlaps hanyA hanyB h

/-- The check is exact for types that can be written: they overlap if and only if some
token has both shapes. -/
theorem IsReadable.overlaps_iff (ha : a.IsReadable) (hb : b.IsReadable) :
    a.overlaps b = true ↔ ∃ token, a.accepts token = true ∧ b.accepts token = true := by
  constructor
  · exact ha.exists_accepts_of_overlaps hb
  · rintro ⟨token, haccepts, hother⟩
    exact overlaps_of_accepts haccepts hother

/-- The check finds every pair of types that have a token in common, in either order; it
finds no others, unless one of the types takes any word. -/
theorem overlaps_decides (a b : ValueType) :
    (∀ token, a.accepts token = true → b.accepts token = true →
      a.overlaps b = true ∧ b.overlaps a = true) ∧
    (a.takesAnyWord = false → b.takesAnyWord = false → a.overlaps b = true →
      ∃ token, a.accepts token = true ∧ b.accepts token = true) ∧
    a.overlaps b = b.overlaps a := by
  refine ⟨?_, exists_accepts_of_overlaps, overlaps_comm a b⟩
  intro token ha hb
  exact ⟨overlaps_of_accepts ha hb, overlaps_of_accepts hb ha⟩

/-- A choice overlaps with numbers by one of its words, and with truth values in another
letter case; a number in digits of any script is no duration. -/
theorem overlaps_decides_mixing :
    float.accepts "+1E3" = true ∧ (choice ["all", "+1e3"]).accepts "+1E3" = true ∧
    float.overlaps (choice ["all", "+1e3"]) = true ∧
    (choice ["all", "+1e3"]).overlaps float = true ∧
    (∃ token, boolean.accepts token = true ∧ (choice ["No", "Maybe"]).accepts token = true) ∧
    integer.accepts "-٣" = true ∧
    ¬ ∃ token, integer.accepts token = true ∧ duration.accepts token = true := by
  have hfloat : float.accepts "+1E3" = true := by decide
  have hchoice : (choice ["all", "+1e3"]).accepts "+1E3" = true := by decide
  obtain ⟨hforward, hbackward⟩ :=
    (overlaps_decides float (choice ["all", "+1e3"])).1 "+1E3" hfloat hchoice
  refine ⟨hfloat, hchoice, hforward, hbackward, ?_, by decide, ?_⟩
  · exact (overlaps_decides boolean (choice ["No", "Maybe"])).2.1 rfl rfl (by decide)
  · rintro ⟨token, hinteger, hduration⟩
    have hoverlaps := ((overlaps_decides integer duration).1 token hinteger hduration).1
    exact absurd hoverlaps (by decide)

end ValueType

end Parlance
