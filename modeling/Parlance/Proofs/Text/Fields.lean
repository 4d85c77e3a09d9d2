import Parlance.Text.Blank
import Parlance.Text.Cut

/-!
# Taking texts apart and putting them together

Stretches that hold no separator are found again in the text that joins them, and
a cut at a mark finds what stands before the mark if that does not hold it.
-/

set_option autoImplicit false

namespace Parlance.Text

/-! ## Characters that a text lacks -/

/-- The text has no blank and none of the marks. -/
def Lacks (marks cs : List Char) : Prop :=
  ∀ c ∈ cs, c ∉ marks ∧ isBlank c = false

instance (marks cs : List Char) : Decidable (Lacks marks cs) :=
  List.decidableBAll (fun c => c ∉ marks ∧ isBlank c = false) cs

variable {marks cs : List Char}

theorem lacks_nil (marks : List Char) : Lacks marks [] := by
  simp [Lacks]

theorem lacks_cons_iff {c : Char} :
    Lacks marks (c :: cs) ↔ (c ∉ marks ∧ isBlank c = false) ∧ Lacks marks cs :=
  List.forall_mem_cons

theorem lacks_append_iff {others : List Char} :
    Lacks marks (cs ++ others) ↔ Lacks marks cs ∧ Lacks marks others :=
  List.forall_mem_append

theorem Lacks.of_subset {part : List Char} (h : Lacks marks cs) (hpart : part ⊆ cs) :
    Lacks marks part :=
  fun c hc => h c (hpart hc)

theorem Lacks.not_mem {mark : Char} (h : Lacks marks cs) (hmark : mark ∈ marks) : mark ∉ cs :=
  fun hmem => (h mark hmem).1 hmark

/-- One more mark may be counted among those that the text lacks. -/
theorem Lacks.cons {mark : Char} (h : Lacks marks cs) (hmark : mark ∉ cs) :
    Lacks (mark :: marks) cs := by
  intro c hc
  refine ⟨?_, (h c hc).2⟩
  rw [List.mem_cons, not_or]
  exact ⟨fun heq => hmark (heq ▸ hc), (h c hc).1⟩

theorem Lacks.of_marks {fewer : List Char} (h : Lacks marks cs) (hfewer : fewer ⊆ marks) :
    Lacks fewer cs :=
  fun c hc => ⟨fun hmem => (h c hc).1 (hfewer hmem), (h c hc).2⟩

theorem lacks_intercalate {marks : List Char} {separator : Char}
    (hseparator : separator ∉ marks ∧ isBlank separator = false) {parts : List (List Char)}
    (h : ∀ part ∈ parts, Lacks marks part) : Lacks marks ([separator].intercalate parts) := by
  induction parts with
  | nil => exact lacks_nil marks
  | cons part parts ih =>
    rw [List.forall_mem_cons] at h
    cases parts with
    | nil => simpa using h.1
    | cons next others =>
      rw [List.intercalate_cons_cons, List.append_assoc, List.singleton_append, lacks_append_iff,
        lacks_cons_iff]
      exact ⟨h.1, hseparator, ih h.2⟩

/-! ## Cuts -/

theorem cutAt_append {mark : Char} {before : List Char} (h : mark ∉ before) (behind : List Char) :
    cutAt mark (before ++ mark :: behind) = some (before, behind) := by
  induction before with
  | nil => simp [cutAt]
  | cons c cs ih =>
    rw [List.mem_cons, not_or] at h
    rw [List.cons_append, cutAt, if_neg (Ne.symm h.1), ih h.2, Option.map_some]

theorem before?_append (ending cs : List Char) : before? ending (cs ++ ending) = some cs :=
  before?_eq_some_iff.2 rfl

/-! ## Fields -/

theorem fields_eq_splitOnP (p : Char → Bool) (cs : List Char) : fields p cs = cs.splitOnP p := by
  induction cs with
  | nil => rfl
  | cons c cs ih =>
    rw [fields, List.splitOnP_cons_eq_if_modifyHead, ih]
    split
    · rfl
    · split
      · next hnil => exact absurd hnil (List.splitOnP_ne_nil p cs)
      · next heq => rw [heq, List.modifyHead_cons]

/-- A field holds characters of the text that are not picked. -/
theorem forall_mem_fields {p : Char → Bool} {field : List Char} (h : field ∈ fields p cs) :
    ∀ c ∈ field, p c = false ∧ c ∈ cs := by
  induction cs generalizing field with
  | nil =>
    rw [fields, List.mem_singleton] at h
    simp [h]
  | cons c cs ih =>
    have hlater : ∀ {other : List Char}, other ∈ fields p cs →
        ∀ d ∈ other, p d = false ∧ d ∈ c :: cs := by
      intro other hother d hd
      exact ⟨(ih hother d hd).1, List.mem_cons_of_mem c (ih hother d hd).2⟩
    unfold fields at h
    split at h
    · rcases List.mem_cons.1 h with rfl | h
      · simp
      · exact hlater h
    · next hpick =>
      split at h
      · next hnil => exact absurd hnil (fields_ne_nil p cs)
      · next first others heq =>
        rw [heq] at hlater
        rcases List.mem_cons.1 h with rfl | h
        · rw [List.forall_mem_cons]
          exact ⟨⟨by simpa using hpick, List.mem_cons_self⟩, hlater List.mem_cons_self⟩
        · exact hlater (List.mem_cons_of_mem _ h)

/-- All stretches between separators are empty exactly if there is nothing else. -/
theorem forall_fields_eq_nil_iff {p : Char → Bool} :
    (∀ field ∈ fields p cs, field = []) ↔ ∀ c ∈ cs, p c = true := by
  induction cs with
  | nil => simp [fields]
  | cons c cs ih =>
    rw [List.forall_mem_cons, fields]
    split
    · next hseparator => rw [List.forall_mem_cons, ih]; simp [hseparator]
    · next hother =>
      split
      · simp [hother]
      · simp [hother]

/-- Fields are found again in the text that joins them. -/
theorem fields_intercalate {p : Char → Bool} {separator : Char} (hseparator : p separator = true)
    {parts : List (List Char)} (hparts : ∀ part ∈ parts, ∀ c ∈ part, p c = false)
    (hnonempty : parts ≠ []) : fields p ([separator].intercalate parts) = parts := by
  rw [fields_eq_splitOnP]
  induction parts with
  | nil => exact absurd rfl hnonempty
  | cons part parts ih =>
    rw [List.forall_mem_cons] at hparts
    cases parts with
    | nil =>
      rw [List.intercalate_singleton]
      exact List.splitOnP_eq_singleton hparts.1
    | cons next others =>
      rw [List.intercalate_cons_cons, List.append_assoc, List.singleton_append,
        List.splitOnP_append_cons_of_forall_mem hparts.1 separator hseparator,
        ih hparts.2 (by simp)]

/-- Joining the fields of a text gives the text back. -/
theorem intercalate_fields (separator : Char) (cs : List Char) :
    [separator].intercalate (fields (· == separator) cs) = cs := by
  rw [fields_eq_splitOnP, ← List.splitOn_eq_splitOnP]
  exact List.intercalate_splitOn separator

/-- Texts without the separator are found again in the text that joins them. -/
theorem fields_intercalate_toList {separator : Char} {parts : List String}
    (hparts : ∀ part ∈ parts, separator ∉ part.toList) (hnonempty : parts ≠ []) :
    fields (· == separator) ([separator].intercalate (parts.map String.toList)) =
      parts.map String.toList := by
  have hplain : ∀ part ∈ parts.map String.toList, ∀ c ∈ part, (c == separator) = false := by
    intro part hpart c hc
    obtain ⟨text, htext, rfl⟩ := List.mem_map.1 hpart
    exact beq_eq_false_iff_ne.2 fun heq => hparts text htext (heq ▸ hc)
  have hmap : parts.map String.toList ≠ [] := by simpa using hnonempty
  exact fields_intercalate (p := (· == separator)) (beq_self_eq_true separator) hplain hmap

theorem map_ofList_toList (parts : List String) :
    (parts.map String.toList).map String.ofList = parts := by
  simp

theorem filter_map_toList {parts : List String} (hparts : ∀ part ∈ parts, part ≠ "") :
    ((parts.map String.toList).filter fun part => !part.isEmpty) = parts.map String.toList := by
  rw [List.filter_eq_self]
  intro part hpart
  obtain ⟨text, htext, rfl⟩ := List.mem_map.1 hpart
  simpa using hparts text htext

/-! ## Words -/

/-- Words are found again in the line that joins them by single spaces. -/
theorem words_intercalate {parts : List String}
    (hparts : ∀ part ∈ parts, part ≠ "" ∧ Lacks [] part.toList) :
    words (" ".intercalate parts) = parts := by
  have hblank : ∀ part ∈ parts.map String.toList, ∀ c ∈ part, isBlank c = false := by
    intro part hpart c hc
    obtain ⟨word, hword, rfl⟩ := List.mem_map.1 hpart
    exact ((hparts word hword).2 c hc).2
  have hfilter := filter_map_toList fun part hpart => (hparts part hpart).1
  rw [words, String.toList_intercalate]
  cases hnil : parts with
  | nil => rfl
  | cons part others =>
    have hspace : isBlank ' ' = true := by decide
    rw [← hnil]
    have hfields := fields_intercalate hspace hblank (by simp [hnil])
    have hjoined : " ".toList = [' '] := rfl
    rw [hjoined, hfields, hfilter, map_ofList_toList]

/-- Lines with a space between have the words of both. -/
theorem words_append_space (front back : String) :
    words (front ++ " " ++ back) = words front ++ words back := by
  have hjoined : (front ++ " " ++ back).toList = front.toList ++ ' ' :: back.toList := by
    simp [String.toList_append]
  have hspace : isBlank ' ' = true := by decide
  rw [words, hjoined, fields_eq_splitOnP, List.splitOnP_append_cons _ _ hspace,
    ← fields_eq_splitOnP, ← fields_eq_splitOnP, List.filter_append, List.map_append, words, words]

/-- The words of a line are not empty and hold no blanks. -/
theorem forall_mem_words {line word : String} (h : word ∈ words line) :
    word ≠ "" ∧ Lacks [] word.toList := by
  obtain ⟨field, hfield, rfl⟩ := List.mem_map.1 h
  obtain ⟨hmem, hnonempty⟩ := List.mem_filter.1 hfield
  refine ⟨?_, ?_⟩
  · intro heq
    have hnil : field = [] := by simpa using congrArg String.toList heq
    simp [hnil] at hnonempty
  · intro c hc
    rw [String.toList_ofList] at hc
    exact ⟨List.not_mem_nil, (forall_mem_fields hmem c hc).1⟩

end Parlance.Text
