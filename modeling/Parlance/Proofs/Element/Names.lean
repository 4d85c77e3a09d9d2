import Parlance.Proofs.Text.Fields
import Parlance.Usage.Element

/-!
# Names and types in elements

Names are written with bars between them and types by name. Both are read back
from what is written: names that hold no bar, and every type that reading a type
can yield.
-/

set_option autoImplicit false

namespace Parlance

open Text

/-! ## Names between bars -/

theorem unbarred_barred {names : List String} (hnames : ∀ name ∈ names, '|' ∉ name.toList)
    (hnonempty : names ≠ []) : unbarred (barred names).toList = names := by
  have hjoined : (barred names).toList = ['|'].intercalate (names.map String.toList) :=
    String.toList_intercalate
  rw [unbarred, hjoined, fields_intercalate_toList hnames hnonempty, map_ofList_toList]

theorem barred_unbarred (cs : List Char) : barred (unbarred cs) = String.ofList cs := by
  have hid : (String.toList ∘ String.ofList) = (id : List Char → List Char) := by
    funext part
    exact String.toList_ofList
  rw [← String.toList_inj, barred, unbarred, String.toList_intercalate, List.map_map, hid,
    List.map_id, String.toList_ofList, String.toList_ofList]
  exact intercalate_fields '|' cs

/-- A name between bars holds no bar, and it is part of the text. -/
theorem forall_mem_unbarred {cs : List Char} {name : String} (h : name ∈ unbarred cs) :
    '|' ∉ name.toList ∧ name.toList ⊆ cs := by
  obtain ⟨field, hfield, rfl⟩ := List.mem_map.1 h
  rw [String.toList_ofList]
  have hmem := forall_mem_fields hfield
  exact ⟨fun hbar => by simpa using (hmem '|' hbar).1, fun c hc => (hmem c hc).2⟩

theorem lacks_barred {marks : List Char} (hbar : '|' ∉ marks) {names : List String}
    (h : ∀ name ∈ names, Lacks marks name.toList) : Lacks marks (barred names).toList := by
  rw [barred, String.toList_intercalate]
  refine lacks_intercalate ⟨hbar, by decide⟩ ?_
  intro part hpart
  obtain ⟨name, hname, rfl⟩ := List.mem_map.1 hpart
  exact h name hname

theorem head?_barred {name : String} {aliases : List String} (h : name ≠ "") :
    (barred (name :: aliases)).toList.head? = name.toList.head? := by
  obtain ⟨c, cs, hname⟩ : ∃ c cs, name.toList = c :: cs :=
    List.exists_cons_of_ne_nil (by simpa using h)
  cases aliases <;> simp [barred, hname]

/-- The first of several names begins like the text that they are read from. -/
theorem head?_of_unbarred {cs : List Char} {name : String} {aliases : List String}
    (h : unbarred cs = name :: aliases) (hname : name ≠ "") : name.toList.head? = cs.head? := by
  rw [← head?_barred hname, ← h, barred_unbarred, String.toList_ofList]

/-! ## Types -/

/-- The type is the one that its name is read as, and the name can stand in an
element. -/
structure ValueType.IsReadable (type : ValueType) : Prop where
  read : ofText? type.name.toList = some type
  plain : Lacks ['='] type.name.toList

/-- A text that begins with a brace names a choice or a custom type. -/
theorem ValueType.ofText?_brace (cs : List Char) :
    ofText? ('\x7b' :: cs) =
      match before? ['\x7d'] cs with
      | none => some (.custom (String.ofList ('\x7b' :: cs)))
      | some body =>
        match choiceWords body with
        | [] => none
        | words => some (.choice words) := by
  have hbuiltIn : ∀ word : String, word.toList.head? ≠ some '\x7b' →
      smallLetters (String.ofList ('\x7b' :: cs)) ≠ word := by
    rintro word hword rfl
    exact hword (by simp [smallLetters, folded])
  unfold ofText?
  split
  case h_12 => rfl
  all_goals next heq => exact absurd heq (hbuiltIn _ (by decide))

theorem ValueType.toList_name_choice (words : List String) :
    (choice words).name.toList =
      '\x7b' :: ([','].intercalate (words.map String.toList) ++ ['\x7d']) := by
  simp [name]

/-- A choice is read from its words in braces, none of them empty or with a comma. -/
theorem ValueType.ofText?_name_choice {words : List String}
    (hwords : ∀ word ∈ words, word ≠ "" ∧ ',' ∉ word.toList) (hnonempty : words ≠ []) :
    ofText? (choice words).name.toList = some (choice words) := by
  have hchoice : choiceWords ([','].intercalate (words.map String.toList)) = words := by
    rw [choiceWords, fields_intercalate_toList (fun word hword => (hwords word hword).2) hnonempty,
      filter_map_toList fun word hword => (hwords word hword).1, map_ofList_toList]
  rw [toList_name_choice, ofText?_brace, before?_append]
  simp only [hchoice]

/-- The words of a choice are parts of the text between the braces, not empty and
without commas. -/
theorem forall_mem_choiceWords {body : List Char} {word : String} (h : word ∈ choiceWords body) :
    word ≠ "" ∧ ',' ∉ word.toList ∧ word.toList ⊆ body := by
  obtain ⟨field, hfield, rfl⟩ := List.mem_map.1 h
  obtain ⟨hmem, hnonempty⟩ := List.mem_filter.1 hfield
  have hchars := forall_mem_fields hmem
  rw [String.toList_ofList]
  refine ⟨?_, fun hcomma => by simpa using (hchars ',' hcomma).1, fun c hc => (hchars c hc).2⟩
  intro heq
  have hnil : field = [] := by simpa using congrArg String.toList heq
  simp [hnil] at hnonempty

/-- A type that is read from a text is read from its name as well. -/
theorem ValueType.isReadable_of_ofText? {text : List Char} {type : ValueType}
    (h : ofText? text = some type) (htext : Lacks ['='] text) : type.IsReadable := by
  have hread := h
  unfold ofText? at h
  split at h
  · cases h
  any_goals
    obtain rfl := Option.some.inj h
    exact ⟨by decide, by decide⟩
  split at h
  · -- The name of a custom type is the text itself.
    obtain rfl := Option.some.inj h
    have hname : (custom (String.ofList text)).name.toList = text := String.toList_ofList
    refine ⟨?_, ?_⟩
    · rw [hname]
      exact hread
    · rw [hname]
      exact htext
  · next body hbraced =>
    split at h
    · cases h
    · next hnonempty =>
      obtain rfl := Option.some.inj h
      have hbody : body ⊆ text := by
        unfold braced? at hbraced
        split at hbraced
        · rw [before?_eq_some_iff.1 hbraced]
          intro c hc
          simp [hc]
        · cases hbraced
      refine ⟨ofText?_name_choice ?_ (by simpa using hnonempty), ?_⟩
      · intro word hword
        exact ⟨(forall_mem_choiceWords hword).1, (forall_mem_choiceWords hword).2.1⟩
      · rw [toList_name_choice, lacks_cons_iff, lacks_append_iff]
        refine ⟨by decide, lacks_intercalate (by decide) ?_, by decide⟩
        intro part hpart
        obtain ⟨word, hword, rfl⟩ := List.mem_map.1 hpart
        exact htext.of_subset (List.Subset.trans (forall_mem_choiceWords hword).2.2 hbody)

end Parlance
