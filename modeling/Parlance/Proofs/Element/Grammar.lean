import Parlance.Proofs.Element.Names

/-!
# The grammar of elements

Which words are elements, told by where their marks stand: `IsElement` for the whole word,
`IsElementBody` for what stands between brackets, `NamesParameter` and `NamesType` for its
parts. A word describes a parameter exactly if it is an element
(`Parameter.isSome_ofElement?_iff`).
-/

set_option autoImplicit false

namespace Parlance

open Text

/-! ## The grammar -/

/-- Cut at its first `mark`, the text leaves `front`, and what stands behind the mark if it is
there. -/
inductive Text.CutsInto (mark : Char) : List Char → List Char → Option (List Char) → Prop where
  | whole {text : List Char} (hmark : mark ∉ text) : CutsInto mark text text none
  | parts {front behind : List Char} (hmark : mark ∉ front) :
      CutsInto mark (front ++ mark :: behind) front (some behind)

/-- The text names a type: it is not empty, and not braces around nothing but commas. -/
structure NamesType (text : List Char) : Prop where
  nonempty : text ≠ []
  hasWord : ∀ body, text = '\x7b' :: (body ++ ['\x7d']) → ∃ c ∈ body, c ≠ ','

/-- The text names a parameter between brackets, angled or square ones, where a type and a
fallback follow it or do not. -/
inductive NamesParameter (angled typed defaulted : Bool) (names : List Char) : Prop where
  /-- Names of a flag behind dashes, the first of them not empty. -/
  | flag (dashes : Nat) (first : Char) (rest : List Char)
      (hnames : names = List.replicate (dashes + 1) '-' ++ first :: rest)
      (hfirst : first ≠ '-' ∧ first ≠ '|') (hsquare : angled = false)
  /-- The name of a greedy text in front of its dots. -/
  | greedy (name : List Char) (hnames : names = name ++ ['.', '.', '.']) (hnonempty : name ≠ [])
      (hundashed : names.head? ≠ some '-') (huntyped : typed = false)
  /-- The name of a single value. -/
  | value (hnonempty : names ≠ []) (hundashed : names.head? ≠ some '-')
      (hundotted : ∀ name, names ≠ name ++ ['.', '.', '.']) (hunbarred : '|' ∉ names)
      (hdefaulted : angled = true → defaulted = false)

/-- The text can stand between brackets: names, a type behind the first colon in front of the
first equals sign, and a fallback behind that sign. -/
def IsElementBody (angled : Bool) (body : List Char) : Prop :=
  ∃ (head names : List Char) (type fallback : Option (List Char)),
    CutsInto '=' body head fallback ∧ CutsInto ':' head names type ∧
    (∀ text ∈ type, NamesType text) ∧ NamesParameter angled type.isSome fallback.isSome names

/-- The word is a well-formed element. -/
inductive IsElement : List Char → Prop where
  | bare {first : Char} {rest : List Char} (hfirst : first ∉ ['<', '[', '|']) :
      IsElement (first :: rest)
  | angled {body : List Char} (hbody : IsElementBody true body) :
      IsElement ('<' :: (body ++ ['>']))
  | square {body : List Char} (hbody : IsElementBody false body) :
      IsElement ('[' :: (body ++ [']']))

/-! ## Types -/

theorem choiceWords_ne_nil_iff {body : List Char} :
    choiceWords body ≠ [] ↔ ∃ c ∈ body, c ≠ ',' := by
  have hempty : choiceWords body = [] ↔ ∀ field ∈ fields (· == ',') body, field = [] := by
    rw [choiceWords, List.map_eq_nil_iff, List.filter_eq_nil_iff]
    simp
  rw [ne_eq, hempty, forall_fields_eq_nil_iff]
  simp

/-- Any text names a type that is not empty and not in braces. -/
theorem namesType_of_unbraced {text : List Char} (hnonempty : text ≠ [])
    (hbraces : ∀ body, text ≠ '\x7b' :: (body ++ ['\x7d'])) : NamesType text :=
  ⟨hnonempty, fun body heq => absurd heq (hbraces body)⟩

/-- A text in braces names a choice if there is a word between them. -/
theorem namesType_braces_iff {body : List Char} :
    NamesType ('\x7b' :: (body ++ ['\x7d'])) ↔ choiceWords body ≠ [] := by
  rw [choiceWords_ne_nil_iff]
  constructor
  · intro h
    exact h.hasWord body rfl
  · intro h
    refine ⟨List.cons_ne_nil _ _, fun other heq => ?_⟩
    obtain rfl := List.append_cancel_right (List.cons.inj heq).2
    exact h

namespace ValueType

/-- A text that begins with no brace names a built-in type or a custom one. -/
theorem isSome_ofText?_of_ne {first : Char} (hbrace : first ≠ '\x7b') (rest : List Char) :
    (ofText? (first :: rest)).isSome = true := by
  have hnone : braced? (first :: rest) = none := by
    unfold braced?
    split
    · next heq => exact absurd (List.cons.inj heq).1 hbrace
    · rfl
  unfold ofText?
  split
  case h_1 heq => simp [smallLetters, folded] at heq
  case h_12 => rw [hnone, Option.isSome_some]
  all_goals rfl

theorem isSome_ofText?_brace_iff {rest : List Char} :
    (ofText? ('\x7b' :: rest)).isSome = true ↔ NamesType ('\x7b' :: rest) := by
  rw [ofText?_brace]
  cases hbody : before? ['\x7d'] rest with
  | none =>
    refine ⟨fun _ => namesType_of_unbraced (List.cons_ne_nil _ _) ?_, fun _ => rfl⟩
    intro body heq
    rw [(List.cons.inj heq).2, before?_append] at hbody
    cases hbody
  | some body =>
    obtain rfl := before?_eq_some_iff.1 hbody
    rw [namesType_braces_iff]
    cases hwords : choiceWords body <;> simp [hwords]

/-- A text is read as a type exactly if it names one. -/
theorem isSome_ofText?_iff {text : List Char} :
    (ofText? text).isSome = true ↔ NamesType text := by
  rcases text with - | ⟨first, rest⟩
  · have hnone : ofText? [] = none := rfl
    rw [hnone]
    exact ⟨fun h => absurd h Bool.false_ne_true, fun h => absurd rfl h.nonempty⟩
  · by_cases hbrace : first = '\x7b'
    · rw [hbrace, isSome_ofText?_brace_iff]
    · refine ⟨fun _ => namesType_of_unbraced (List.cons_ne_nil _ _) ?_,
        fun _ => isSome_ofText?_of_ne hbrace rest⟩
      exact fun body heq => hbrace (List.cons.inj heq).1

end ValueType

/-! ## Names -/

/-- The first of the names between bars is empty if the text is, or begins with a bar. -/
theorem eq_empty_iff_of_unbarred {cs : List Char} {name : String} {aliases : List String}
    (h : unbarred cs = name :: aliases) : name = "" ↔ ∀ c ∈ cs.head?, c = '|' := by
  rcases cs with - | ⟨c, cs⟩
  · obtain ⟨rfl, -⟩ := List.cons.inj h
    simp
  · rw [unbarred, fields] at h
    split at h
    · next hbar =>
      obtain ⟨rfl, -⟩ := List.cons.inj h
      simpa using hbar
    · next hother =>
      have hne : c ≠ '|' := by simpa using hother
      split at h
      · obtain ⟨rfl, -⟩ := List.cons.inj h
        simp [hne]
      · obtain ⟨rfl, -⟩ := List.cons.inj h
        simp [hne]

theorem exists_unbarred (cs : List Char) : ∃ name aliases, unbarred cs = name :: aliases := by
  have hne : unbarred cs ≠ [] := by
    rw [unbarred, ne_eq, List.map_eq_nil_iff]
    exact fields_ne_nil _ cs
  exact List.exists_cons_of_ne_nil hne

theorem Parameter.isSome_literal?_iff {element : List Char} :
    (literal? element).isSome = true ↔ ∃ first rest, element = first :: rest ∧ first ≠ '|' := by
  obtain ⟨name, aliases, hnames⟩ := exists_unbarred element
  have hempty := eq_empty_iff_of_unbarred hnames
  rw [literal?, hnames]
  rcases element with - | ⟨first, rest⟩
  · simp [hempty.2 (by simp)]
  · have hfirst : name = "" ↔ first = '|' := by simpa using hempty
    by_cases hbar : first = '|'
    · simp [hfirst.2 hbar, hbar]
    · simp [mt hfirst.1 hbar, hbar]

namespace ElementBody

variable {b : ElementBody}

/-- What follows the dashes of a flag is not empty and does not begin with a bar. -/
theorem isSome_flag?_iff {names : List Char} : (b.flag? names).isSome = true ↔
    b.angled = false ∧ ∃ first rest, names.dropWhile (· == '-') = first :: rest ∧ first ≠ '|' := by
  obtain ⟨name, aliases, hnames⟩ := exists_unbarred (names.dropWhile (· == '-'))
  have hempty := eq_empty_iff_of_unbarred hnames
  rw [flag?, hnames]
  rcases hdropped : names.dropWhile (· == '-') with - | ⟨first, rest⟩
  · rw [hdropped] at hempty
    simp [hempty.2 (by simp)]
  · rw [hdropped] at hempty
    have hfirst : name = "" ↔ first = '|' := by simpa using hempty
    cases b.angled <;> by_cases hbar : first = '|'
    · simp [hfirst.2 hbar, hbar]
    · simp [mt hfirst.1 hbar, hbar]
    · simp
    · simp

theorem isSome_greedy?_iff {name : List Char} : (b.greedy? name).isSome = true ↔
    name ≠ [] ∧ b.type.isSome = false := by
  rw [greedy?]
  cases name <;> cases b.type.isSome <;> simp

theorem isSome_value?_iff : b.value?.isSome = true ↔
    b.names ≠ [] ∧ '|' ∉ b.names ∧ (b.angled = true → b.fallback.isSome = false) := by
  rw [value?]
  cases hempty : b.names.isEmpty <;> cases hbar : b.names.contains '|' <;>
    cases b.angled <;> cases b.fallback <;> simp_all

end ElementBody

/-- Behind a dash only names of a flag can follow. -/
theorem namesParameter_dash_iff {angled typed defaulted : Bool} {names : List Char} :
    NamesParameter angled typed defaulted ('-' :: names) ↔
      angled = false ∧
        ∃ first rest, names.dropWhile (· == '-') = first :: rest ∧ first ≠ '|' := by
  constructor
  · rintro (⟨dashes, first, rest, hnames, hfirst, hsquare⟩ | ⟨-, -, -, hundashed, -⟩ |
      ⟨-, hundashed, -, -, -⟩)
    · rw [List.replicate_succ, List.cons_append, List.cons.injEq] at hnames
      refine ⟨hsquare, first, rest, ?_, hfirst.2⟩
      rw [hnames.2, List.dropWhile_append_of_pos (by simp)]
      simp [hfirst.1]
    · exact absurd rfl hundashed
    · exact absurd rfl hundashed
  · rintro ⟨hsquare, first, rest, hdropped, hbar⟩
    have hdash : first ≠ '-' := by
      have hhead := List.head?_dropWhile_not (· == '-') names
      rw [hdropped] at hhead
      simpa using hhead
    have hdashes : names.takeWhile (· == '-') =
        List.replicate (names.takeWhile (· == '-')).length '-' := by
      refine List.eq_replicate_of_mem fun c hc => ?_
      have hall := List.all_eq_true.1 (List.all_takeWhile (p := (· == '-')) (l := names)) c hc
      simpa using hall
    refine .flag (names.takeWhile (· == '-')).length first rest ?_ ⟨hdash, hbar⟩ hsquare
    rw [List.replicate_succ, ← hdashes, List.cons_append, ← hdropped, List.takeWhile_append_dropWhile]

/-- Names in front of dots are those of a greedy text. -/
theorem namesParameter_dots_iff {angled typed defaulted : Bool} {name : List Char}
    (hundashed : (name ++ ['.', '.', '.']).head? ≠ some '-') :
    NamesParameter angled typed defaulted (name ++ ['.', '.', '.']) ↔
      name ≠ [] ∧ typed = false := by
  constructor
  · rintro (⟨dashes, first, rest, hnames, -, -⟩ | ⟨other, hnames, hnonempty, -, huntyped⟩ |
      ⟨-, -, hundotted, -, -⟩)
    · rw [hnames, List.replicate_succ] at hundashed
      exact absurd rfl hundashed
    · obtain rfl := List.append_cancel_right hnames
      exact ⟨hnonempty, huntyped⟩
    · exact absurd rfl (hundotted name)
  · rintro ⟨hnonempty, huntyped⟩
    exact .greedy name rfl hnonempty hundashed huntyped

/-- Other names are those of a single value. -/
theorem namesParameter_iff_of_plain {angled typed defaulted : Bool} {names : List Char}
    (hundashed : names.head? ≠ some '-') (hundotted : ∀ name, names ≠ name ++ ['.', '.', '.']) :
    NamesParameter angled typed defaulted names ↔
      names ≠ [] ∧ '|' ∉ names ∧ (angled = true → defaulted = false) := by
  constructor
  · rintro (⟨dashes, first, rest, hnames, -, -⟩ | ⟨name, hnames, -, -, -⟩ |
      ⟨hnonempty, -, -, hunbarred, hdefaulted⟩)
    · rw [hnames, List.replicate_succ] at hundashed
      exact absurd rfl hundashed
    · exact absurd hnames (hundotted name)
    · exact ⟨hnonempty, hunbarred, hdefaulted⟩
  · rintro ⟨hnonempty, hunbarred, hdefaulted⟩
    exact .value hnonempty hundashed hundotted hunbarred hdefaulted

/-- What stands between brackets describes a parameter exactly if its names name one. -/
theorem ElementBody.isSome_parameter?_iff {b : ElementBody} : b.parameter?.isSome = true ↔
    NamesParameter b.angled b.type.isSome b.fallback.isSome b.names := by
  unfold parameter?
  split
  · next names heq => rw [heq, namesParameter_dash_iff, isSome_flag?_iff]
  · next hdash =>
    have hundashed : b.names.head? ≠ some '-' := by
      intro hhead
      obtain ⟨names, heq⟩ := List.head?_eq_some_iff.1 hhead
      exact hdash names heq
    split
    · next name heq =>
      rw [before?_eq_some_iff] at heq
      rw [heq] at hundashed ⊢
      rw [namesParameter_dots_iff hundashed, isSome_greedy?_iff]
    · next hnone =>
      have hundotted : ∀ name, b.names ≠ name ++ ['.', '.', '.'] := by
        intro name heq
        rw [before?_eq_some_iff.2 heq] at hnone
        cases hnone
      rw [namesParameter_iff_of_plain hundashed hundotted, isSome_value?_iff]

/-! ## Elements -/

theorem Text.exists_cutsInto (mark : Char) (text : List Char) :
    ∃ front behind, CutsInto mark text front behind := by
  cases hcut : cutAt mark text with
  | none => exact ⟨text, none, .whole (cutAt_eq_none_iff.1 hcut)⟩
  | some parts =>
    obtain ⟨rfl, hmark⟩ := eq_of_cutAt_eq_some hcut
    exact ⟨parts.1, some parts.2, .parts hmark⟩

theorem Text.CutsInto.cutAt_eq {mark : Char} {text front : List Char} {behind : Option (List Char)}
    (h : CutsInto mark text front behind) : cutAt mark text = behind.map fun back => (front, back) := by
  cases h with
  | whole hmark => exact cutAt_eq_none_iff.2 hmark
  | parts hmark => exact cutAt_append hmark _

/-- A body is taken apart at its first equals sign, and in front of that at its first colon. -/
theorem ElementBody.ofList?_eq {angled : Bool} {body head names : List Char}
    {type fallback : Option (List Char)} (hfallback : CutsInto '=' body head fallback)
    (htype : CutsInto ':' head names type) : ofList? angled body =
      match type with
      | none => some ⟨angled, names, none, fallback.map fun token => .raw (String.ofList token)⟩
      | some text => (ValueType.ofText? text).map fun type =>
          ⟨angled, names, some type, fallback.map fun token => .raw (String.ofList token)⟩ := by
  have hcut := htype.cutAt_eq
  rw [ofList?, hfallback.cutAt_eq]
  cases hfallback <;> cases htype <;> simp_all

theorem ElementBody.isSome_read_iff_of_cutsInto {angled : Bool} {body head names : List Char}
    {type fallback : Option (List Char)} (hfallback : CutsInto '=' body head fallback)
    (htype : CutsInto ':' head names type) :
    ((ofList? angled body).bind parameter?).isSome = true ↔
      (∀ text ∈ type, NamesType text) ∧
        NamesParameter angled type.isSome fallback.isSome names := by
  rw [ofList?_eq hfallback htype]
  cases type with
  | none => simp [isSome_parameter?_iff]
  | some text =>
    have hnames : NamesType text ↔ (ValueType.ofText? text).isSome = true :=
      ValueType.isSome_ofText?_iff.symm
    cases hvalue : ValueType.ofText? text with
    | none => simp [hnames, hvalue]
    | some type => simp [hnames, hvalue, isSome_parameter?_iff]

theorem ElementBody.isSome_read_iff {angled : Bool} {body : List Char} :
    ((ofList? angled body).bind parameter?).isSome = true ↔ IsElementBody angled body := by
  constructor
  · intro h
    obtain ⟨head, fallback, hfallback⟩ := exists_cutsInto '=' body
    obtain ⟨names, type, htype⟩ := exists_cutsInto ':' head
    exact ⟨head, names, type, fallback, hfallback, htype,
      (isSome_read_iff_of_cutsInto hfallback htype).1 h⟩
  · rintro ⟨head, names, type, fallback, hfallback, htype, h⟩
    exact (isSome_read_iff_of_cutsInto hfallback htype).2 h

/-- A bracket that is closed at the end of the word holds what can stand in it. -/
theorem ElementBody.isSome_bracketed_iff {angled : Bool} {mark : Char} {cs : List Char} :
    ((before? [mark] cs).bind fun body => (ofList? angled body).bind parameter?).isSome = true ↔
      ∃ body, cs = body ++ [mark] ∧ IsElementBody angled body := by
  cases hbefore : before? [mark] cs with
  | none =>
    rw [Option.bind_none]
    refine ⟨fun h => absurd h Bool.false_ne_true, ?_⟩
    rintro ⟨body, rfl, -⟩
    rw [before?_append] at hbefore
    cases hbefore
  | some body =>
    obtain rfl := before?_eq_some_iff.1 hbefore
    rw [Option.bind_some, isSome_read_iff]
    constructor
    · intro h
      exact ⟨body, rfl, h⟩
    · rintro ⟨other, heq, h⟩
      rwa [List.append_cancel_right heq]

theorem isElement_angled_iff {cs : List Char} :
    IsElement ('<' :: cs) ↔ ∃ body, cs = body ++ ['>'] ∧ IsElementBody true body := by
  constructor
  · rintro (hfirst | hbody)
    · exact absurd hfirst (by decide)
    · exact ⟨_, rfl, hbody⟩
  · rintro ⟨body, rfl, hbody⟩
    exact .angled hbody

theorem isElement_square_iff {cs : List Char} :
    IsElement ('[' :: cs) ↔ ∃ body, cs = body ++ [']'] ∧ IsElementBody false body := by
  constructor
  · rintro (hfirst | - | hbody)
    · exact absurd hfirst (by decide)
    · exact ⟨_, rfl, hbody⟩
  · rintro ⟨body, rfl, hbody⟩
    exact .square hbody

/-- A word describes a parameter exactly if it is a well-formed element. -/
theorem Parameter.isSome_ofElement?_iff {element : String} :
    (ofElement? element).isSome = true ↔ IsElement element.toList := by
  unfold ofElement?
  generalize element.toList = word
  split
  · next cs =>
    rw [isElement_angled_iff]
    exact ElementBody.isSome_bracketed_iff
  · next cs =>
    rw [isElement_square_iff]
    exact ElementBody.isSome_bracketed_iff
  · next hangled hsquare =>
    rw [isSome_literal?_iff]
    constructor
    · rintro ⟨first, rest, rfl, hbar⟩
      refine .bare ?_
      simp only [List.mem_cons, List.not_mem_nil, or_false, not_or]
      exact ⟨fun h => hangled rest (by rw [h]), fun h => hsquare rest (by rw [h]), hbar⟩
    · intro h
      cases h with
      | @bare first rest hfirst =>
        exact ⟨first, rest, rfl, fun hbar => hfirst (by simp [hbar])⟩
      | angled => exact absurd rfl (hangled _)
      | square => exact absurd rfl (hsquare _)

/-- Marks alone make no element. -/
example : ["<", "<>", "[]", "|a", "[-]", "[--|a]", "<-a>", "<...>", "<a...:word>", "[a|b]",
    "<a=b>", "<a:>"].all fun element => (Parameter.ofElement? element).isNone :=
  rfl

end Parlance
