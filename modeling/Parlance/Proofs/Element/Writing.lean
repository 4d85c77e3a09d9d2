import Parlance.Proofs.Element.Reading

/-!
# Elements read back

The element that a readable parameter is written as is a word, and it describes
the parameter itself, but for a fallback that an element does not show.
-/

set_option autoImplicit false

namespace Parlance

open Text

/-! ## What an element keeps -/

/-- The fallback as an element tells it: an empty token is not shown. -/
def Fallback.reread : Option Fallback → Option Fallback
  | some (.raw "") => none
  | fallback => fallback

/-- The kind as an element tells it. An optional parameter and a flag with a value
lose an empty fallback, a switch loses any, and the fallback of a greedy parameter
becomes the empty text. -/
def Parameter.Kind.reread : Parameter.Kind → Parameter.Kind
  | .literal aliases => .literal aliases
  | .required type => .required type
  | .optional type fallback => .optional type (Fallback.reread fallback)
  | .greedy none => .greedy none
  | .greedy (some _) => .greedy (some (.value (.text "")))
  | .flag aliases none _ => .flag aliases none none
  | .flag aliases (some type) fallback => .flag aliases (some type) (Fallback.reread fallback)

/-- The parameter as its element tells it. -/
def Parameter.reread (p : Parameter) : Parameter :=
  { p with kind := p.kind.reread }

/-! ## Writing -/

/-- The type that stands behind a colon for a value, if one does. -/
def ValueType.written? : ValueType → Option ValueType
  | string => none
  | other => some other

/-- The token that stands behind an equals sign, if one does. -/
def Fallback.written? : Option Fallback → Option String
  | some (.raw token) => if token = "" then none else some token
  | _ => none

/-- Names between brackets, with a type and a fallback behind them. -/
def bodyText (names : List Char) (type : Option ValueType) (token : Option String) : List Char :=
  names ++ (type.elim [] fun t => ':' :: t.name.toList) ++ token.elim [] fun t => '=' :: t.toList

theorem lacks_bodyText {names : List Char} {type : Option ValueType} {token : Option String}
    (hnames : Lacks [] names) (htype : ∀ t ∈ type, t.IsReadable)
    (htoken : ∀ t ∈ token, Lacks [] t.toList) : Lacks [] (bodyText names type token) := by
  rw [bodyText, lacks_append_iff, lacks_append_iff]
  refine ⟨⟨hnames, ?_⟩, ?_⟩
  · cases type with
    | none => exact lacks_nil _
    | some t => exact lacks_cons_iff.2 ⟨by decide, (htype t rfl).plain.of_marks (by simp)⟩
  · cases token with
    | none => exact lacks_nil _
    | some t => exact lacks_cons_iff.2 ⟨by decide, htoken t rfl⟩

/-- The part of an element before its fallback is taken apart again. -/
theorem cutAt_colon {names : List Char} (hnames : ':' ∉ names) (type : Option ValueType) :
    cutAt ':' (bodyText names type none) = type.map fun t => (names, t.name.toList) := by
  cases type with
  | none => simpa [bodyText] using cutAt_eq_none_iff.2 hnames
  | some t => simpa [bodyText] using cutAt_append hnames t.name.toList

theorem cutAt_equals {names : List Char} (hnames : '=' ∉ names) {type : Option ValueType}
    (htype : ∀ t ∈ type, t.IsReadable) (token : Option String) :
    cutAt '=' (bodyText names type token) =
      token.map fun t => (bodyText names type none, t.toList) := by
  have hhead : '=' ∉ bodyText names type none := by
    cases type with
    | none => simpa [bodyText] using hnames
    | some t =>
      have hname : '=' ∉ t.name.toList := (htype t rfl).plain.not_mem (List.mem_singleton_self '=')
      simp [bodyText, hnames, hname]
  cases token with
  | none => exact cutAt_eq_none_iff.2 hhead
  | some token =>
    have hbody : bodyText names type (some token) =
        bodyText names type none ++ '=' :: token.toList := by
      simp [bodyText]
    rw [hbody]
    exact cutAt_append hhead token.toList

/-- What is written between brackets is taken apart again. -/
theorem ElementBody.ofList?_bodyText (angled : Bool) {names : List Char} {type : Option ValueType}
    (token : Option String) (hnames : Lacks [':', '='] names) (htype : ∀ t ∈ type, t.IsReadable) :
    ofList? angled (bodyText names type token) =
      some { angled, names, type, fallback := token.map .raw } := by
  have hmark : ':' ∉ names := hnames.not_mem (by simp)
  have hequals := cutAt_equals (hnames.not_mem (by simp)) htype token
  have hcolon := cutAt_colon hmark type
  have hplain : bodyText names none none = names := by simp [bodyText]
  unfold ofList?
  rw [hequals]
  cases token <;> cases type with
  | none => simp [hplain, cutAt_eq_none_iff.2 hmark]
  | some t => simp [hcolon, (htype t rfl).read]

/-! ## Writing reads back -/

/-- The element of the parameter is a word that describes the parameter, as far as
an element can tell it. -/
structure Parameter.ReadsBack (p : Parameter) : Prop where
  read : ofElement? p.element = some p.reread
  nonempty : p.element ≠ ""
  plain : Lacks [] p.element.toList

/-- A parameter in brackets reads back if what stands between them does. -/
theorem Parameter.readsBack_of_bodyText {p : Parameter} (angled : Bool) (names : List Char)
    (type : Option ValueType) (token : Option String)
    (helement : p.element.toList =
      (if angled then '<' else '[') :: (bodyText names type token ++ [if angled then '>' else ']']))
    (hnames : Lacks [':', '='] names) (htype : ∀ t ∈ type, t.IsReadable)
    (htoken : ∀ t ∈ token, Lacks [] t.toList)
    (hparameter : ElementBody.parameter? { angled, names, type, fallback := token.map .raw } =
      some p.reread) : p.ReadsBack := by
  have hbody := lacks_bodyText (hnames.of_marks (by simp)) htype htoken
  refine ⟨?_, ?_, ?_⟩
  · have hlist := ElementBody.ofList?_bodyText angled token hnames htype
    cases angled <;> simp [ofElement?, helement, before?_append, hlist, hparameter]
  · intro hempty
    rw [hempty] at helement
    cases helement
  · rw [helement, lacks_cons_iff, lacks_append_iff]
    cases angled with
    | true => exact ⟨by decide, hbody, by decide⟩
    | false => exact ⟨by decide, hbody, by decide⟩

theorem Parameter.ofElement?_bare {element : String}
    (h : element.toList.head? ≠ some '<' ∧ element.toList.head? ≠ some '[') :
    ofElement? element = literal? element.toList := by
  unfold ofElement?
  split
  · next heq => simp [heq] at h
  · next heq => simp [heq] at h
  · rfl

theorem ElementBody.parameter?_of_undashed {b : ElementBody} (h : b.names.head? ≠ some '-') :
    b.parameter? =
      match before? ['.', '.', '.'] b.names with
      | some name => b.greedy? name
      | none => b.value? := by
  unfold parameter?
  split
  · next heq => simp [heq] at h
  · rfl

/-- The body of a value is read as the value. -/
theorem ElementBody.parameter?_of_isValueName {name : String} (hname : IsValueName name)
    {angled : Bool} {type : Option ValueType} {fallback : Option Fallback}
    (hfallback : angled = true → fallback = none) :
    ElementBody.parameter? { angled, names := name.toList, type, fallback } =
      some
        { name
          kind :=
            if angled then .required (type.getD .string)
            else .optional (type.getD .string) fallback } := by
  rw [ElementBody.parameter?_of_undashed hname.undashed]
  simp only [hname.undotted, ElementBody.value?]
  have hbar : '|' ∉ name.toList := hname.plain.not_mem (by simp)
  cases angled with
  | true => simp [hname.nonempty, hbar, hfallback]
  | false => simp [hname.nonempty, hbar]

/-- The names of a flag are read behind any number of dashes. -/
theorem ElementBody.flag?_barred {name : String} {aliases : List String} (hnonempty : name ≠ "")
    (hundashed : name.toList.head? ≠ some '-') (hbars : ∀ word ∈ name :: aliases, '|' ∉ word.toList)
    {b : ElementBody} (hangled : b.angled = false) :
    b.flag? (barred (name :: aliases)).toList =
      some { name, kind := .flag aliases b.type b.fallback } := by
  have hdash : ((barred (name :: aliases)).toList.dropWhile (· == '-')) =
      (barred (name :: aliases)).toList := by
    have hhead : (barred (name :: aliases)).toList.head? = name.toList.head? :=
      head?_barred hnonempty
    rw [← hhead] at hundashed
    cases hnames : (barred (name :: aliases)).toList with
    | nil => rfl
    | cons c cs =>
      rw [hnames] at hundashed
      exact List.dropWhile_cons_of_neg (by simpa using hundashed)
  rw [ElementBody.flag?, hdash, unbarred_barred hbars (by simp)]
  simp [hangled, hnonempty]

theorem ValueType.toList_suffix (type : ValueType) :
    type.suffix.toList = type.written?.elim [] fun t => ':' :: t.name.toList := by
  cases type <;> simp [suffix, written?]

theorem ValueType.getD_written? (type : ValueType) : type.written?.getD .string = type := by
  cases type <;> rfl

theorem ValueType.IsReadable.written? {type : ValueType} (h : type.IsReadable) :
    ∀ t ∈ type.written?, t.IsReadable := by
  cases type <;> simp_all [ValueType.written?]

/-- A readable fallback is a token, if there is one. -/
theorem Fallback.exists_eq_map_raw {fallback : Option Fallback}
    (h : ∀ f ∈ fallback, f.IsReadable) :
    ∃ token : Option String, fallback = token.map .raw ∧ ∀ t ∈ token, Lacks [] t.toList := by
  cases fallback with
  | none => exact ⟨none, rfl, by simp⟩
  | some f =>
    have hf := h f rfl
    cases f with
    | raw token =>
      refine ⟨some token, rfl, ?_⟩
      rintro t ht
      obtain rfl := Option.some.inj ht
      exact hf
    | value value => exact hf.elim
    | supplied supplier => exact hf.elim

/-- A readable fallback is written as its token, and an empty token is not. -/
theorem Fallback.suffix_of_isReadable {fallback : Option Fallback}
    (h : ∀ f ∈ fallback, f.IsReadable) :
    (∀ token ∈ written? fallback, Lacks [] token.toList) ∧
    (Fallback.suffix fallback).toList =
      ((written? fallback).elim [] fun t => '=' :: t.toList) ∧
    (written? fallback).map .raw = reread fallback := by
  obtain ⟨token, rfl, htoken⟩ := exists_eq_map_raw h
  cases token with
  | none => exact ⟨by simp [written?], rfl, rfl⟩
  | some token =>
    have hblank : hasBlank token = false := by
      rw [hasBlank, List.any_eq_false]
      intro c hc
      simp [(htoken token rfl c hc).2]
    by_cases hempty : token = ""
    · simp [suffix, shown?, written?, reread, hempty, Option.filter]
    · simp [suffix, shown?, written?, reread, hempty, hblank, htoken, Option.filter]

namespace Parameter

theorem readsBack_literal {name : String} {aliases : List String} (hnonempty : name ≠ "")
    (hbare : name.toList.head? ≠ some '<' ∧ name.toList.head? ≠ some '[')
    (hplain : ∀ word ∈ name :: aliases, Lacks ['|'] word.toList) :
    ReadsBack { name, kind := .literal aliases } := by
  have hhead : (barred (name :: aliases)).toList.head? = name.toList.head? :=
    head?_barred hnonempty
  have hnames : unbarred (barred (name :: aliases)).toList = name :: aliases :=
    unbarred_barred (fun word hword => (hplain word hword).not_mem (by simp)) (by simp)
  refine ⟨?_, ?_, ?_⟩
  · show ofElement? (barred (name :: aliases)) = _
    rw [ofElement?_bare (hhead ▸ hbare), literal?, hnames]
    simp [hnonempty, reread, Kind.reread]
  · show barred (name :: aliases) ≠ ""
    intro hempty
    rw [hempty] at hhead
    exact hnonempty (by simpa using hhead.symm)
  · exact lacks_barred (by simp) fun word hword => (hplain word hword).of_marks (by simp)

theorem readsBack_required {name : String} {type : ValueType} (hname : IsValueName name)
    (htype : type.IsReadable) : ReadsBack { name, kind := .required type } := by
  refine readsBack_of_bodyText true name.toList type.written? none ?_
    (hname.plain.of_marks (by simp)) htype.written? (by simp) ?_
  · simp [element, bodyText, ValueType.toList_suffix]
  · simp [ElementBody.parameter?_of_isValueName hname, type.getD_written?, reread,
      Kind.reread]

theorem readsBack_optional {name : String} {type : ValueType} {fallback : Option Fallback}
    (hname : IsValueName name) (htype : type.IsReadable)
    (hfallback : ∀ f ∈ fallback, f.IsReadable) :
    ReadsBack { name, kind := .optional type fallback } := by
  obtain ⟨htoken, hsuffix, hreread⟩ := Fallback.suffix_of_isReadable hfallback
  refine readsBack_of_bodyText false name.toList type.written? (Fallback.written? fallback) ?_
    (hname.plain.of_marks (by simp)) htype.written? htoken ?_
  · simp [element, bodyText, ValueType.toList_suffix, hsuffix]
  · simp [ElementBody.parameter?_of_isValueName hname, type.getD_written?, reread,
      Kind.reread, hreread]

theorem readsBack_greedy {name : String} {fallback : Option Fallback} (hnonempty : name ≠ "")
    (hplain : Lacks [':', '='] name.toList) (hundashed : name.toList.head? ≠ some '-') :
    ReadsBack { name, kind := .greedy fallback } := by
  refine readsBack_of_bodyText fallback.isNone (name.toList ++ ['.', '.', '.']) none none ?_ ?_
    (by simp) (by simp) ?_
  · cases fallback <;> simp [element, bodyText]
  · rw [lacks_append_iff]
    exact ⟨hplain, by decide⟩
  · rw [ElementBody.parameter?_of_undashed]
    · cases fallback <;> simp [before?_append, ElementBody.greedy?, hnonempty, reread, Kind.reread]
    · obtain ⟨c, cs, hname⟩ : ∃ c cs, name.toList = c :: cs :=
        List.exists_cons_of_ne_nil (by simpa using hnonempty)
      simpa [hname] using hundashed

theorem readsBack_flag {name : String} {aliases : List String} {type : Option ValueType}
    {fallback : Option Fallback} (hnonempty : name ≠ "") (hundashed : name.toList.head? ≠ some '-')
    (hplain : ∀ word ∈ name :: aliases, Lacks ['|', ':', '='] word.toList)
    (htype : ∀ t ∈ type, t.IsReadable) (hfallback : ∀ f ∈ fallback, f.IsReadable) :
    ReadsBack { name, kind := .flag aliases type fallback } := by
  obtain ⟨htoken, hsuffix, hreread⟩ := Fallback.suffix_of_isReadable hfallback
  have hbars : ∀ word ∈ name :: aliases, '|' ∉ word.toList := fun word hword =>
    (hplain word hword).not_mem (by simp)
  refine readsBack_of_bodyText false ('-' :: (barred (name :: aliases)).toList) type
    (type.bind fun _ => Fallback.written? fallback) ?_ ?_ htype ?_ ?_
  · cases type <;> simp [element, bodyText, hsuffix]
  · have hnames : ∀ word ∈ name :: aliases, Lacks [':', '='] word.toList := fun word hword =>
      (hplain word hword).of_marks (by simp)
    exact lacks_cons_iff.2 ⟨by decide, lacks_barred (by decide) hnames⟩
  · cases type with
    | none => simp
    | some type => exact htoken
  · show ElementBody.flag? _ _ = _
    rw [ElementBody.flag?_barred hnonempty hundashed hbars rfl]
    cases type with
    | none => rfl
    | some type => simp [reread, Kind.reread, hreread]

end Parameter

/-- Every readable parameter reads back. -/
theorem Parameter.IsReadable.readsBack {p : Parameter} (h : p.IsReadable) : p.ReadsBack := by
  cases h with
  | literal nonempty bare plain => exact readsBack_literal nonempty bare plain
  | required hname htype => exact readsBack_required hname htype
  | optional hname htype hfallback => exact readsBack_optional hname htype hfallback
  | greedy nonempty plain undashed => exact readsBack_greedy nonempty plain undashed
  | flag nonempty undashed plain htype hfallback =>
    exact readsBack_flag nonempty undashed plain htype hfallback

end Parlance
