import Parlance.Proofs.Element.Names

/-!
# What elements describe

`Parameter.IsReadable` is the grammar of compact elements, told by the parameters
that they describe: which characters their names, types and fallbacks lack, so
that they can stand between the marks of an element. Reading an element without
blanks yields no other parameters.
-/

set_option autoImplicit false

namespace Parlance

open Text

/-! ## Readable parameters -/

/-- The name stands for a value in brackets, and not for a flag or a greedy text. -/
structure IsValueName (name : String) : Prop where
  nonempty : name ≠ ""
  plain : Lacks ['|', ':', '='] name.toList
  undashed : name.toList.head? ≠ some '-'
  undotted : before? ['.', '.', '.'] name.toList = none

/-- The fallback is a token that can stand in an element. -/
def Fallback.IsReadable : Fallback → Prop
  | raw token => Lacks [] token.toList
  | value _ | supplied _ => False

/-- Parameters that elements describe. -/
inductive Parameter.IsReadable : Parameter → Prop where
  | literal {name : String} {aliases : List String} (nonempty : name ≠ "")
      (bare : name.toList.head? ≠ some '<' ∧ name.toList.head? ≠ some '[')
      (plain : ∀ word ∈ name :: aliases, Lacks ['|'] word.toList) :
      IsReadable { name, kind := .literal aliases }
  | required {name : String} {type : ValueType} (hname : IsValueName name)
      (htype : type.IsReadable) : IsReadable { name, kind := .required type }
  | optional {name : String} {type : ValueType} {fallback : Option Fallback}
      (hname : IsValueName name) (htype : type.IsReadable)
      (hfallback : ∀ f ∈ fallback, f.IsReadable) :
      IsReadable { name, kind := .optional type fallback }
  | greedy {name : String} {fallback : Option Fallback} (nonempty : name ≠ "")
      (plain : Lacks [':', '='] name.toList) (undashed : name.toList.head? ≠ some '-') :
      IsReadable { name, kind := .greedy fallback }
  | flag {name : String} {aliases : List String} {type : Option ValueType}
      {fallback : Option Fallback} (nonempty : name ≠ "")
      (undashed : name.toList.head? ≠ some '-')
      (plain : ∀ word ∈ name :: aliases, Lacks ['|', ':', '='] word.toList)
      (htype : ∀ t ∈ type, t.IsReadable) (hfallback : ∀ f ∈ fallback, f.IsReadable) :
      IsReadable { name, kind := .flag aliases type fallback }

/-- What stands between brackets names parameters that can be read. -/
structure ElementBody.IsReadable (b : ElementBody) : Prop where
  names : Lacks [':', '='] b.names
  type : ∀ t ∈ b.type, t.IsReadable
  fallback : ∀ f ∈ b.fallback, f.IsReadable

/-! ## Reading yields readable parameters -/

theorem ElementBody.isReadable_of_ofList? {angled : Bool} {body : List Char} {b : ElementBody}
    (h : ofList? angled body = some b) (hbody : Lacks [] body) : b.IsReadable := by
  unfold ofList? at h
  split at h
  next head fallback hsplit =>
  have hparts : Lacks ['='] head ∧ ∀ f ∈ fallback, f.IsReadable := by
    split at hsplit
    · next before token heq =>
      obtain ⟨rfl, rfl⟩ := Prod.mk.inj hsplit
      obtain ⟨rfl, hmark⟩ := eq_of_cutAt_eq_some heq
      rw [lacks_append_iff, lacks_cons_iff] at hbody
      refine ⟨hbody.1.cons hmark, ?_⟩
      rintro f hf
      obtain rfl := Option.some.inj hf
      rw [Fallback.IsReadable, String.toList_ofList]
      exact hbody.2.2
    · next heq =>
      obtain ⟨rfl, rfl⟩ := Prod.mk.inj hsplit
      exact ⟨hbody.cons (cutAt_eq_none_iff.1 heq), by simp⟩
  obtain ⟨hhead, hfallback⟩ := hparts
  split at h
  · next heq =>
    obtain rfl := Option.some.inj h
    exact ⟨hhead.cons (cutAt_eq_none_iff.1 heq), by simp, hfallback⟩
  · next names text heq =>
    obtain ⟨rfl, hmark⟩ := eq_of_cutAt_eq_some heq
    rw [lacks_append_iff, lacks_cons_iff] at hhead
    obtain ⟨type, htype, rfl⟩ := Option.map_eq_some_iff.1 h
    refine ⟨hhead.1.cons hmark, ?_, hfallback⟩
    rintro t ht
    obtain rfl := Option.some.inj ht
    exact ValueType.isReadable_of_ofText? htype hhead.2.2

namespace ElementBody

variable {b : ElementBody} {p : Parameter}

theorem isReadable_of_flag? (hb : b.IsReadable) {names : List Char}
    (hnames : Lacks [':', '='] names) (h : b.flag? names = some p) : p.IsReadable := by
  unfold flag? at h
  split at h
  · cases h
  · next name aliases heq =>
    split at h
    · cases h
    · next hnonempty =>
      obtain rfl := Option.some.inj h
      simp only [Bool.or_eq_true, beq_iff_eq, not_or] at hnonempty
      refine .flag hnonempty.2 ?_ ?_ hb.type hb.fallback
      · rw [head?_of_unbarred heq hnonempty.2]
        intro hdash
        have hdropped := List.head?_dropWhile_not (· == '-') names
        rw [hdash] at hdropped
        simp at hdropped
      · intro word hword
        obtain ⟨hbar, hpart⟩ := forall_mem_unbarred (heq ▸ hword)
        exact (hnames.of_subset (List.Subset.trans hpart (List.dropWhile_subset _))).cons hbar

theorem isReadable_of_greedy? {name : List Char} (hname : Lacks [':', '='] name)
    (hundashed : name.head? ≠ some '-') (h : b.greedy? name = some p) : p.IsReadable := by
  unfold greedy? at h
  split at h
  · cases h
  · next hnonempty =>
    obtain rfl := Option.some.inj h
    simp only [Bool.or_eq_true, List.isEmpty_iff, not_or] at hnonempty
    exact .greedy (by simpa using hnonempty.1) (by simpa using hname) (by simpa using hundashed)

theorem isReadable_of_value? (hb : b.IsReadable) (hundashed : b.names.head? ≠ some '-')
    (hundotted : before? ['.', '.', '.'] b.names = none) (h : b.value? = some p) :
    p.IsReadable := by
  unfold value? at h
  split at h
  · cases h
  · next hplain =>
    simp only [Bool.or_eq_true, List.isEmpty_iff, List.contains_iff_mem, not_or] at hplain
    have hname : IsValueName (String.ofList b.names) := by
      refine ⟨by simpa using hplain.1, ?_, by simpa using hundashed, by simpa using hundotted⟩
      rw [String.toList_ofList]
      exact hb.names.cons hplain.2
    have htype : (b.type.getD .string).IsReadable := by
      cases htype : b.type with
      | none => exact ⟨by decide, by decide⟩
      | some type => exact hb.type type htype
    simp only at h
    split at h
    · split at h
      · cases h
      · obtain rfl := Option.some.inj h
        exact .required hname htype
    · obtain rfl := Option.some.inj h
      exact .optional hname htype hb.fallback

theorem IsReadable.of_parameter? (hb : b.IsReadable) (h : b.parameter? = some p) :
    p.IsReadable := by
  unfold parameter? at h
  split at h
  · next names heq =>
    have hnames : Lacks [':', '='] names :=
      hb.names.of_subset (heq ▸ List.subset_cons_self '-' names)
    exact isReadable_of_flag? hb hnames h
  · next hdash =>
    have hundashed : b.names.head? ≠ some '-' := by
      intro hhead
      obtain ⟨names, heq⟩ := List.head?_eq_some_iff.1 hhead
      exact hdash names heq
    split at h
    · next name heq =>
      rw [before?_eq_some_iff] at heq
      have hname : Lacks [':', '='] name := by
        have hnames := hb.names
        rw [heq, lacks_append_iff] at hnames
        exact hnames.1
      refine isReadable_of_greedy? hname ?_ h
      intro hhead
      rw [heq, List.head?_append, hhead] at hundashed
      exact hundashed rfl
    · next heq => exact isReadable_of_value? hb hundashed heq h

end ElementBody

theorem Parameter.isReadable_of_literal? {element : List Char} {p : Parameter}
    (helement : Lacks [] element) (hbare : element.head? ≠ some '<' ∧ element.head? ≠ some '[')
    (h : literal? element = some p) : p.IsReadable := by
  unfold literal? at h
  split at h
  · cases h
  · next name aliases heq =>
    split at h
    · cases h
    · next hnonempty =>
      obtain rfl := Option.some.inj h
      rw [beq_iff_eq] at hnonempty
      refine .literal hnonempty ?_ ?_
      · rwa [head?_of_unbarred heq hnonempty]
      · intro word hword
        obtain ⟨hbar, hpart⟩ := forall_mem_unbarred (heq ▸ hword)
        exact (helement.of_subset hpart).cons hbar

/-- An element without blanks only describes readable parameters. -/
theorem Parameter.isReadable_of_ofElement? {element : String} {p : Parameter}
    (helement : Lacks [] element.toList) (h : ofElement? element = some p) : p.IsReadable := by
  have hbody : ∀ {angled : Bool} {mark : Char} {cs : List Char}, cs ⊆ element.toList →
      ((before? [mark] cs).bind fun body =>
        (ElementBody.ofList? angled body).bind ElementBody.parameter?) = some p →
      p.IsReadable := by
    intro angled mark cs hcs hread
    obtain ⟨body, hbefore, hread⟩ := Option.bind_eq_some_iff.1 hread
    obtain ⟨b, hb, hparameter⟩ := Option.bind_eq_some_iff.1 hread
    obtain rfl := before?_eq_some_iff.1 hbefore
    have hplain : Lacks [] body :=
      helement.of_subset (List.Subset.trans (List.subset_append_left body [mark]) hcs)
    exact (ElementBody.isReadable_of_ofList? hb hplain).of_parameter? hparameter
  unfold ofElement? at h
  split at h
  · next cs heq => exact hbody (heq ▸ List.subset_cons_self _ cs) h
  · next cs heq => exact hbody (heq ▸ List.subset_cons_self _ cs) h
  · next hangled hsquare =>
    refine isReadable_of_literal? helement ⟨?_, ?_⟩ h
    · intro hhead
      obtain ⟨cs, heq⟩ := List.head?_eq_some_iff.1 hhead
      exact hangled cs heq
    · intro hhead
      obtain ⟨cs, heq⟩ := List.head?_eq_some_iff.1 hhead
      exact hsquare cs heq

end Parlance
