import Mathlib.Data.List.Forall2
import Parlance.Proofs.Element.Writing
import Parlance.Proofs.Usage.Numbering

/-!
# The compact form reads back

A usage that is read from a compact form is written as elements that read back,
one by one. So its own compact form describes it again, and only fallbacks that
an element does not show are lost.
-/

set_option autoImplicit false

namespace Parlance

variable {Act : Type}

/-! ## Parameters -/

/-- The parameters differ in nothing but their fallbacks, and both or neither need a
token. -/
structure Parameter.IsAlike (p q : Parameter) : Prop where
  name : q.name = p.name
  claimedNames : q.claimedNames = p.claimedNames
  literalNames : q.literalNames = p.literalNames
  type : q.type? = p.type?
  position : q.position = p.position
  isLiteral : q.isLiteral = p.isLiteral
  isRequired : q.isRequired = p.isRequired
  isOptional : q.isOptional = p.isOptional
  isGreedy : q.isGreedy = p.isGreedy
  isFlag : q.isFlag = p.isFlag
  needsToken : q.needsToken = p.needsToken

theorem Parameter.isAlike_reread (p : Parameter) : p.IsAlike p.reread := by
  obtain ⟨name, kind, suggestions, suggester, bounds, position⟩ := p
  cases kind with
  | greedy fallback =>
    cases fallback <;> exact ⟨rfl, rfl, rfl, rfl, rfl, rfl, rfl, rfl, rfl, rfl, rfl⟩
  | flag aliases type fallback =>
    cases type <;> exact ⟨rfl, rfl, rfl, rfl, rfl, rfl, rfl, rfl, rfl, rfl, rfl⟩
  | _ => exact ⟨rfl, rfl, rfl, rfl, rfl, rfl, rfl, rfl, rfl, rfl, rfl⟩

theorem Parameter.element_reread (p : Parameter) : p.reread.element = p.element := by
  have hsuffix : ∀ fallback : Option Fallback,
      Fallback.suffix (Fallback.reread fallback) = Fallback.suffix fallback := by
    intro fallback
    unfold Fallback.reread
    split <;> rfl
  obtain ⟨name, kind, suggestions, suggester, bounds, position⟩ := p
  cases kind with
  | greedy fallback => cases fallback <;> rfl
  | optional type fallback => simp [reread, Kind.reread, element, hsuffix]
  | flag aliases type fallback => cases type <;> simp [reread, Kind.reread, element, hsuffix]
  | _ => rfl

/-! ## Usages -/

namespace Usage

theorem numberFrom_map_reread (next : Nat) (ps : List Parameter) :
    numberFrom next (ps.map Parameter.reread) = (numberFrom next ps).map Parameter.reread := by
  induction ps generalizing next with
  | nil => rfl
  | cons p ps ih =>
    rw [List.map_cons, numberFrom, numberFrom, p.isAlike_reread.isFlag]
    split
    · rw [List.map_cons, ih]
      rfl
    · rw [List.map_cons, ih]
      rfl

/-- The positional parameters of reread ones are the positional ones, reread. -/
theorem filter_map_reread (ps : List Parameter) :
    (ps.map Parameter.reread).filter (fun p => !p.isFlag) =
      (ps.filter fun p => !p.isFlag).map Parameter.reread := by
  have hflag : (fun p : Parameter => !p.isFlag) ∘ Parameter.reread = fun p => !p.isFlag := by
    funext p
    simp [p.isAlike_reread.isFlag]
  rw [List.filter_map, hflag]

theorem readElements_eq_ok_iff {elements : List String} {ps : List Parameter} :
    readElements elements = .ok ps ↔ elements.map Parameter.ofElement? = ps.map some := by
  induction elements generalizing ps with
  | nil => cases ps <;> simp [readElements]
  | cons element elements ih =>
    rw [readElements, List.map_cons]
    cases hread : Parameter.ofElement? element with
    | none => cases ps <;> simp
    | some p =>
      cases ps with
      | nil => cases hrest : readElements elements <;> simp [Except.map]
      | cons q qs =>
        rw [List.map_cons, List.cons.injEq, ← ih]
        cases hrest : readElements elements <;> simp [Except.map]

/-- Elements that read back describe their parameters again. -/
theorem readElements_map_element {ps : List Parameter} (h : ∀ p ∈ ps, p.ReadsBack) :
    readElements (ps.map Parameter.element) = .ok (ps.map Parameter.reread) := by
  rw [readElements_eq_ok_iff, List.map_map, List.map_map]
  exact List.map_congr_left fun p hp => (h p hp).read

/-- The parameters of a compact form read back. -/
theorem readsBack_of_readElements {text : String} {ps : List Parameter}
    (h : readElements (Text.words text) = .ok ps) : ∀ p ∈ ps, p.ReadsBack := by
  intro p hp
  have hmem : some p ∈ (Text.words text).map Parameter.ofElement? := by
    rw [readElements_eq_ok_iff.1 h]
    exact List.mem_map_of_mem hp
  obtain ⟨element, helement, hread⟩ := List.mem_map.1 hmem
  have hplain := (Text.forall_mem_words helement).2
  exact (Parameter.isReadable_of_ofElement? hplain hread).readsBack

theorem ofCompact_eq_ok_iff {text : String} {usage : Usage Act} :
    ofCompact text = .ok usage ↔
      ∃ ps, readElements (Text.words text) = .ok ps ∧ usage = ofParameters ps := by
  unfold ofCompact
  cases readElements (Text.words text) with
  | error e => simp [Except.map]
  | ok ps => simp [Except.map, eq_comm]

/-- The compact form of a usage joins the elements of its parameters, wherever they
stand. -/
theorem compact_ofParameters (ps : List Parameter) :
    (ofParameters ps : Usage Act).compact = " ".intercalate (ps.map Parameter.element) := by
  rw [compact, ofParameters, map_numberFrom fun _ _ => rfl]

/-- A usage that is read from a compact form is read from its own compact form as
well: parameter by parameter, and each as its element tells it. -/
theorem ofCompact_compact {text : String} {usage : Usage Act} (h : ofCompact text = .ok usage) :
    ∃ again : Usage Act, ofCompact usage.compact = .ok again ∧
      again.compact = usage.compact ∧
      again = { usage with parameters := usage.parameters.map Parameter.reread } ∧
      List.Forall₂ Parameter.IsAlike usage.parameters again.parameters ∧
      again.minLength = usage.minLength ∧ again.maxLength = usage.maxLength := by
  obtain ⟨ps, hread, rfl⟩ := ofCompact_eq_ok_iff.1 h
  have hback := readsBack_of_readElements hread
  have hwords : Text.words (ofParameters ps : Usage Act).compact = ps.map Parameter.element := by
    rw [compact_ofParameters]
    refine Text.words_intercalate ?_
    intro element helement
    obtain ⟨p, hp, rfl⟩ := List.mem_map.1 helement
    exact ⟨(hback p hp).nonempty, (hback p hp).plain⟩
  have hparameters : (ofParameters (ps.map Parameter.reread) : Usage Act).parameters =
      (ofParameters ps : Usage Act).parameters.map Parameter.reread :=
    numberFrom_map_reread 0 ps
  have hpositional : (ofParameters (ps.map Parameter.reread) : Usage Act).positional =
      (ofParameters ps : Usage Act).positional.map Parameter.reread := by
    rw [positional, hparameters]
    exact filter_map_reread _
  have hagain : (ofParameters (ps.map Parameter.reread) : Usage Act) =
      { (ofParameters ps : Usage Act) with
        parameters := (ofParameters ps : Usage Act).parameters.map Parameter.reread } := by
    rw [← hparameters]
    rfl
  refine ⟨ofParameters (ps.map Parameter.reread), ?_, ?_, hagain, ?_, ?_, ?_⟩
  · exact ofCompact_eq_ok_iff.2 ⟨_, hwords ▸ readElements_map_element hback, rfl⟩
  · rw [compact_ofParameters, compact_ofParameters, List.map_map]
    have helement : Parameter.element ∘ Parameter.reread = Parameter.element :=
      funext Parameter.element_reread
    rw [helement]
  · rw [hparameters, List.forall₂_map_right_iff, List.forall₂_same]
    intro p _
    exact p.isAlike_reread
  · have hrequired : Parameter.isRequired ∘ Parameter.reread = Parameter.isRequired :=
      funext fun p => p.isAlike_reread.isRequired
    rw [minLength, hpositional, List.countP_map, hrequired, minLength]
  · have hgreedy : Parameter.isGreedy ∘ Parameter.reread = Parameter.isGreedy :=
      funext fun p => p.isAlike_reread.isGreedy
    rw [maxLength, hpositional, List.any_map, hgreedy, List.length_map, maxLength]

/-- A choice loses its empty word, and fallbacks of all kinds are told differently. -/
theorem ofCompact_compact_add :
    ∃ usage again : Usage Unit,
      ofCompact " add|a <who> [n:INT=] [t:{x,,y}=x=1]  [--s|q=w] [why...=no]" = .ok usage ∧
      usage.compact = "add|a <who> [n:integer] [t:{x,y}=x=1] [-s|q] [why...]" ∧
      ofCompact usage.compact = .ok again ∧
      again = { usage with parameters := usage.parameters.map Parameter.reread } := by
  obtain ⟨usage, h, hcompact⟩ : ∃ usage : Usage Unit,
      ofCompact " add|a <who> [n:INT=] [t:{x,,y}=x=1]  [--s|q=w] [why...=no]" = .ok usage ∧
      usage.compact = "add|a <who> [n:integer] [t:{x,y}=x=1] [-s|q] [why...]" :=
    ⟨_, rfl, rfl⟩
  obtain ⟨again, hread, -, hagain, -⟩ := ofCompact_compact h
  exact ⟨usage, again, h, hcompact, hread, hagain⟩

end Usage

end Parlance
