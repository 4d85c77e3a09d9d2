import Parlance.Proofs.Command.Verification
import Parlance.Proofs.Element.Grammar
import Parlance.Proofs.Usage.RoundTrip

/-!
# The grammar of compact forms

A text is the compact form of a usage exactly if each of its words is an element of the
grammar; otherwise the first word that is none is the fault. Two compact forms with a space
between describe the parameters of the one and then of the other
(`Usage.ofCompact_iff_isElement`).
-/

set_option autoImplicit false

namespace Parlance.Usage

variable {Act : Type} {text : String}

/-! ## Elements in a row -/

theorem exists_readElements_iff {elements : List String} :
    (∃ ps, readElements elements = .ok ps) ↔ ∀ element ∈ elements, IsElement element.toList := by
  induction elements with
  | nil => simp [readElements]
  | cons element elements ih =>
    rw [List.forall_mem_cons, ← ih, ← Parameter.isSome_ofElement?_iff, readElements]
    cases Parameter.ofElement? element with
    | none => simp
    | some p => cases readElements elements <;> simp [Except.map]

/-- Reading stops at the first word that is no element. -/
theorem readElements_eq_error_iff {elements : List String} {e : RegistrationError} :
    readElements elements = .error e ↔ ∃ front element back,
      elements = front ++ element :: back ∧ (∀ word ∈ front, IsElement word.toList) ∧
        ¬ IsElement element.toList ∧ e = .invalidElement element := by
  induction elements with
  | nil => simp [readElements]
  | cons first elements ih =>
    rw [readElements]
    cases hfirst : Parameter.ofElement? first with
    | none =>
      have hmalformed : ¬ IsElement first.toList := by
        rw [← Parameter.isSome_ofElement?_iff, hfirst]
        exact Bool.false_ne_true
      constructor
      · intro h
        obtain rfl := Except.error.inj h
        exact ⟨[], first, elements, rfl, by simp, hmalformed, rfl⟩
      · rintro ⟨front, element, back, heq, hfront, -, rfl⟩
        cases front with
        | nil => rw [(List.cons.inj heq).1]
        | cons word front =>
          obtain ⟨rfl, -⟩ := List.cons.inj heq
          exact absurd (hfront first List.mem_cons_self) hmalformed
    | some p =>
      have hwell : IsElement first.toList := by
        rw [← Parameter.isSome_ofElement?_iff, hfirst]
        rfl
      simp only [map_eq_error_iff]
      rw [ih]
      constructor
      · rintro ⟨front, element, back, rfl, hfront, hmalformed, rfl⟩
        exact ⟨first :: front, element, back, rfl, List.forall_mem_cons.2 ⟨hwell, hfront⟩,
          hmalformed, rfl⟩
      · rintro ⟨front, element, back, heq, hfront, hmalformed, rfl⟩
        cases front with
        | nil =>
          obtain ⟨rfl, -⟩ := List.cons.inj heq
          exact absurd hwell hmalformed
        | cons word front =>
          rw [List.forall_mem_cons] at hfront
          exact ⟨front, element, back, (List.cons.inj heq).2, hfront.2, hmalformed, rfl⟩

theorem readElements_append_eq_ok_iff {front back : List String} {ps : List Parameter} :
    readElements (front ++ back) = .ok ps ↔ ∃ qs rs, readElements front = .ok qs ∧
      readElements back = .ok rs ∧ ps = qs ++ rs := by
  simp only [readElements_eq_ok_iff, List.map_append]
  constructor
  · intro h
    obtain ⟨qs, rs, rfl, hqs, hrs⟩ := List.map_eq_append_iff.1 h.symm
    exact ⟨qs, rs, hqs.symm, hrs.symm, rfl⟩
  · rintro ⟨qs, rs, hqs, hrs, rfl⟩
    rw [hqs, hrs, List.map_append]

/-! ## Compact forms -/

theorem ofCompact_eq_error_iff {e : RegistrationError} :
    (ofCompact text : Except RegistrationError (Usage Act)) = .error e ↔
      readElements (Text.words text) = .error e :=
  map_eq_error_iff

/-- The parameters of two rows are numbered as if they had not been before. -/
theorem ofParameters_append (front back : List Parameter) :
    (ofParameters ((ofParameters front : Usage Act).parameters ++
        (ofParameters back : Usage Act).parameters) : Usage Act) =
      ofParameters (front ++ back) := by
  have hsame : numberFrom 0 (numberFrom 0 front ++ numberFrom 0 back) =
      numberFrom 0 (front ++ back) := by
    apply numberFrom_congr
    rw [List.map_append, List.map_append, map_numberFrom fun _ _ => rfl,
      map_numberFrom fun _ _ => rfl]
  rw [ofParameters, ofParameters, ofParameters, ofParameters, hsame]

/-- A text describes a usage exactly if all of its words are elements, and otherwise the first
that is none is the fault; and two texts with a space between describe a usage exactly if both
do, with the parameters of the one and then of the other. -/
theorem ofCompact_iff_isElement (text : String) :
    ((∃ usage : Usage Act, ofCompact text = .ok usage) ↔
      ∀ element ∈ Text.words text, IsElement element.toList) ∧
    (∀ e, (ofCompact text : Except RegistrationError (Usage Act)) = .error e ↔
      ∃ front element back, Text.words text = front ++ element :: back ∧
        (∀ word ∈ front, IsElement word.toList) ∧ ¬ IsElement element.toList ∧
        e = .invalidElement element) ∧
    ∀ (more : String) (usage : Usage Act), ofCompact (text ++ " " ++ more) = .ok usage ↔
      ∃ front back : Usage Act, ofCompact text = .ok front ∧ ofCompact more = .ok back ∧
        usage = ofParameters (front.parameters ++ back.parameters) := by
  refine ⟨?accepted, ?refused, ?joined⟩
  case accepted =>
    rw [← exists_readElements_iff]
    constructor
    · rintro ⟨usage, h⟩
      obtain ⟨ps, hread, -⟩ := ofCompact_eq_ok_iff.1 h
      exact ⟨ps, hread⟩
    · rintro ⟨ps, hread⟩
      exact ⟨ofParameters ps, ofCompact_eq_ok_iff.2 ⟨ps, hread, rfl⟩⟩
  case refused => exact fun e => ofCompact_eq_error_iff.trans readElements_eq_error_iff
  case joined =>
    intro more usage
    simp only [ofCompact_eq_ok_iff, Text.words_append_space, readElements_append_eq_ok_iff]
    constructor
    · rintro ⟨ps, ⟨qs, rs, hfront, hback, rfl⟩, rfl⟩
      exact ⟨_, _, ⟨qs, hfront, rfl⟩, ⟨rs, hback, rfl⟩, (ofParameters_append qs rs).symm⟩
    · rintro ⟨_, _, ⟨qs, hfront, rfl⟩, ⟨rs, hback, rfl⟩, rfl⟩
      exact ⟨qs ++ rs, ⟨qs, rs, hfront, hback, rfl⟩, ofParameters_append qs rs⟩

/-- Of two malformed words the first is the fault, and a form in two halves has the parameters
of both. -/
theorem ofCompact_iff_isElement_selling :
    ∃ front back usage : Usage Unit,
      (ofCompact "sell [count=1] [a|b] <item:>" : Except RegistrationError (Usage Unit)) =
        .error (.invalidElement "[a|b]") ∧
      ¬ IsElement "[a|b]".toList ∧
      ofCompact "sell|s [--all|a]" = .ok front ∧ ofCompact "<item:Ware> [why...=none]" = .ok back ∧
      ofCompact "sell|s [--all|a] <item:Ware> [why...=none]" = .ok usage ∧
      usage = ofParameters (front.parameters ++ back.parameters) ∧
      usage.parameters.map Parameter.position = [some 0, none, some 1, some 2] ∧
      IsElement "[--all|a]".toList := by
  obtain ⟨-, hrefused, -⟩ :=
    @ofCompact_iff_isElement Unit "sell [count=1] [a|b] <item:>"
  obtain ⟨-, element, -, -, -, hmalformed, hfault⟩ :=
    (hrefused (.invalidElement "[a|b]")).1 rfl
  obtain rfl := RegistrationError.invalidElement.inj hfault
  obtain ⟨haccepted, -, hjoined⟩ := @ofCompact_iff_isElement Unit "sell|s [--all|a]"
  obtain ⟨usage, husage, hpositions⟩ : ∃ usage : Usage Unit,
      ofCompact "sell|s [--all|a] <item:Ware> [why...=none]" = .ok usage ∧
      usage.parameters.map Parameter.position = [some 0, none, some 1, some 2] :=
    ⟨_, rfl, rfl⟩
  obtain ⟨front, back, hfront, hback, hparts⟩ := (hjoined "<item:Ware> [why...=none]" usage).1 husage
  exact ⟨front, back, usage, rfl, hmalformed, hfront, hback, husage, hparts, hpositions,
    haccepted.1 ⟨front, hfront⟩ "[--all|a]" (by decide)⟩

end Parlance.Usage
