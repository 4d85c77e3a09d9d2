import Parlance.Proofs.Engine.Reached
import Parlance.Proofs.Resolution.Agreement

/-!
# What preparing comes to

Preparing selects a usage and hands it to `Engine.allow`; its answer is told from
the selection here once, and so is the answer of a whole dispatch. The main
statement is that an engine in use never reports words that are missing,
superfluous or unexpected for a usage that it has itself selected.
-/

set_option autoImplicit false

namespace Parlance

variable {Act : Type}

/-- The outcome of an invocation, told by the selection that it comes from. -/
def Selection.outcome (selection : Selection Act) (invocation : Invocation Act) : Outcome Act :=
  match selection with
  | incomplete _ => .incomplete invocation
  | complete _ _ | failure _ => .complete invocation

@[simp] theorem Selection.invocation?_outcome (selection : Selection Act)
    (invocation : Invocation Act) :
    (selection.outcome invocation).invocation? = some invocation := by
  cases selection <;> rfl

namespace Engine

variable {engine : Engine Act} {source : Source} {label : String} {tokens : List String}
  {root : Node Act}

/-! ## Preparing -/

/-- Preparing a label whose tokens select a usage is allowing that usage. -/
theorem prepare_of_usage? {usage : Usage Act} (hroot : engine.command? label = some root)
    (husage : (engine.matcher.select root tokens).selection.usage? = some usage) :
    let selection := (engine.matcher.select root tokens).selection
    let allowed := engine.allow source root selection.node usage selection.trailing label tokens
    engine.prepare source label tokens = (allowed.1, allowed.2.map selection.outcome) := by
  intro selection allowed
  unfold prepare
  rw [hroot]
  simp only
  split
  · next heq => simp [heq, Selection.usage?] at husage
  · next node selected heq =>
    have hselected : selected = usage := by simpa [heq, Selection.usage?] using husage
    simp only [allowed, selection, heq, hselected]
    rfl
  · next node heq =>
    have hdefault : node.effectiveDefault = usage := by
      simpa [heq, Selection.usage?] using husage
    simp only [allowed, selection, heq, hdefault]
    rfl

/-- Preparing answers something other than a failure only for a label that is
known and tokens that select a usage. -/
theorem exists_usage?_of_prepare {answer : Except DispatchError (Outcome Act)}
    (h : (engine.prepare source label tokens).2 = answer)
    (hknown : answer ≠ .error (.unknownCommand label))
    (hmatched : ∀ failure, answer ≠ .ok (.failure failure)) :
    ∃ root usage, engine.command? label = some root ∧
      (engine.matcher.select root tokens).selection.usage? = some usage := by
  cases hroot : engine.command? label with
  | none =>
    simp only [prepare, hroot] at h
    exact absurd h.symm hknown
  | some root =>
    cases husage : (engine.matcher.select root tokens).selection.usage? with
    | some usage => exact ⟨root, usage, rfl, husage⟩
    | none =>
      simp only [prepare, hroot] at h
      split at h
      · exact absurd h.symm (hmatched _)
      · next heq => simp [heq, Selection.usage?] at husage
      · next heq => simp [heq, Selection.usage?] at husage

/-- What is prepared to run is what was allowed for the selected usage. -/
theorem exists_allow_of_prepare {outcome : Outcome Act} {invocation : Invocation Act}
    (h : (engine.prepare source label tokens).2 = .ok outcome)
    (hinvocation : outcome.invocation? = some invocation) :
    ∃ root usage, engine.command? label = some root ∧
      (engine.matcher.select root tokens).selection.usage? = some usage ∧
      (engine.allow source root (engine.matcher.select root tokens).selection.node usage
        (engine.matcher.select root tokens).selection.trailing label tokens).2 =
          .ok invocation := by
  have hmatched : ∀ failure, (.ok outcome : Except DispatchError (Outcome Act)) ≠
      .ok (.failure failure) := by
    intro failure heq
    rw [Except.ok.inj heq] at hinvocation
    cases hinvocation
  obtain ⟨root, usage, hroot, husage⟩ := exists_usage?_of_prepare h (by simp) hmatched
  rw [prepare_of_usage? hroot husage] at h
  obtain ⟨allowed, hallow, houtcome⟩ := map_eq_ok_iff.1 h
  rw [← houtcome, Selection.invocation?_outcome, Option.some.injEq] at hinvocation
  exact ⟨root, usage, hroot, husage, hinvocation ▸ hallow⟩

/-- An error of resolution comes from resolving the usage. -/
theorem resolve_error_of_allow {node : Node Act} {usage : Usage Act} {trailing : Trailing}
    {e : ResolutionError}
    (h : (engine.allow source root node usage trailing label tokens).2 = .error (.resolution e)) :
    engine.matcher.resolve source node usage tokens trailing = .error e := by
  unfold allow at h
  split at h
  · cases h
  · simp only at h
    split at h
    · cases h
    · split at h
      · next heq => simp only [Except.error.injEq, DispatchError.resolution.injEq] at h
                    exact h ▸ heq
      · cases h

/-! ## Dispatching -/

/-- An invocation that is run fails only with its action. -/
theorem execute_ne_resolution {perform : Performer Act} {invocation : Invocation Act}
    {e : ResolutionError} :
    (engine.execute perform invocation source).answer ≠ .error (.resolution e) := by
  unfold execute
  split
  · simp
  · simp only
    split
    · simp
    · split <;> simp

/-- A dispatch has an error of resolution only from preparing. -/
theorem prepare_error_of_dispatch {perform : Performer Act} {e : ResolutionError}
    (h : (engine.dispatch perform source label tokens).answer = .error (.resolution e)) :
    (engine.prepare source label tokens).2 = .error (.resolution e) := by
  unfold dispatch at h
  cases hprepared : (engine.prepare source label tokens).2 with
  | error error =>
    simp only [hprepared] at h
    exact h
  | ok outcome =>
    simp only [hprepared] at h
    split at h
    · cases h
    · exact absurd (map_eq_error_iff.1 h) execute_ne_resolution

/-! ## Agreement -/

/-- A usage that an engine in use selects resolves, unless a value is missing. -/
theorem Reached.isOfValue_of_resolve_error (h : engine.Reached) {usage : Usage Act}
    {e : ResolutionError} (hroot : engine.command? label = some root)
    (husage : (engine.matcher.select root tokens).selection.usage? = some usage)
    (herror : engine.matcher.resolve source (engine.matcher.select root tokens).selection.node
      usage tokens (engine.matcher.select root tokens).selection.trailing = .error e) :
    e.IsOfValue := by
  obtain ⟨command, -, hlinked⟩ := h.exists_verified hroot
  have hlead : root.lead = [] := by rw [hlinked, Command.link, Command.lead_linkUnder]
  exact Matcher.isOfValue_of_resolve_select_error (h.isSoundTree hroot) hlead husage herror

theorem Reached.isOfValue_of_prepare_error (h : engine.Reached) {e : ResolutionError}
    (herror : (engine.prepare source label tokens).2 = .error (.resolution e)) :
    e.IsOfValue := by
  obtain ⟨root, usage, hroot, husage⟩ := exists_usage?_of_prepare herror (by simp) (by simp)
  rw [prepare_of_usage? hroot husage, map_eq_error_iff] at herror
  exact h.isOfValue_of_resolve_error hroot husage (resolve_error_of_allow herror)

/-- Selection and resolution agree in every engine in use. Neither preparing nor
dispatching reports words that are missing, superfluous or unexpected, and a
usage that is selected on whatever way can fail to resolve only over a value. -/
theorem Reached.selection_resolves (h : engine.Reached) (source : Source) (label : String)
    (tokens : List String) :
    (∀ e, (engine.prepare source label tokens).2 = .error (.resolution e) → e.IsOfValue) ∧
    (∀ perform e, (engine.dispatch perform source label tokens).answer = .error (.resolution e) →
      e.IsOfValue) ∧
    ∀ root usage, engine.command? label = some root →
      (engine.matcher.select root tokens).selection.usage? = some usage →
      ∀ e, engine.matcher.resolve source (engine.matcher.select root tokens).selection.node
        usage tokens (engine.matcher.select root tokens).selection.trailing = .error e →
      e.IsOfValue := by
  refine ⟨?_, ?_, ?_⟩
  · intro e herror
    exact h.isOfValue_of_prepare_error herror
  · intro perform e herror
    exact h.isOfValue_of_prepare_error (prepare_error_of_dispatch herror)
  · intro root usage hroot husage e herror
    exact h.isOfValue_of_resolve_error hroot husage herror

/-- A command that takes a whole number. -/
def giving : Command Unit where
  name := "give"
  usages := [.ofParameters [{ name := "amount", kind := .required .integer }]]

/-- A token may have the shape of a whole number and yet be too great for one. -/
theorem Reached.selection_resolves_giving :
    let engine : Engine Unit := { commands := [giving.link] }
    let error := ResolutionError.typeConversion "amount" "99999999999999999999" "integer"
    (engine.prepare .console "give" ["99999999999999999999"]).2 = .error (.resolution error) ∧
      error.IsOfValue := by
  have hregister : Engine.register {} giving = .ok { commands := [giving.link] } := rfl
  have hagree := Reached.selection_resolves (.register (.start {}) hregister) .console "give"
    ["99999999999999999999"]
  exact ⟨rfl, hagree.1 _ rfl⟩

end Engine

end Parlance
