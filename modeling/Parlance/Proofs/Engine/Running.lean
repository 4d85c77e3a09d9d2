import Parlance.Proofs.Engine.Preparing

/-!
# What a dispatch comes to

A dispatch is refused, or it matches nothing, or it runs the action of the usage that was
prepared, if there is one. `Engine.Comes` tells what happens in each case, and a dispatch
always comes to one of them (`Engine.dispatch_comes`). What is granted before an action
runs is told by `Engine.Grants`.
-/

set_option autoImplicit false

namespace Parlance

variable {Act : Type}

/-! ## Calls, runs and performances -/

/-- What the action of the invocation gets to see when the source runs it. -/
def Invocation.call (invocation : Invocation Act) (source : Source) : Call Act where
  source := source
  label := invocation.label
  path := invocation.path
  usage := invocation.usage
  arguments := invocation.arguments

/-- What a gate is asked about and told of when the call is made. -/
def Call.run (call : Call Act) : Run Act where
  source := call.source
  path := call.path
  usage := call.usage

/-- An action that ran, what it got to see and what it answered. -/
structure Performance (Act : Type) where
  act : Act
  call : Call Act
  answer : Except (List String) Unit

namespace Event

/-- The performance, where an action ran. -/
def performance? : Event Act → Option (Performance Act)
  | asked _ _ => none
  | performed act call answer => some ⟨act, call, answer⟩
  | recorded _ _ => none

/-- The run, where an action ran and succeeded. -/
def success? : Event Act → Option (Run Act)
  | asked _ _ => none
  | performed _ call (.ok ()) => some call.run
  | performed _ _ (.error _) => none
  | recorded _ _ => none

/-- The run that a gate was told of. -/
def told? : Event Act → Option (Run Act)
  | asked _ _ => none
  | performed _ _ _ => none
  | recorded _ run => some run

/-- A gate was asked; nothing ran. -/
def IsQuestion (event : Event Act) : Prop :=
  ∃ index run, event = asked index run

end Event

/-- A view that skips questions sees nothing where nothing but questions happened. -/
theorem filterMap_eq_nil_of_questions {α : Type} {view : Event Act → Option α}
    (hview : ∀ index run, view (.asked index run) = none) {events : List (Event Act)}
    (h : ∀ event ∈ events, event.IsQuestion) : events.filterMap view = [] := by
  rw [List.filterMap_eq_nil_iff]
  intro event hevent
  obtain ⟨index, run, rfl⟩ := h event hevent
  exact hview index run

/-- The answer of a dispatch that ends before any action is called: nothing matched, or
the dispatch was refused. -/
def EndsBeforeAction : Except DispatchError (Outcome Act) → Prop
  | .ok (.failure _) => True
  | .ok (.complete _) | .ok (.incomplete _) => False
  | .error (.unknownCommand _) | .error (.permissionDenied _) => True
  | .error (.onCooldown _) | .error (.resolution _) => True
  | .error (.actionFailed _ _) => False

namespace Engine

variable {engine : Engine Act} {source : Source} {label : String} {tokens : List String}
  {root : Node Act}

/-! ## Preparing -/

/-- What preparing asks and grants before it hands out an invocation. -/
structure Grants (engine : Engine Act) (source : Source) (label : String) (tokens : List String)
    (invocation : Invocation Act) : Prop where
  called : invocation.label = label
  gate : invocation.gate = engine.gateInForce?
  /-- The gate in force lets the source run what the invocation holds. -/
  free : engine.isHeldBack (invocation.call source).run = false
  /-- The usage is the one that the tokens select. -/
  selected : ∃ root, engine.command? label = some root ∧
    (engine.matcher.select root tokens).selection.usage? = some invocation.usage

theorem isQuestion_of_mem_allow {node : Node Act} {usage : Usage Act} {trailing : Trailing} :
    ∀ event ∈ (engine.allow source root node usage trailing label tokens).1, event.IsQuestion := by
  intro event hevent
  have hasked : ∀ run : Run Act, event ∈ engine.gateInForce?.toList.map (Event.asked · run) →
      event.IsQuestion := by
    intro run hmem
    obtain ⟨index, -, rfl⟩ := List.mem_map.1 hmem
    exact ⟨index, run, rfl⟩
  unfold allow at hevent
  split at hevent
  · cases hevent
  · simp only at hevent
    split at hevent
    · exact hasked _ hevent
    · split at hevent
      · exact hasked _ hevent
      · exact hasked _ hevent

/-- Preparing asks the gate at most, and runs nothing. -/
theorem isQuestion_of_mem_prepare :
    ∀ event ∈ (engine.prepare source label tokens).1, event.IsQuestion := by
  intro event hevent
  unfold prepare at hevent
  split at hevent
  · cases hevent
  · simp only at hevent
    split at hevent
    · cases hevent
    · exact isQuestion_of_mem_allow event hevent
    · exact isQuestion_of_mem_allow event hevent

theorem isQuestion_of_prepare_eq {events : List (Event Act)}
    {prepared : Except DispatchError (Outcome Act)}
    (h : engine.prepare source label tokens = (events, prepared)) :
    ∀ event ∈ events, event.IsQuestion := by
  intro event hevent
  apply isQuestion_of_mem_prepare
  rw [h]
  exact hevent

theorem endsBeforeAction_of_allow {node : Node Act} {usage : Usage Act} {trailing : Trailing}
    {error : DispatchError}
    (h : (engine.allow source root node usage trailing label tokens).2 = .error error) :
    EndsBeforeAction (.error error : Except DispatchError (Outcome Act)) := by
  unfold allow at h
  split at h
  · rw [← Except.error.inj h]
    trivial
  · simp only at h
    split at h
    · rw [← Except.error.inj h]
      trivial
    · split at h
      · rw [← Except.error.inj h]
        trivial
      · cases h

/-- No error of preparing is one of an action. -/
theorem endsBeforeAction_of_prepare {error : DispatchError}
    (h : (engine.prepare source label tokens).2 = .error error) :
    EndsBeforeAction (.error error : Except DispatchError (Outcome Act)) := by
  unfold prepare at h
  split at h
  · rw [← Except.error.inj h]
    trivial
  · simp only at h
    split at h
    · cases h
    · exact endsBeforeAction_of_allow (map_eq_error_iff.1 h)
    · exact endsBeforeAction_of_allow (map_eq_error_iff.1 h)

theorem eq_of_allow {node : Node Act} {usage : Usage Act} {trailing : Trailing}
    {invocation : Invocation Act}
    (h : (engine.allow source root node usage trailing label tokens).2 = .ok invocation) :
    invocation.label = label ∧ invocation.usage = usage ∧
      invocation.gate = engine.gateInForce? ∧
      engine.isHeldBack (invocation.call source).run = false := by
  unfold allow at h
  split at h
  · cases h
  · simp only at h
    split at h
    · cases h
    · next hfree =>
      split at h
      · cases h
      · obtain rfl := Except.ok.inj h
        exact ⟨rfl, rfl, rfl, Bool.eq_false_iff.2 hfree⟩

theorem grants_of_prepare {outcome : Outcome Act} {invocation : Invocation Act}
    (h : (engine.prepare source label tokens).2 = .ok outcome)
    (hinvocation : outcome.invocation? = some invocation) :
    engine.Grants source label tokens invocation := by
  obtain ⟨root, usage, hroot, husage, hallow⟩ := exists_allow_of_prepare h hinvocation
  obtain ⟨hlabel, rfl, hgate, hfree⟩ := eq_of_allow hallow
  exact ⟨hlabel, hgate, hfree, root, hroot, husage⟩

/-! ## Dispatching -/

/-- The engine after the gate of an invocation, if it has one, was told of a run. -/
def toldOf (engine : Engine Act) (gate : Option Nat) (run : Run Act) : Engine Act :=
  gate.elim engine fun index => engine.record index run

/-- All that can come of a dispatch. -/
inductive Comes (engine : Engine Act) (perform : Performer Act) (source : Source) (label : String)
    (tokens : List String) : Step Act (Outcome Act) → Prop where
  | refused {events : List (Event Act)} {error : DispatchError}
      (hprepare : engine.prepare source label tokens = (events, .error error)) :
      Comes engine perform source label tokens { engine, events, answer := .error error }
  | unmatched {events : List (Event Act)} {failure : Failure}
      (hprepare : engine.prepare source label tokens = (events, .ok (.failure failure))) :
      Comes engine perform source label tokens { engine, events, answer := .ok (.failure failure) }
  /-- The usage that was prepared has no action. -/
  | idle {events : List (Event Act)} {outcome : Outcome Act} {invocation : Invocation Act}
      (hprepare : engine.prepare source label tokens = (events, .ok outcome))
      (hinvocation : outcome.invocation? = some invocation)
      (haction : invocation.usage.action = none) :
      Comes engine perform source label tokens { engine, events, answer := .ok outcome }
  | failed {events : List (Event Act)} {outcome : Outcome Act} {invocation : Invocation Act}
      {act : Act} {causes : List String}
      (hprepare : engine.prepare source label tokens = (events, .ok outcome))
      (hinvocation : outcome.invocation? = some invocation)
      (haction : invocation.usage.action = some act)
      (hperform : perform act (invocation.call source) = .error causes) :
      Comes engine perform source label tokens {
        engine
        events := events ++ [.performed act (invocation.call source) (.error causes)]
        answer := .error (.actionFailed (" ".intercalate invocation.path) causes) }
  | succeeded {events : List (Event Act)} {outcome : Outcome Act} {invocation : Invocation Act}
      {act : Act}
      (hprepare : engine.prepare source label tokens = (events, .ok outcome))
      (hinvocation : outcome.invocation? = some invocation)
      (haction : invocation.usage.action = some act)
      (hperform : perform act (invocation.call source) = .ok ()) :
      Comes engine perform source label tokens {
        engine := engine.toldOf invocation.gate (invocation.call source).run
        events := events ++ .performed act (invocation.call source) (.ok ()) ::
          invocation.gate.toList.map (Event.recorded · (invocation.call source).run)
        answer := .ok outcome }

/-- A dispatch comes to one of these. -/
theorem dispatch_comes (engine : Engine Act) (perform : Performer Act) (source : Source)
    (label : String) (tokens : List String) :
    engine.Comes perform source label tokens (engine.dispatch perform source label tokens) := by
  rcases hprepare : engine.prepare source label tokens with ⟨events, error | outcome⟩
  · rw [dispatch, hprepare]
    exact .refused hprepare
  · cases hinvocation : outcome.invocation? with
    | none =>
      cases outcome with
      | complete invocation => cases hinvocation
      | incomplete invocation => cases hinvocation
      | failure failure =>
        rw [dispatch, hprepare]
        exact .unmatched hprepare
    | some invocation =>
      simp only [dispatch, hprepare, hinvocation]
      cases haction : invocation.usage.action with
      | none =>
        rw [execute, haction, List.append_nil]
        exact .idle hprepare hinvocation haction
      | some act =>
        cases hperform : perform act (invocation.call source) with
        | error causes =>
          have hexecute : engine.execute perform invocation source = {
              engine
              events := [.performed act (invocation.call source) (.error causes)]
              answer := .error (.actionFailed (" ".intercalate invocation.path) causes) } := by
            rw [Invocation.call] at hperform
            simp only [execute, haction, hperform, Invocation.call]
          rw [hexecute]
          exact .failed hprepare hinvocation haction hperform
        | ok value =>
          have hexecute : engine.execute perform invocation source = {
              engine := engine.toldOf invocation.gate (invocation.call source).run
              events := .performed act (invocation.call source) (.ok ()) ::
                invocation.gate.toList.map (Event.recorded · (invocation.call source).run)
              answer := .ok () } := by
            rw [Invocation.call] at hperform
            simp only [execute, haction, hperform, Invocation.call]
            cases invocation.gate <;> rfl
          rw [hexecute]
          exact .succeeded hprepare hinvocation haction hperform

namespace Comes

variable {perform : Performer Act} {step : Step Act (Outcome Act)}

/-- A dispatch runs one action at most. -/
theorem length_performances_le (h : engine.Comes perform source label tokens step) :
    (step.events.filterMap Event.performance?).length ≤ 1 := by
  have hquestions : ∀ {events : List (Event Act)} {prepared : Except DispatchError (Outcome Act)},
      engine.prepare source label tokens = (events, prepared) →
      events.filterMap Event.performance? = [] := by
    intro events prepared hprepare
    exact filterMap_eq_nil_of_questions (fun _ _ => rfl) (isQuestion_of_prepare_eq hprepare)
  cases h with
  | refused hprepare => simp [hquestions hprepare]
  | unmatched hprepare => simp [hquestions hprepare]
  | idle hprepare hinvocation haction => simp [hquestions hprepare]
  | failed hprepare hinvocation haction hperform =>
    simp [hquestions hprepare, Event.performance?]
  | @succeeded events outcome invocation act hprepare hinvocation haction hperform =>
    rw [List.filterMap_append, hquestions hprepare]
    cases invocation.gate <;> simp [Event.performance?]

/-- What ends before any action leaves the engine as it is, and nothing ran. -/
theorem of_endsBeforeAction (h : engine.Comes perform source label tokens step)
    (hends : EndsBeforeAction step.answer) :
    (∀ event ∈ step.events, event.IsQuestion) ∧ step.engine = engine := by
  have hnone : ∀ {outcome : Outcome Act} {invocation : Invocation Act},
      outcome.invocation? = some invocation → ¬ EndsBeforeAction (.ok outcome) := by
    intro outcome invocation hinvocation
    cases outcome with
    | complete _ => exact id
    | incomplete _ => exact id
    | failure _ => cases hinvocation
  cases h with
  | refused hprepare => exact ⟨isQuestion_of_prepare_eq hprepare, rfl⟩
  | unmatched hprepare => exact ⟨isQuestion_of_prepare_eq hprepare, rfl⟩
  | idle hprepare hinvocation haction => exact absurd hends (hnone hinvocation)
  | failed hprepare hinvocation haction hperform => exact hends.elim
  | succeeded hprepare hinvocation haction hperform => exact absurd hends (hnone hinvocation)

/-- An answer with an invocation was granted, and the action of its usage, if there is one,
ran with it and succeeded. -/
theorem of_ok (h : engine.Comes perform source label tokens step) {outcome : Outcome Act}
    {invocation : Invocation Act} (hanswer : step.answer = .ok outcome)
    (hinvocation : outcome.invocation? = some invocation) :
    engine.Grants source label tokens invocation ∧
      ∀ act, invocation.usage.action = some act →
        step.events.filterMap Event.performance? = [⟨act, invocation.call source, .ok ()⟩] := by
  cases h with
  | refused hprepare => cases hanswer
  | unmatched hprepare =>
    rw [← Except.ok.inj hanswer] at hinvocation
    cases hinvocation
  | idle hprepare hsome haction =>
    rw [Except.ok.inj hanswer] at hprepare hsome
    obtain rfl := Option.some.inj (hsome.symm.trans hinvocation)
    refine ⟨grants_of_prepare (by rw [hprepare]) hsome, ?_⟩
    intro act hsomeAction
    rw [haction] at hsomeAction
    cases hsomeAction
  | failed hprepare hsome haction hperform => cases hanswer
  | @succeeded events prepared run ran hprepare hsome haction hperform =>
    rw [Except.ok.inj hanswer] at hprepare hsome
    obtain rfl : run = invocation := Option.some.inj (hsome.symm.trans hinvocation)
    refine ⟨grants_of_prepare (by rw [hprepare]) hsome, ?_⟩
    intro act hact
    obtain rfl : ran = act := Option.some.inj (haction.symm.trans hact)
    have hquestions : events.filterMap Event.performance? = [] :=
      filterMap_eq_nil_of_questions (fun _ _ => rfl) (isQuestion_of_prepare_eq hprepare)
    rw [List.filterMap_append, hquestions]
    cases run.gate <;> rfl

/-- An action that fails ran, and nothing happened behind it. -/
theorem of_actionFailed (h : engine.Comes perform source label tokens step) {command : String}
    {causes : List String} (hfailed : step.answer = .error (.actionFailed command causes)) :
    ∃ events act invocation, (∀ event ∈ events, event.IsQuestion) ∧
      step.events = events ++ [.performed act (invocation.call source) (.error causes)] ∧
      engine.Grants source label tokens invocation ∧ invocation.usage.action = some act ∧
      command = " ".intercalate invocation.path := by
  cases h with
  | refused hprepare =>
    have hends := endsBeforeAction_of_prepare (by rw [hprepare])
    rw [Except.error.inj hfailed] at hends
    exact hends.elim
  | unmatched hprepare => cases hfailed
  | idle hprepare hinvocation haction => cases hfailed
  | @failed events outcome invocation act causes hprepare hinvocation haction hperform =>
    obtain ⟨rfl, rfl⟩ := DispatchError.actionFailed.inj (Except.error.inj hfailed)
    exact ⟨events, act, invocation, isQuestion_of_prepare_eq hprepare, rfl,
      grants_of_prepare (by rw [hprepare]) hinvocation, haction, rfl⟩
  | succeeded hprepare hinvocation haction hperform => cases hfailed

end Comes

end Engine

end Parlance
