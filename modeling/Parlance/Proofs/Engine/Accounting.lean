import Parlance.Proofs.Engine.Running

/-!
# What a gate is told over a whole session

A session is a row of dispatches by whatever sources, with whatever words. All along it a
gate is told of exactly the runs that succeeded, in their order, and so a gate that lets
each path pass a limited number of times is never told of more
(`Engine.session_accounts`).
-/

set_option autoImplicit false

namespace Parlance

variable {Act : Type}

/-! ## Limits -/

namespace GateBook

/-- How often a run of the path was recorded. -/
def count (book : GateBook Act) (path : List String) : Nat :=
  book.recorded.countP fun run => run.path = path

/-- No path was recorded more often than the limit. -/
def IsWithin (book : GateBook Act) (limit : Nat) : Prop :=
  ∀ path, book.count path ≤ limit

theorem count_record (book : GateBook Act) (run : Run Act) (path : List String) :
    (book.record run).count path = book.count path + if run.path = path then 1 else 0 := by
  simp [count, record, List.countP_append, List.countP_singleton]

end GateBook

/-- The gate holds a run back exactly if the runs of its path have reached the limit. -/
def Gate.Limits (gate : Gate Act) (limit : Nat) : Prop :=
  ∀ (recorded : List (Run Act)) (run : Run Act),
    gate.holdsBack recorded run = true ↔ limit ≤ recorded.countP fun past => past.path = run.path

/-- The gate that lets each path pass a limited number of times. -/
def Gate.limiting (limit : Nat) : Gate Act where
  holdsBack recorded run := limit ≤ recorded.countP fun past => past.path = run.path

theorem Gate.limits_limiting (limit : Nat) : (limiting limit : Gate Act).Limits limit :=
  fun _ _ => decide_eq_true_iff

/-- A run that is not held back may be recorded within the limit. -/
theorem GateBook.IsWithin.record {book : GateBook Act} {limit : Nat} (h : book.IsWithin limit)
    (hlimits : book.gate.Limits limit) {run : Run Act} (hfree : book.holdsBack run = false) :
    (book.record run).IsWithin limit := by
  have hbelow : book.count run.path < limit := by
    rw [← Nat.not_le, count, ← hlimits, ← holdsBack, hfree]
    exact Bool.false_ne_true
  intro path
  have hpath := h path
  rw [count_record]
  split
  · next heq =>
    rw [heq] at hbelow
    omega
  · omega

/-! ## Gates of an engine -/

namespace Engine

variable {engine : Engine Act} {book : GateBook Act} {limit : Nat}

theorem gateInForce?_of_getLast? (h : engine.gates.getLast? = some book) :
    ∃ index, engine.gateInForce? = some index ∧ index + 1 = engine.gates.length := by
  unfold gateInForce?
  cases hlength : engine.gates.length with
  | zero =>
    rw [List.eq_nil_of_length_eq_zero hlength] at h
    cases h
  | succ index => exact ⟨index, rfl, rfl⟩

/-- What the gate in force is told of goes into its own book. -/
theorem getLast?_toldOf (h : engine.gates.getLast? = some book) (run : Run Act) :
    (engine.toldOf engine.gateInForce? run).gates.getLast? = some (book.record run) := by
  obtain ⟨index, hindex, hlength⟩ := gateInForce?_of_getLast? h
  have hlast : engine.gates.length - 1 = index := by omega
  rw [List.getLast?_eq_getElem?, hlast] at h
  rw [hindex, toldOf, Option.elim_some, record, recordAt, List.getLast?_eq_getElem?,
    List.length_modify, hlast, List.getElem?_modify_eq, h]
  rfl

/-! ## One dispatch -/

/-- An engine whose gate in force has the book `book`, after the events that led there
from an engine with the book `before`. The gate was told of the runs that succeeded, in
their order, and of nothing else, and it kept its limit. -/
structure Accounts (before : GateBook Act) (limit : Nat) (events : List (Event Act))
    (engine : Engine Act) (book : GateBook Act) : Prop where
  told : events.filterMap Event.told? = events.filterMap Event.success?
  inForce : engine.gates.getLast? = some book
  gate : book.gate = before.gate
  recorded : book.recorded = before.recorded ++ events.filterMap Event.success?
  within : book.IsWithin limit

/-- Where nothing succeeds and nothing is told, the book is the old one. -/
theorem Accounts.unchanged {events : List (Event Act)}
    (htold : events.filterMap Event.told? = []) (hsuccess : events.filterMap Event.success? = [])
    (hbook : engine.gates.getLast? = some book) (hwithin : book.IsWithin limit) :
    Accounts book limit events engine book where
  told := htold.trans hsuccess.symm
  inForce := hbook
  gate := rfl
  recorded := by rw [hsuccess, List.append_nil]
  within := hwithin

theorem Accounts.trans {before middle : GateBook Act} {front back : List (Event Act)}
    {passed : Engine Act} (hfront : Accounts before limit front passed middle)
    (hback : Accounts middle limit back engine book) :
    Accounts before limit (front ++ back) engine book where
  told := by rw [List.filterMap_append, List.filterMap_append, hfront.told, hback.told]
  inForce := hback.inForce
  gate := hback.gate.trans hfront.gate
  recorded := by rw [hback.recorded, hfront.recorded, List.filterMap_append, List.append_assoc]
  within := hback.within

/-- A dispatch tells the gate in force of a run exactly if it succeeded, and never beyond
the limit. -/
theorem Comes.accounts {perform : Performer Act} {source : Source} {label : String}
    {tokens : List String} {step : Step Act (Outcome Act)}
    (hcomes : engine.Comes perform source label tokens step)
    (hbook : engine.gates.getLast? = some book) (hlimits : book.gate.Limits limit)
    (hwithin : book.IsWithin limit) :
    ∃ next, Accounts book limit step.events step.engine next := by
  have hquiet : ∀ {events : List (Event Act)}, (∀ event ∈ events, event.IsQuestion) →
      Accounts book limit events engine book := by
    intro events hquestions
    exact .unchanged (filterMap_eq_nil_of_questions (fun _ _ => rfl) hquestions)
      (filterMap_eq_nil_of_questions (fun _ _ => rfl) hquestions) hbook hwithin
  cases hcomes with
  | refused hprepare => exact ⟨book, hquiet (isQuestion_of_prepare_eq hprepare)⟩
  | unmatched hprepare => exact ⟨book, hquiet (isQuestion_of_prepare_eq hprepare)⟩
  | idle hprepare hinvocation haction => exact ⟨book, hquiet (isQuestion_of_prepare_eq hprepare)⟩
  | @failed events outcome invocation act causes hprepare hinvocation haction hperform =>
    have hran : Accounts book limit [.performed act (invocation.call source) (.error causes)]
        engine book := .unchanged rfl rfl hbook hwithin
    exact ⟨book, (hquiet (isQuestion_of_prepare_eq hprepare)).trans hran⟩
  | @succeeded events outcome invocation act hprepare hinvocation haction hperform =>
    have hgrants := grants_of_prepare (by rw [hprepare]) hinvocation
    obtain ⟨index, hindex, -⟩ := gateInForce?_of_getLast? hbook
    have hfree : book.holdsBack (invocation.call source).run = false := by
      have hheld := hgrants.free
      rwa [isHeldBack, hbook, Option.any_some] at hheld
    have hasked : Accounts book limit events engine book :=
      hquiet (isQuestion_of_prepare_eq hprepare)
    refine ⟨book.record (invocation.call source).run, hasked.trans ?_⟩
    simp only [hgrants.gate]
    exact {
      told := by rw [hindex]; rfl
      inForce := getLast?_toldOf hbook _
      gate := rfl
      recorded := by rw [hindex]; rfl
      within := hwithin.record hlimits hfree }

end Engine

/-! ## Sessions -/

/-- One dispatch of a session: who says what, and how the host performs actions then. -/
structure Turn (Act : Type) where
  source : Source
  label : String
  tokens : List String
  perform : Performer Act

namespace Engine

variable {engine : Engine Act} {book : GateBook Act} {limit : Nat}

/-- What the engine makes of a turn. -/
def take (engine : Engine Act) (turn : Turn Act) : Step Act (Outcome Act) :=
  engine.dispatch turn.perform turn.source turn.label turn.tokens

/-- The steps of a session, each from the engine that the step before has left. -/
def session (engine : Engine Act) : List (Turn Act) → List (Step Act (Outcome Act))
  | [] => []
  | turn :: turns => engine.take turn :: (engine.take turn).engine.session turns

/-- The engine that a session leaves. -/
def afterSession (engine : Engine Act) (turns : List (Turn Act)) : Engine Act :=
  turns.foldl (fun engine turn => (engine.take turn).engine) engine

/-- Everything that happens during a session. -/
def sessionEvents (engine : Engine Act) (turns : List (Turn Act)) : List (Event Act) :=
  (engine.session turns).flatMap Step.events

theorem exists_comes_of_mem_session {turns : List (Turn Act)} {step : Step Act (Outcome Act)}
    (h : step ∈ engine.session turns) :
    ∃ (before : Engine Act) (perform : Performer Act) (source : Source) (label : String)
      (tokens : List String), before.Comes perform source label tokens step := by
  induction turns generalizing engine with
  | nil => cases h
  | cons turn turns ih =>
    rcases List.mem_cons.1 h with rfl | h
    · exact ⟨engine, _, _, _, _, engine.dispatch_comes _ _ _ _⟩
    · exact ih h

/-- Turn by turn the gate in force is told of what succeeds, and keeps its limit. -/
theorem exists_accounts_session (hbook : engine.gates.getLast? = some book)
    (hlimits : book.gate.Limits limit) (hwithin : book.IsWithin limit) (turns : List (Turn Act)) :
    ∃ next, Accounts book limit (engine.sessionEvents turns) (engine.afterSession turns) next := by
  induction turns generalizing engine book with
  | nil => exact ⟨book, .unchanged rfl rfl hbook hwithin⟩
  | cons turn turns ih =>
    obtain ⟨middle, hstep⟩ := (engine.dispatch_comes turn.perform turn.source turn.label
      turn.tokens).accounts hbook hlimits hwithin
    have hlimitsNext : middle.gate.Limits limit := by
      rw [hstep.gate]
      exact hlimits
    obtain ⟨next, hrest⟩ := ih hstep.inForce hlimitsNext hstep.within
    exact ⟨next, hstep.trans hrest⟩

/-- However the commands of an engine came to be registered: if the gate in force holds a
run back exactly from the time on when it was told of `limit` runs of its path, then over a
whole session, whoever says what in it, the gate is told of the runs of actions that
succeeded, in their order, and of no others, and of no path more often than `limit` times.
No dispatch runs more than one action, one that matches nothing or is refused runs none and
tells the gate of none, and neither does one whose action fails. -/
theorem session_accounts {gate : Gate Act} (hgate : engine.gates.getLast? = some { gate })
    (hlimits : gate.Limits limit) (turns : List (Turn Act)) :
    (∃ book, (engine.afterSession turns).gates.getLast? = some book ∧
      book.recorded = (engine.sessionEvents turns).filterMap Event.success? ∧
      book.recorded = (engine.sessionEvents turns).filterMap Event.told? ∧
      ∀ path, ((engine.sessionEvents turns).filterMap Event.success?).countP
          (fun run => run.path = path) = book.count path ∧ book.count path ≤ limit) ∧
    ∀ step ∈ engine.session turns,
      (step.events.filterMap Event.performance?).length ≤ 1 ∧
      (EndsBeforeAction step.answer → step.events.filterMap Event.performance? = [] ∧
        step.events.filterMap Event.told? = []) ∧
      ∀ command causes, step.answer = .error (.actionFailed command causes) →
        step.events.filterMap Event.told? = [] := by
  constructor
  · have hwithin : GateBook.IsWithin { gate } limit := fun path => Nat.zero_le limit
    obtain ⟨book, haccounts⟩ := exists_accounts_session hgate hlimits hwithin turns
    have hrecorded : book.recorded = (engine.sessionEvents turns).filterMap Event.success? :=
      haccounts.recorded
    refine ⟨book, haccounts.inForce, hrecorded, hrecorded.trans haccounts.told.symm, ?_⟩
    intro path
    rw [← hrecorded]
    exact ⟨rfl, haccounts.within path⟩
  · intro step hstep
    obtain ⟨before, perform, source, label, tokens, hcomes⟩ := exists_comes_of_mem_session hstep
    refine ⟨hcomes.length_performances_le, ?_, ?_⟩
    · intro hends
      obtain ⟨hquestions, -⟩ := hcomes.of_endsBeforeAction hends
      exact ⟨filterMap_eq_nil_of_questions (fun _ _ => rfl) hquestions,
        filterMap_eq_nil_of_questions (fun _ _ => rfl) hquestions⟩
    · intro command causes hfailed
      obtain ⟨events, act, invocation, hquestions, hevents, -⟩ := hcomes.of_actionFailed hfailed
      rw [hevents, List.filterMap_append,
        filterMap_eq_nil_of_questions (fun _ _ => rfl) hquestions]
      rfl

/-- A bell that is rung a number of times. -/
def ringing : Command Unit where
  name := "bell"
  aliases := ["b"]
  usages := [{
    parameters := [{ name := "times", kind := .required .integer }]
    action := some () }]

/-- Rung by its name and by its alias, once in words that are no number, and once too
often. -/
def ringingTurns : List (Turn Unit) :=
  let perform : Performer Unit := fun _ _ => .ok ()
  [⟨.console, "bell", ["3"], perform⟩, ⟨.unrestricted "ann", "bell", ["thrice"], perform⟩,
    ⟨.unrestricted "ann", "B", ["1"], perform⟩, ⟨.unrestricted "bob", "bell", ["1"], perform⟩]

/-- Twice it rings, and the gate was told of two runs. -/
theorem session_accounts_ringing :
    let engine : Engine Unit := { commands := [ringing.link], gates := [{ gate := .limiting 2 }] }
    (engine.session ringingTurns).map (fun step => step.events.filterMap Event.performance?
      |>.length) = [1, 0, 1, 0] ∧
    ∃ book, (engine.afterSession ringingTurns).gates.getLast? = some book ∧
      book.count ["bell"] = 2 := by
  intro engine
  have hgate : engine.gates.getLast? = some { gate := .limiting 2 } := rfl
  obtain ⟨⟨book, hbook, -, -, hcount⟩, -⟩ :=
    session_accounts hgate (Gate.limits_limiting 2) ringingTurns
  refine ⟨by decide, book, hbook, ?_⟩
  rw [← (hcount ["bell"]).1]
  decide

end Engine

end Parlance
