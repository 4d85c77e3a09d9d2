import Parlance.Proofs.Completion.Advancing
import Parlance.Proofs.Selection.Finding
import Parlance.Proofs.Slot.Step

/-!
# Parameters that may come next

Behind some tokens a parameter is expected if a way to give them to parameters
leaves it within reach (`Matcher.Expects`). Selection gives tokens to parameters by
their number and completion by their looks, yet whatever selection serves with a
token was expected in front of it (`Matcher.expects_of_serves`).
-/

set_option autoImplicit false

namespace Parlance

variable {Act : Type}

/-- The parameter may take the token behind the given ones. -/
def Matcher.Expects (m : Matcher) (params : List Parameter) (tokens : List String)
    (p : Parameter) : Prop :=
  ∃ left, m.Consumes tokens params left ∧ p ∈ Completion.upcoming left

/-! ## Parameters within reach -/

namespace Completion

theorem mem_upcoming_self (p : Parameter) (ps : List Parameter) : p ∈ upcoming (p :: ps) := by
  unfold upcoming
  split <;> simp

theorem upcoming_of_optional {p : Parameter} (h : p.isOptional = true) (ps : List Parameter) :
    upcoming (p :: ps) = p :: upcoming ps := by
  rw [upcoming, if_pos h]

theorem upcoming_of_not_optional {p : Parameter} (h : p.isOptional = false)
    (ps : List Parameter) : upcoming (p :: ps) = [p] := by
  rw [upcoming, h, if_neg Bool.false_ne_true]

end Completion

/-! ## Parameters that must be given -/

namespace Matcher

variable {m : Matcher} {token : String} {tokens : List String} {p q : Parameter}
  {ps left front back : List Parameter}

/-- A parameter that must be given takes the token or nothing does. -/
theorem takes_cons_iff_of_isRequired (h : p.isRequired = true) :
    m.Takes token (p :: ps) left ↔ m.accepts p token = true ∧ left = ps := by
  have hgreedy := Parameter.IsSingle.isGreedy_eq_false (.inr h)
  constructor
  · intro htakes
    cases htakes with
    | here haccepts =>
      rw [hgreedy, if_neg Bool.false_ne_true]
      exact ⟨haccepts, rfl⟩
    | pass hoptional hlater =>
      rw [Parameter.isOptional_of_isRequired h] at hoptional
      cases hoptional
  · rintro ⟨haccepts, rfl⟩
    exact .here_of_not_greedy hgreedy haccepts

/-- Tokens that parameters consume are accepted one by one by those at the front
that must be given. -/
theorem Consumes.acceptsAll (h : m.Consumes tokens (front ++ back) left)
    (hfront : ∀ p ∈ front, p.isRequired = true) : m.acceptsAll front tokens = true := by
  induction front generalizing tokens with
  | nil => simp [Matcher.acceptsAll]
  | cons p front ih =>
    rw [List.forall_mem_cons] at hfront
    cases h with
    | done => simp [Matcher.acceptsAll]
    | next htakes hrest =>
      obtain ⟨haccepts, rfl⟩ := (takes_cons_iff_of_isRequired hfront.1).1 htakes
      rw [acceptsAll_cons, haccepts, ih hrest hfront.2]
      rfl

/-- As long as the tokens do not go beyond parameters that must be given, the one of
their number is expected and no other. -/
theorem expects_append_iff (hfront : ∀ p ∈ front, p.isRequired = true)
    (hlength : tokens.length < front.length) :
    m.Expects (front ++ back) tokens q ↔
      m.acceptsAll front tokens = true ∧ front[tokens.length]? = some q := by
  induction front generalizing tokens with
  | nil => simp at hlength
  | cons p front ih =>
    rw [List.forall_mem_cons] at hfront
    cases tokens with
    | nil =>
      have hupcoming : Completion.upcoming (p :: (front ++ back)) = [p] :=
        Completion.upcoming_of_not_optional (Parameter.isOptional_of_isRequired hfront.1) _
      constructor
      · rintro ⟨left, hconsumes, hq⟩
        cases hconsumes
        rw [List.cons_append, hupcoming, List.mem_singleton] at hq
        exact ⟨by simp [Matcher.acceptsAll], by simp [hq]⟩
      · rintro ⟨-, hq⟩
        refine ⟨_, .done _, ?_⟩
        rw [List.cons_append, hupcoming, List.mem_singleton]
        simpa [eq_comm] using hq
    | cons token tokens =>
      have hstep : m.Expects (p :: front ++ back) (token :: tokens) q ↔
          m.accepts p token = true ∧ m.Expects (front ++ back) tokens q := by
        constructor
        · rintro ⟨left, hconsumes, hq⟩
          cases hconsumes with
          | next htakes hrest =>
            obtain ⟨haccepts, rfl⟩ := (takes_cons_iff_of_isRequired hfront.1).1 htakes
            exact ⟨haccepts, left, hrest, hq⟩
        · rintro ⟨haccepts, left, hrest, hq⟩
          exact ⟨left, .next ((takes_cons_iff_of_isRequired hfront.1).2 ⟨haccepts, rfl⟩) hrest, hq⟩
      rw [hstep, ih hfront.2 (Nat.lt_of_succ_lt_succ hlength), acceptsAll_cons, Bool.and_eq_true,
        and_assoc]
      rfl

/-- So it does not matter what stands behind these parameters. -/
theorem Expects.of_append {other : List Parameter} (h : m.Expects (front ++ back) tokens q)
    (hfront : ∀ p ∈ front, p.isRequired = true) (hlength : tokens.length < front.length) :
    m.Expects (front ++ other) tokens q :=
  (expects_append_iff hfront hlength).2 ((expects_append_iff hfront hlength).1 h)

end Matcher

/-! ## Positions do not matter -/

/-- The parameter without its position. -/
def Parameter.unplaced (p : Parameter) : Parameter :=
  { p with position := none }

theorem Parameter.exists_of_unplaced_eq {p q : Parameter} (h : q.unplaced = p.unplaced) :
    ∃ position, q = { p with position } := by
  refine ⟨q.position, ?_⟩
  cases p
  cases q
  simpa [Parameter.unplaced] using h

namespace Matcher

variable {m : Matcher} {token : String} {tokens : List String} {p q : Parameter}
  {ps qs left : List Parameter}

theorem Takes.exists_of_map_unplaced (h : m.Takes token ps left)
    (hsame : ps.map Parameter.unplaced = qs.map Parameter.unplaced) :
    ∃ other, left.map Parameter.unplaced = other.map Parameter.unplaced ∧
      m.Takes token qs other := by
  induction h generalizing qs with
  | @here p ps haccepts =>
    obtain ⟨q, qs, rfl, hq, hqs⟩ := List.map_eq_cons_iff.1 hsame.symm
    obtain ⟨position, rfl⟩ := Parameter.exists_of_unplaced_eq hq
    refine ⟨if p.isGreedy then { p with position } :: qs else qs, ?_, .here haccepts⟩
    split
    · exact hsame
    · exact hqs.symm
  | @pass p ps left hoptional hlater ih =>
    obtain ⟨q, qs, rfl, hq, hqs⟩ := List.map_eq_cons_iff.1 hsame.symm
    obtain ⟨position, rfl⟩ := Parameter.exists_of_unplaced_eq hq
    obtain ⟨other, hother, htakes⟩ := ih hqs.symm
    exact ⟨other, hother, .pass hoptional htakes⟩

theorem Consumes.exists_of_map_unplaced (h : m.Consumes tokens ps left)
    (hsame : ps.map Parameter.unplaced = qs.map Parameter.unplaced) :
    ∃ other, left.map Parameter.unplaced = other.map Parameter.unplaced ∧
      m.Consumes tokens qs other := by
  induction h generalizing qs with
  | done ps => exact ⟨qs, hsame, .done qs⟩
  | @next token tokens ps between left htakes hrest ih =>
    obtain ⟨middle, hmiddle, htakes⟩ := htakes.exists_of_map_unplaced hsame
    obtain ⟨other, hother, hconsumes⟩ := ih hmiddle
    exact ⟨other, hother, .next htakes hconsumes⟩

theorem map_unplaced_upcoming (ps : List Parameter) :
    (Completion.upcoming ps).map Parameter.unplaced =
      Completion.upcoming (ps.map Parameter.unplaced) := by
  induction ps with
  | nil => rfl
  | cons p ps ih =>
    have hplaced : p.unplaced.isOptional = p.isOptional := rfl
    rw [List.map_cons, Completion.upcoming, Completion.upcoming, hplaced]
    split
    · rw [List.map_cons, ih]
    · rfl

/-- What is expected of parameters is expected of the same ones at other positions. -/
theorem Expects.exists_of_map_unplaced (h : m.Expects ps tokens p)
    (hsame : ps.map Parameter.unplaced = qs.map Parameter.unplaced) :
    ∃ q, q.unplaced = p.unplaced ∧ m.Expects qs tokens q := by
  obtain ⟨left, hconsumes, hp⟩ := h
  obtain ⟨other, hother, hconsumes⟩ := hconsumes.exists_of_map_unplaced hsame
  have hmem : p.unplaced ∈ (Completion.upcoming left).map Parameter.unplaced :=
    List.mem_map_of_mem hp
  rw [map_unplaced_upcoming, hother, ← map_unplaced_upcoming, List.mem_map] at hmem
  obtain ⟨q, hq, heq⟩ := hmem
  exact ⟨q, heq, other, hconsumes, hq⟩

end Matcher

/-! ## What selection serves -/

namespace Matcher

variable {m : Matcher} {tokens : List String} {ps : List Parameter} {p : Parameter}

/-- An optional parameter in front may be passed over, or still be due itself. -/
theorem Expects.cons_of_optional {first : Parameter} (hoptional : first.isOptional = true)
    (h : m.Expects ps tokens p) : m.Expects (first :: ps) tokens p := by
  obtain ⟨left, hconsumes, hp⟩ := h
  cases hconsumes with
  | done =>
    refine ⟨first :: ps, .done _, ?_⟩
    rw [Completion.upcoming_of_optional hoptional]
    exact List.mem_cons_of_mem _ hp
  | next htakes hrest => exact ⟨left, .next (.pass hoptional htakes) hrest, hp⟩

/-- A parameter that takes the first token leaves the others to those behind it. -/
theorem Expects.cons_of_accepts {first : Parameter} {token : String}
    (hgreedy : first.isGreedy = false) (haccepts : m.accepts first token = true)
    (h : m.Expects ps tokens p) : m.Expects (first :: ps) (token :: tokens) p := by
  obtain ⟨left, hconsumes, hp⟩ := h
  exact ⟨left, .next (.here_of_not_greedy hgreedy haccepts) hconsumes, hp⟩

theorem expects_self (m : Matcher) (p : Parameter) (ps : List Parameter) :
    m.Expects (p :: ps) [] p :=
  ⟨p :: ps, .done _, Completion.mem_upcoming_self p ps⟩

theorem expects_self_of_greedy (hgreedy : p.isGreedy = true) (tokens : List String) :
    m.Expects (p :: ps) tokens p :=
  ⟨p :: ps, .of_greedy hgreedy tokens, Completion.mem_upcoming_self p ps⟩

/-- Behind the tokens that are taken already, whatever parameter is served with the
token of an index was expected in front of that token. -/
theorem expects_of_serves {cursor k : Nat} {slot : Slot}
    (hserves : ∀ pair ∈ ps.zip (Slot.assignFrom tokens.length cursor ps).1,
      m.Serves tokens pair.1 pair.2)
    (hmem : (p, slot) ∈ ps.zip (Slot.assignFrom tokens.length cursor ps).1)
    (hholds : slot.holds k = true) (hk : k < tokens.length) :
    cursor ≤ k ∧ m.Expects ps ((tokens.drop cursor).take (k - cursor)) p := by
  induction ps generalizing cursor with
  | nil => simp at hmem
  | cons first ps ih =>
    obtain ⟨given, next, hgives, hassign⟩ := Slot.exists_gives tokens.length cursor first ps
    rw [hassign, List.zip_cons_cons] at hserves hmem
    rw [List.forall_mem_cons] at hserves
    obtain ⟨hfirst, hlater⟩ := hserves
    rcases List.mem_cons.1 hmem with heq | hmem
    · -- The first parameter itself holds the token.
      obtain ⟨rfl, rfl⟩ := Prod.mk.inj heq
      cases hgives with
      | greedy hgreedy =>
        simp only [Slot.holds, Bool.and_eq_true, decide_eq_true_eq] at hholds
        exact ⟨hholds.1, expects_self_of_greedy hgreedy _⟩
      | token hgreedy hcursor hspare =>
        obtain rfl := beq_iff_eq.1 hholds
        rw [Nat.sub_self, List.take_zero]
        exact ⟨Nat.le_refl _, m.expects_self p ps⟩
      | skipped => cases hholds
      | missing => cases hholds
    · have hrest := ih hlater hmem
      cases hgives with
      | greedy hgreedy =>
        -- Nothing remains behind a greedy parameter.
        have hle := hrest.1
        omega
      | token hgreedy hcursor hspare =>
        obtain ⟨token, htoken, haccepts⟩ := hfirst
        obtain ⟨hle, hexpects⟩ := hrest
        have hcut : (tokens.drop cursor).take (k - cursor) =
            token :: (tokens.drop (cursor + 1)).take (k - (cursor + 1)) := by
          have hcount : k - cursor = k - (cursor + 1) + 1 := by omega
          rw [hcount, List.drop_eq_getElem?_toList_append, htoken]
          simp
        rw [hcut]
        exact ⟨by omega, hexpects.cons_of_accepts hgreedy haccepts⟩
      | skipped hoptional hspare =>
        exact ⟨hrest.1, hrest.2.cons_of_optional hoptional⟩
      | missing => exact hfirst.elim

end Matcher

end Parlance
