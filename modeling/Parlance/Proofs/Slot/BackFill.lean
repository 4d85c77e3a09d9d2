import Mathlib.Data.List.Forall2
import Parlance.Proofs.Selection.Finding
import Parlance.Proofs.Slot.Step

/-!
# Back-filling

Tokens go to the parameters that need one, and those that are spare to the optional
parameters at the front. So how many tokens there are tells which optional parameters
get one (`keepOptionals`), whatever the tokens look like.
-/

set_option autoImplicit false

namespace Parlance

/-- The parameters without the optional ones behind the first `spare` of them. -/
def keepOptionals (spare : Nat) : List Parameter → List Parameter
  | [] => []
  | p :: ps =>
    if p.isOptional then
      if spare = 0 then keepOptionals 0 ps else p :: keepOptionals (spare - 1) ps
    else p :: keepOptionals spare ps

theorem keepOptionals_of_not_optional {p : Parameter} (h : p.isOptional = false) (spare : Nat)
    (ps : List Parameter) : keepOptionals spare (p :: ps) = p :: keepOptionals spare ps := by
  rw [keepOptionals, h, if_neg Bool.false_ne_true]

theorem keepOptionals_zero_of_optional {p : Parameter} (h : p.isOptional = true)
    (ps : List Parameter) : keepOptionals 0 (p :: ps) = keepOptionals 0 ps := by
  rw [keepOptionals, if_pos h, if_pos rfl]

theorem keepOptionals_succ_of_optional {p : Parameter} (h : p.isOptional = true) (spare : Nat)
    (ps : List Parameter) : keepOptionals (spare + 1) (p :: ps) = p :: keepOptionals spare ps := by
  rw [keepOptionals, if_pos h, if_neg (Nat.succ_ne_zero spare), Nat.add_sub_cancel]

/-- Spare tokens that no optional parameter is left for may be left out of account. -/
theorem exists_keepOptionals_eq {ps : List Parameter} (h : ∀ p ∈ ps, p.IsSingle) (spare : Nat) :
    ∃ used ≤ spare, keepOptionals used ps = keepOptionals spare ps ∧
      (keepOptionals used ps).length = ps.countP Parameter.needsToken + used := by
  induction ps generalizing spare with
  | nil => exact ⟨0, Nat.zero_le _, rfl, rfl⟩
  | cons p ps ih =>
    rw [List.forall_mem_cons] at h
    cases hoptional : p.isOptional with
    | false =>
      rw [h.1.countP_needsToken_of_not_optional hoptional]
      obtain ⟨used, hused, hkeep, hlength⟩ := ih h.2 spare
      refine ⟨used, hused, ?_, ?_⟩
      · rw [keepOptionals_of_not_optional hoptional, keepOptionals_of_not_optional hoptional, hkeep]
      · rw [keepOptionals_of_not_optional hoptional, List.length_cons, hlength,
          Nat.add_right_comm]
    | true =>
      rw [Parameter.countP_needsToken_of_optional hoptional]
      cases spare with
      | zero =>
        obtain ⟨used, hused, hkeep, hlength⟩ := ih h.2 0
        obtain rfl := Nat.le_zero.1 hused
        rw [keepOptionals_zero_of_optional hoptional]
        exact ⟨0, hused, keepOptionals_zero_of_optional hoptional ps,
          by rw [keepOptionals_zero_of_optional hoptional, hlength]⟩
      | succ spare =>
        obtain ⟨used, hused, hkeep, hlength⟩ := ih h.2 spare
        refine ⟨used + 1, Nat.succ_le_succ hused, ?_, ?_⟩
        · rw [keepOptionals_succ_of_optional hoptional, keepOptionals_succ_of_optional hoptional,
            hkeep]
        · rw [keepOptionals_succ_of_optional hoptional, List.length_cons, hlength, Nat.add_assoc]

namespace Slot

/-- Parameters that are served need no more tokens than there are. -/
theorem le_of_serves {m : Matcher} {tokens : List String} {ps : List Parameter} {cursor : Nat}
    (hcursor : cursor ≤ tokens.length)
    (hserves : ∀ pair ∈ ps.zip (assignFrom tokens.length cursor ps).1,
      m.Serves tokens pair.1 pair.2) :
    cursor + ps.countP Parameter.needsToken ≤ tokens.length := by
  induction ps generalizing cursor with
  | nil => exact hcursor
  | cons p ps ih =>
    obtain ⟨slot, next, hgives, hassign⟩ := exists_gives tokens.length cursor p ps
    rw [hassign, List.zip_cons_cons, List.forall_mem_cons] at hserves
    obtain ⟨hfirst, hlater⟩ := hserves
    cases hgives with
    | greedy hgreedy =>
      have hrest := ih (by omega) hlater
      cases hneeds : p.needsToken with
      | false =>
        rw [List.countP_cons_of_neg (Bool.eq_false_iff.1 hneeds)]
        omega
      | true =>
        rw [List.countP_cons_of_pos hneeds]
        rw [Parameter.needsToken_of_greedy hgreedy, Option.isNone_iff_eq_none] at hneeds
        have hstart : cursor < max tokens.length cursor := by
          simpa [Matcher.Serves, hneeds] using hfirst
        omega
    | token hgreedy hlt hspare =>
      have hrest := ih hlt hlater
      rw [List.countP_cons]
      split <;> omega
    | skipped hoptional hspare =>
      rw [Parameter.countP_needsToken_of_optional hoptional]
      exact ih hcursor hlater
    | missing => exact hfirst.elim

/-- With a number of tokens to spare, the optional parameters of that number at the
front get one each, like all parameters that need one. -/
theorem exists_slots_of_spare {front : List Parameter} (hfront : ∀ p ∈ front, p.IsSingle)
    (rest : List Parameter) {count cursor spare : Nat}
    (hcount : cursor + front.countP Parameter.needsToken + rest.countP Parameter.needsToken + spare
      = count) :
    ∃ slots : List Slot, slots.length = front.length ∧
      assignFrom count cursor (front ++ rest) =
        (slots ++ (assignFrom count (cursor + (keepOptionals spare front).length) rest).1,
          (assignFrom count (cursor + (keepOptionals spare front).length) rest).2) ∧
      ∀ (m : Matcher) (tokens : List String), tokens.length = count →
        ((∀ pair ∈ front.zip slots, m.Serves tokens pair.1 pair.2) ↔
          m.acceptsAll (keepOptionals spare front) (tokens.drop cursor) = true) := by
  induction front generalizing cursor spare with
  | nil => exact ⟨[], rfl, rfl, fun m tokens _ => by simp [keepOptionals, Matcher.acceptsAll]⟩
  | cons p front ih =>
    rw [List.forall_mem_cons] at hfront
    obtain ⟨slot, next, hgives, hassign⟩ := exists_gives count cursor p (front ++ rest)
    rw [List.cons_append, hassign]
    cases hgives with
    | greedy hgreedy =>
      rw [hfront.1.isGreedy_eq_false] at hgreedy
      cases hgreedy
    | token hgreedy hlt hspare =>
      obtain ⟨left, hkeep, hleft⟩ : ∃ left,
          keepOptionals spare (p :: front) = p :: keepOptionals left front ∧
          cursor + 1 + front.countP Parameter.needsToken + rest.countP Parameter.needsToken + left
            = count := by
        cases hoptional : p.isOptional with
        | false =>
          rw [hfront.1.countP_needsToken_of_not_optional hoptional] at hcount
          exact ⟨spare, keepOptionals_of_not_optional hoptional spare front, by omega⟩
        | true =>
          have hmore := hspare hoptional
          rw [List.countP_append] at hmore
          rw [Parameter.countP_needsToken_of_optional hoptional] at hcount
          obtain ⟨left, rfl⟩ : ∃ left, spare = left + 1 := ⟨spare - 1, by omega⟩
          exact ⟨left, keepOptionals_succ_of_optional hoptional left front, by omega⟩
      obtain ⟨slots, hlength, hslots, hserves⟩ := ih hfront.2 hleft
      have htaken : cursor + (p :: keepOptionals left front).length =
          cursor + 1 + (keepOptionals left front).length := by
        rw [List.length_cons]
        omega
      rw [hkeep, htaken, hslots]
      refine ⟨.token cursor :: slots, by rw [List.length_cons, hlength, List.length_cons], rfl, ?_⟩
      intro m tokens htokens
      rw [List.zip_cons_cons, List.forall_mem_cons, hserves m tokens htokens,
        m.acceptsAll_cons_drop_iff (htokens ▸ hlt)]
    | skipped hoptional hspare =>
      rw [List.countP_append] at hspare
      rw [Parameter.countP_needsToken_of_optional hoptional] at hcount
      obtain rfl : spare = 0 := by omega
      obtain ⟨slots, hlength, hslots, hserves⟩ := ih hfront.2 hcount
      rw [keepOptionals_zero_of_optional hoptional, hslots]
      refine ⟨.skipped :: slots, by rw [List.length_cons, hlength, List.length_cons], rfl, ?_⟩
      intro m tokens htokens
      rw [List.zip_cons_cons, List.forall_mem_cons, hserves m tokens htokens]
      exact and_iff_right trivial
    | missing hgreedy hoptional hle =>
      rw [hfront.1.countP_needsToken_of_not_optional hoptional] at hcount
      omega

/-- With no token to spare, the parameters that need one take the tokens that are left,
and all others do without. -/
theorem serves_of_no_spare {m : Matcher} {tokens : List String} {ps : List Parameter}
    (hflags : ∀ p ∈ ps, p.isFlag = false) (hgreedy : ∀ p ∈ ps.dropLast, p.isGreedy = false)
    {cursor : Nat} (hcount : cursor + ps.countP Parameter.needsToken = tokens.length)
    (haccepts : m.acceptsAll (ps.filter Parameter.needsToken) (tokens.drop cursor) = true) :
    (∀ pair ∈ ps.zip (assignFrom tokens.length cursor ps).1, m.Serves tokens pair.1 pair.2) ∧
      (assignFrom tokens.length cursor ps).2 = tokens.length := by
  induction ps generalizing cursor with
  | nil => exact ⟨by simp, hcount⟩
  | cons p ps ih =>
    rw [List.forall_mem_cons] at hflags
    obtain ⟨hlast, hlater⟩ := forall_dropLast_cons_iff.1 hgreedy
    obtain ⟨slot, next, hgives, hassign⟩ := exists_gives tokens.length cursor p ps
    rw [hassign, List.zip_cons_cons, List.forall_mem_cons]
    cases hgives with
    | greedy hp =>
      obtain rfl := eq_nil_of_greedy hlast hp
      have hserved : m.Serves tokens p (.greedy cursor (max tokens.length cursor)) := by
        cases hneeds : p.needsToken with
        | true =>
          rw [List.countP_cons_of_pos hneeds] at hcount
          exact .inl (by omega)
        | false =>
          rw [Parameter.needsToken_of_greedy hp, Option.isNone_eq_false_iff] at hneeds
          exact .inr hneeds
      have htaken : max tokens.length cursor = tokens.length := by omega
      exact ⟨⟨hserved, by simp⟩, htaken⟩
    | token hp hlt hspare =>
      have hsingle := Parameter.isSingle_of_not_greedy hflags.1 hp
      cases hoptional : p.isOptional with
      | true =>
        rw [Parameter.countP_needsToken_of_optional hoptional] at hcount
        have hmore := hspare hoptional
        omega
      | false =>
        rw [hsingle.countP_needsToken_of_not_optional hoptional] at hcount
        rw [List.filter_cons_of_pos (hsingle.needsToken_of_not_optional hoptional),
          m.acceptsAll_cons_drop_iff hlt] at haccepts
        have hrest := ih hflags.2 hlater (by omega) haccepts.2
        exact ⟨⟨haccepts.1, hrest.1⟩, hrest.2⟩
    | skipped hoptional hspare =>
      have hneeds := Bool.eq_false_iff.1 (Parameter.needsToken_of_optional hoptional)
      rw [List.countP_cons_of_neg hneeds] at hcount
      rw [List.filter_cons_of_neg hneeds] at haccepts
      have hrest := ih hflags.2 hlater hcount haccepts
      exact ⟨⟨trivial, hrest.1⟩, hrest.2⟩
    | missing hp hoptional hle =>
      have hsingle := Parameter.isSingle_of_not_greedy hflags.1 hp
      rw [hsingle.countP_needsToken_of_not_optional hoptional] at hcount
      omega

end Slot

/-! ## Fixed words -/

/-- There are as many tokens as parameters, and each is accepted. -/
def Matcher.AcceptsEach (m : Matcher) (params : List Parameter) (tokens : List String) : Prop :=
  List.Forall₂ (fun p token => m.accepts p token = true) params tokens

namespace Matcher

variable {m : Matcher} {xs ys : List String} {front back params : List Parameter}
  {p : Parameter} {spare : Nat}

theorem AcceptsEach.acceptsAll_append (h : m.AcceptsEach params xs) (more : List String) :
    m.acceptsAll params (xs ++ more) = true := by
  induction h with
  | nil => simp [acceptsAll]
  | cons haccepts h ih => rw [List.cons_append, acceptsAll_cons, haccepts, ih]; rfl

theorem acceptsEach_of_acceptsAll (hlength : params.length = xs.length) {more : List String}
    (h : m.acceptsAll params (xs ++ more) = true) : m.AcceptsEach params xs := by
  induction params generalizing xs with
  | nil =>
    rw [List.length_nil, eq_comm, List.length_eq_zero_iff] at hlength
    rw [hlength]
    exact .nil
  | cons p params ih =>
    cases xs with
    | nil => cases hlength
    | cons x xs =>
      rw [List.cons_append, acceptsAll_cons, Bool.and_eq_true] at h
      exact .cons h.1 (ih (Nat.succ.inj hlength) h.2)

/-- If a fixed word takes the token behind `xs`, those in front of it were accepted by
all parameters but the last optional ones. -/
theorem exists_acceptsEach_of_serves (hfront : ∀ q ∈ front, q.IsSingle) {more : List String}
    (hserves : ∀ pair ∈ (front ++ p :: back).zip
      (Slot.assign (front ++ p :: back) (xs ++ more).length).1,
      m.Serves (xs ++ more) pair.1 pair.2)
    (hslot : (Slot.assign (front ++ p :: back) (xs ++ more).length).1[front.length]? =
      some (.token xs.length)) : ∃ spare, m.AcceptsEach (keepOptionals spare front) xs := by
  rw [Slot.assign] at hserves hslot
  have hneeds := Slot.le_of_serves (Nat.zero_le _) hserves
  rw [List.countP_append] at hneeds
  obtain ⟨spare, hspare⟩ : ∃ spare, 0 + front.countP Parameter.needsToken +
      (p :: back).countP Parameter.needsToken + spare = (xs ++ more).length :=
    ⟨_, Nat.add_sub_of_le (by omega)⟩
  obtain ⟨slots, hlength, hslots, hiff⟩ := Slot.exists_slots_of_spare hfront (p :: back) hspare
  obtain ⟨slot, next, hgives, hassign⟩ := Slot.exists_gives (xs ++ more).length
    (0 + (keepOptionals spare front).length) p back
  rw [hslots, hassign] at hserves hslot
  rw [← hlength, List.getElem?_append_right (Nat.le_refl _), Nat.sub_self] at hslot
  have hcount : (keepOptionals spare front).length = xs.length := by
    cases hgives with
    | token => simpa using hslot
    | greedy => cases hslot
    | skipped => cases hslot
    | missing => cases hslot
  refine ⟨spare, acceptsEach_of_acceptsAll hcount ((hiff m _ rfl).1 ?_)⟩
  intro pair hpair
  rw [List.zip_append hlength.symm] at hserves
  exact hserves pair (List.mem_append_left _ hpair)

/-- Tokens that all parameters but the last optional ones accept can be followed by the
fixed word, and then by one token for each parameter that still needs one. -/
theorem serves_of_acceptsEach (hfront : ∀ q ∈ front, q.IsSingle) (hp : p.isRequired = true)
    (hflags : ∀ q ∈ back, q.isFlag = false) (hgreedy : ∀ q ∈ back.dropLast, q.isGreedy = false)
    {w : String} (hxs : m.AcceptsEach (keepOptionals spare front) xs)
    (hw : m.accepts p w = true) (hys : m.AcceptsEach (back.filter Parameter.needsToken) ys) :
    (∀ pair ∈ (front ++ p :: back).zip
        (Slot.assign (front ++ p :: back) (xs ++ [w] ++ ys).length).1,
      m.Serves (xs ++ [w] ++ ys) pair.1 pair.2) ∧
    (Slot.assign (front ++ p :: back) (xs ++ [w] ++ ys).length).2 = (xs ++ [w] ++ ys).length ∧
    (Slot.assign (front ++ p :: back) (xs ++ [w] ++ ys).length).1[front.length]? =
      some (.token xs.length) := by
  obtain ⟨used, -, hkeep, hused⟩ := exists_keepOptionals_eq hfront spare
  rw [← hkeep] at hxs
  have hxsLength := hxs.length_eq
  have hysLength := hys.length_eq
  rw [← List.countP_eq_length_filter] at hysLength
  have hneeds : p.needsToken = true :=
    Parameter.IsSingle.needsToken_of_not_optional (.inr hp) (Parameter.isOptional_of_isRequired hp)
  have hcount : 0 + front.countP Parameter.needsToken + (p :: back).countP Parameter.needsToken +
      used = (xs ++ [w] ++ ys).length := by
    rw [List.countP_cons_of_pos hneeds, List.length_append, List.length_append,
      List.length_singleton]
    omega
  obtain ⟨slots, hlength, hslots, hiff⟩ := Slot.exists_slots_of_spare hfront (p :: back) hcount
  rw [Nat.zero_add, hxsLength] at hslots
  have htotal : (xs ++ [w] ++ ys).length = xs.length + 1 + ys.length := by
    rw [List.length_append, List.length_append, List.length_singleton]
  rw [Slot.assign, hslots, Slot.assignFrom_cons_of_isRequired hp (by omega)]
  have hbehind : m.acceptsAll (back.filter Parameter.needsToken)
      ((xs ++ [w] ++ ys).drop (xs.length + 1)) = true := by
    have hdrop : (xs ++ [w] ++ ys).drop (xs.length + 1) = ys :=
      List.drop_left' (by rw [List.length_append, List.length_singleton])
    rw [hdrop, ← List.append_nil ys]
    exact hys.acceptsAll_append []
  obtain ⟨hback, htaken⟩ := Slot.serves_of_no_spare hflags hgreedy (by omega) hbehind
  have hfrontServed : ∀ pair ∈ front.zip slots, m.Serves (xs ++ [w] ++ ys) pair.1 pair.2 := by
    rw [hiff m _ rfl, List.drop_zero, List.append_assoc]
    exact hxs.acceptsAll_append ([w] ++ ys)
  have hword : m.Serves (xs ++ [w] ++ ys) p (.token xs.length) :=
    ⟨w, by simp, hw⟩
  refine ⟨?_, htaken, ?_⟩
  · rw [List.zip_append hlength.symm, List.zip_cons_cons, List.forall_mem_append,
      List.forall_mem_cons]
    exact ⟨hfrontServed, hword, hback⟩
  · rw [← hlength, List.getElem?_append_right (Nat.le_refl _), Nat.sub_self]
    rfl

end Matcher

end Parlance
