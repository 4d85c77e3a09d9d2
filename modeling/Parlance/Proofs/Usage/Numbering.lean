import Parlance.Usage

/-!
# Numbered parameters

A usage numbers its parameters anew whenever it is built or put behind a lead.
Numbering changes positions and nothing else, so every view that does not look
at positions is kept. A positional parameter gets the index that it has among them,
a flag gets none.
-/

set_option autoImplicit false

namespace Parlance.Usage

variable {Act β : Type}

/-- Numbering keeps what does not depend on positions. -/
theorem map_numberFrom {f : Parameter → β}
    (hf : ∀ (p : Parameter) (position : Option Nat), f { p with position } = f p)
    (next : Nat) (ps : List Parameter) : (numberFrom next ps).map f = ps.map f := by
  induction ps generalizing next with
  | nil => rfl
  | cons p ps ih =>
    unfold numberFrom
    split <;> simp [hf, ih]

theorem filterMap_numberFrom {f : Parameter → Option β}
    (hf : ∀ (p : Parameter) (position : Option Nat), f { p with position } = f p)
    (next : Nat) (ps : List Parameter) : (numberFrom next ps).filterMap f = ps.filterMap f := by
  have hmap := congrArg (List.filterMap id) (map_numberFrom hf next ps)
  rwa [List.filterMap_map, List.filterMap_map] at hmap

theorem length_numberFrom (next : Nat) (ps : List Parameter) :
    (numberFrom next ps).length = ps.length := by
  have hmap := map_numberFrom (f := Parameter.name) (fun _ _ => rfl) next ps
  simpa using congrArg List.length hmap

/-- The positional parameters are numbered as if there were no flags. -/
theorem filter_numberFrom (next : Nat) (ps : List Parameter) :
    (numberFrom next ps).filter (fun p => !p.isFlag) =
      numberFrom next (ps.filter fun p => !p.isFlag) := by
  induction ps generalizing next with
  | nil => rfl
  | cons p ps ih =>
    cases hflag : p.isFlag with
    | true =>
      have hplaced : Parameter.isFlag { p with position := none } = true := hflag
      simp [numberFrom, hflag, hplaced, ih]
    | false =>
      have hplaced : Parameter.isFlag { p with position := some next } = false := hflag
      simp [numberFrom, hflag, hplaced, ih]

/-- A numbered parameter is one of the given ones, but for its position. -/
theorem exists_of_mem_numberFrom {next : Nat} {ps : List Parameter} {p : Parameter}
    (h : p ∈ numberFrom next ps) : ∃ q ∈ ps, p = { q with position := p.position } := by
  have hmem : { p with position := none } ∈
      (numberFrom next ps).map fun q => { q with position := none } :=
    List.mem_map_of_mem h
  rw [map_numberFrom (fun _ _ => rfl), List.mem_map] at hmem
  obtain ⟨q, hq, heq⟩ := hmem
  refine ⟨q, hq, ?_⟩
  cases p
  cases q
  simp_all

theorem isRequired_of_mem_numberFrom {ps : List Parameter} (h : ∀ p ∈ ps, p.isRequired = true)
    {next : Nat} {p : Parameter} (hp : p ∈ numberFrom next ps) : p.isRequired = true := by
  obtain ⟨q, hq, heq⟩ := exists_of_mem_numberFrom hp
  rw [heq]
  exact h q hq

/-- What numbers the parameters had before does not matter. -/
theorem numberFrom_congr {ps qs : List Parameter}
    (h : ps.map (fun p => { p with position := none }) =
      qs.map fun p => { p with position := none }) (next : Nat) :
    numberFrom next ps = numberFrom next qs := by
  induction ps generalizing qs next with
  | nil =>
    obtain rfl : qs = [] := by simpa using h.symm
    rfl
  | cons p ps ih =>
    cases qs with
    | nil => cases h
    | cons q qs =>
      obtain ⟨hfirst, hrest⟩ := List.cons.inj h
      have hplaced : ∀ position : Option Nat, { p with position } = { q with position } :=
        fun position => congrArg (fun placed : Parameter => { placed with position }) hfirst
      have hflag : Parameter.isFlag { p with position := none } =
          Parameter.isFlag { q with position := none } := congrArg Parameter.isFlag (hplaced none)
      have hsame : p.isFlag = q.isFlag := hflag
      rw [numberFrom, numberFrom, hsame, hplaced, hplaced, ih hrest, ih hrest]

/-- Parameters behind others are numbered from where those end. -/
theorem exists_numberFrom_append (next : Nat) (front back : List Parameter) :
    ∃ later, numberFrom next (front ++ back) = numberFrom next front ++ numberFrom later back := by
  induction front generalizing next with
  | nil => exact ⟨next, rfl⟩
  | cons p ps ih =>
    rw [List.cons_append, numberFrom, numberFrom]
    split
    · obtain ⟨later, heq⟩ := ih next
      exact ⟨later, by rw [heq, List.cons_append]⟩
    · obtain ⟨later, heq⟩ := ih (next + 1)
      exact ⟨later, by rw [heq, List.cons_append]⟩

/-- Behind positional parameters the count goes on where they end. -/
theorem numberFrom_append_of_positional {front : List Parameter}
    (hfront : ∀ p ∈ front, p.isFlag = false) (next : Nat) (back : List Parameter) :
    numberFrom next (front ++ back) =
      numberFrom next front ++ numberFrom (next + front.length) back := by
  induction front generalizing next with
  | nil => rfl
  | cons p ps ih =>
    rw [List.forall_mem_cons] at hfront
    rw [List.cons_append, numberFrom, numberFrom, hfront.1, if_neg Bool.false_ne_true,
      if_neg Bool.false_ne_true, ih hfront.2, List.cons_append, List.length_cons,
      Nat.add_assoc, Nat.add_comm 1]

theorem dropLast_numberFrom (next : Nat) (ps : List Parameter) :
    (numberFrom next ps).dropLast = numberFrom next ps.dropLast := by
  rcases List.eq_nil_or_concat ps with rfl | ⟨front, last, rfl⟩
  · rfl
  · obtain ⟨later, heq⟩ := exists_numberFrom_append next front [last]
    obtain ⟨placed, hplaced⟩ : ∃ placed, numberFrom later [last] = [placed] := by
      rw [← List.length_eq_one_iff, length_numberFrom]
      rfl
    rw [List.concat_eq_append, heq, hplaced, List.dropLast_concat, List.dropLast_concat]

theorem position_of_isFlag_of_mem_numberFrom {next : Nat} {ps : List Parameter} {p : Parameter}
    (h : p ∈ numberFrom next ps) (hflag : p.isFlag = true) : p.position = none := by
  induction ps generalizing next with
  | nil => simp [numberFrom] at h
  | cons q qs ih =>
    cases hq : q.isFlag with
    | true =>
      rw [numberFrom, hq, if_pos rfl] at h
      rcases List.mem_cons.1 h with rfl | h
      · rfl
      · exact ih h
    | false =>
      rw [numberFrom, hq, if_neg Bool.false_ne_true] at h
      rcases List.mem_cons.1 h with rfl | h
      · have hplaced : Parameter.isFlag { q with position := some next } = false := hq
        rw [hplaced] at hflag
        cases hflag
      · exact ih h

/-- Numbered parameters have the positions that they stand at. -/
theorem position_of_getElem?_numberFrom {next index : Nat} {ps : List Parameter}
    (hps : ∀ p ∈ ps, p.isFlag = false) {p : Parameter}
    (h : (numberFrom next ps)[index]? = some p) : p.position = some (next + index) := by
  induction ps generalizing next index with
  | nil => simp [numberFrom] at h
  | cons q qs ih =>
    rw [List.forall_mem_cons] at hps
    rw [numberFrom, hps.1, if_neg Bool.false_ne_true] at h
    cases index with
    | zero =>
      obtain rfl := Option.some.inj h
      rfl
    | succ index =>
      rw [ih hps.2 h, Nat.add_right_comm, Nat.add_assoc]

/-- The positional parameters of a usage stand behind those of the lead. -/
theorem positional_behind (usage : Usage Act) (lead : List Parameter) :
    (usage.behind lead).positional =
      numberFrom 0 (lead.filter (fun p => !p.isFlag) ++ usage.positional) := by
  rw [positional, behind, filter_numberFrom, List.filter_append]
  rfl

theorem position_of_positional_behind {usage : Usage Act} {lead : List Parameter}
    {index : Nat} {p : Parameter} (h : (usage.behind lead).positional[index]? = some p) :
    p.position = some index := by
  have hplain : ∀ p ∈ (lead ++ usage.parameters).filter fun p => !p.isFlag, p.isFlag = false :=
    fun p hp => by simpa using (List.mem_filter.1 hp).2
  rw [positional, behind, filter_numberFrom] at h
  rw [position_of_getElem?_numberFrom hplain h, Nat.zero_add]

end Parlance.Usage
