/-!
# Cutting characters

A text is taken apart as a list of characters: at the first occurrence of a
mark, behind a known beginning, or before a known ending.
-/

set_option autoImplicit false

namespace Parlance.Text

/-- What stands before and behind the first `mark`, if there is one. -/
def cutAt (mark : Char) : List Char → Option (List Char × List Char)
  | [] => none
  | c :: cs =>
    if c = mark then some ([], cs)
    else (cutAt mark cs).map fun (before, behind) => (c :: before, behind)

/-- What follows the given beginning. -/
def behind? : List Char → List Char → Option (List Char)
  | [], cs => some cs
  | _ :: _, [] => none
  | b :: bs, c :: cs => if b = c then behind? bs cs else none

/-- What precedes the given ending. -/
def before? (ending cs : List Char) : Option (List Char) :=
  (behind? ending.reverse cs.reverse).map List.reverse

/-! ## Laws -/

theorem behind?_eq_some_iff {start cs rest : List Char} :
    behind? start cs = some rest ↔ cs = start ++ rest := by
  induction start generalizing cs with
  | nil => simp [behind?]
  | cons b bs ih =>
    cases cs with
    | nil => simp [behind?]
    | cons c cs =>
      by_cases h : b = c
      · simp [behind?, h, ih]
      · simp [behind?, h, Ne.symm h]

theorem before?_eq_some_iff {ending cs rest : List Char} :
    before? ending cs = some rest ↔ cs = rest ++ ending := by
  unfold before?
  rw [Option.map_eq_some_iff]
  constructor
  · rintro ⟨r, hr, rfl⟩
    rw [behind?_eq_some_iff] at hr
    have := congrArg List.reverse hr
    simpa using this
  · rintro rfl
    exact ⟨rest.reverse, by simp [behind?_eq_some_iff], by simp⟩

theorem eq_of_cutAt_eq_some {mark : Char} {cs before behind : List Char}
    (h : cutAt mark cs = some (before, behind)) :
    cs = before ++ mark :: behind ∧ mark ∉ before := by
  induction cs generalizing before with
  | nil => simp [cutAt] at h
  | cons c cs ih =>
    unfold cutAt at h
    by_cases hc : c = mark
    · simp only [hc, if_true, Option.some.injEq, Prod.mk.injEq] at h
      obtain ⟨rfl, rfl⟩ := h
      simp [hc]
    · simp only [hc, if_false, Option.map_eq_some_iff, Prod.mk.injEq] at h
      obtain ⟨⟨b, r⟩, hb, rfl, rfl⟩ := h
      obtain ⟨rfl, hm⟩ := ih hb
      exact ⟨rfl, by simp [hm, Ne.symm hc]⟩

theorem cutAt_eq_none_iff {mark : Char} {cs : List Char} :
    cutAt mark cs = none ↔ mark ∉ cs := by
  induction cs with
  | nil => simp [cutAt]
  | cons c cs ih =>
    unfold cutAt
    by_cases hc : c = mark
    · simp [hc]
    · simp [hc, ih, Ne.symm hc]

end Parlance.Text
