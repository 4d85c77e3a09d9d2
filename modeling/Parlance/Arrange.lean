/-!
# Arranging lists

A list is put in order by inserting its elements from the last to the first;
elements that the order does not tell apart keep their order.
-/

set_option autoImplicit false

namespace Parlance

variable {α : Type}

/-- Puts `x` in front of the first element that it may precede. -/
def place (mayPrecede : α → α → Bool) (x : α) : List α → List α
  | [] => [x]
  | y :: ys => if mayPrecede x y then x :: y :: ys else y :: place mayPrecede x ys

/-- The elements in order. -/
def arrange (mayPrecede : α → α → Bool) : List α → List α
  | [] => []
  | x :: xs => place mayPrecede x (arrange mayPrecede xs)

/-! ## Laws -/

theorem place_perm (mayPrecede : α → α → Bool) (x : α) (xs : List α) :
    (place mayPrecede x xs).Perm (x :: xs) := by
  induction xs with
  | nil => exact .refl _
  | cons y ys ih =>
    unfold place
    split
    · exact .refl _
    · exact (List.Perm.cons y ih).trans (.swap x y ys)

theorem arrange_perm (mayPrecede : α → α → Bool) (xs : List α) :
    (arrange mayPrecede xs).Perm xs := by
  induction xs with
  | nil => exact .refl _
  | cons x xs ih => exact (place_perm mayPrecede x _).trans (ih.cons x)

theorem mem_arrange {mayPrecede : α → α → Bool} {xs : List α} {x : α} :
    x ∈ arrange mayPrecede xs ↔ x ∈ xs :=
  (arrange_perm mayPrecede xs).mem_iff

theorem pairwise_place {mayPrecede : α → α → Bool} {before : α → α → Prop}
    (total : ∀ a b, mayPrecede a b = true ∨ mayPrecede b a = true)
    (trans : ∀ a b c, mayPrecede a b = true → mayPrecede b c = true → mayPrecede a c = true)
    {x : α} {xs : List α} (hx : ∀ y ∈ xs, before x y)
    (h : xs.Pairwise fun a b => mayPrecede a b = true ∧ (mayPrecede b a = true → before a b)) :
    (place mayPrecede x xs).Pairwise fun a b =>
      mayPrecede a b = true ∧ (mayPrecede b a = true → before a b) := by
  induction xs with
  | nil => exact List.pairwise_singleton _ _
  | cons y ys ih =>
    obtain ⟨hy, hys⟩ := List.pairwise_cons.1 h
    rw [List.forall_mem_cons] at hx
    unfold place
    split
    · next hxy =>
      refine List.pairwise_cons.2 ⟨fun z hz => ?_, h⟩
      rcases List.mem_cons.1 hz with rfl | hz
      · exact ⟨hxy, fun _ => hx.1⟩
      · exact ⟨trans x y z hxy (hy z hz).1, fun _ => hx.2 z hz⟩
    · next hxy =>
      refine List.pairwise_cons.2 ⟨fun z hz => ?_, ih hx.2 hys⟩
      rcases List.mem_cons.1 ((place_perm mayPrecede x ys).mem_iff.1 hz) with rfl | hz
      · exact ⟨(total y z).resolve_right hxy, fun hback => absurd hback hxy⟩
      · exact hy z hz

/-- Under a total preorder every element may precede all that follow it, and elements that
may precede one another keep their order. -/
theorem pairwise_arrange_of_pairwise {mayPrecede : α → α → Bool} {before : α → α → Prop}
    (total : ∀ a b, mayPrecede a b = true ∨ mayPrecede b a = true)
    (trans : ∀ a b c, mayPrecede a b = true → mayPrecede b c = true → mayPrecede a c = true)
    {xs : List α} (h : xs.Pairwise before) : (arrange mayPrecede xs).Pairwise fun a b =>
      mayPrecede a b = true ∧ (mayPrecede b a = true → before a b) := by
  induction xs with
  | nil => exact List.Pairwise.nil
  | cons x xs ih =>
    obtain ⟨hx, hxs⟩ := List.pairwise_cons.1 h
    exact pairwise_place total trans (fun y hy => hx y (mem_arrange.1 hy)) (ih hxs)

end Parlance
