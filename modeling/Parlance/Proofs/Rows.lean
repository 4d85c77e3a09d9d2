import Mathlib.Data.List.Nodup
import Mathlib.Data.List.Perm.Basic

/-!
# Rows

Lists that are related entry by entry, and lists of entries with distinct names, whose
order decides nothing when a name is looked up.
-/

set_option autoImplicit false

namespace Parlance

/-! ## Entry by entry -/

theorem exists_of_mem_forall₂ {α β : Type} {related : α → β → Prop} {xs : List α} {ys : List β}
    (h : List.Forall₂ related xs ys) {x : α} (hx : x ∈ xs) : ∃ y ∈ ys, related x y := by
  induction h with
  | nil => cases hx
  | cons hhead htail ih =>
    rcases List.mem_cons.1 hx with rfl | hx
    · exact ⟨_, List.mem_cons_self, hhead⟩
    · obtain ⟨y, hy, hrelated⟩ := ih hx
      exact ⟨y, List.mem_cons_of_mem _ hy, hrelated⟩

theorem forall₂_concat_iff {α β : Type} {related : α → β → Prop} {xs : List α} {ys : List β}
    {x : α} {y : β} : List.Forall₂ related (xs ++ [x]) (ys ++ [y]) ↔
      List.Forall₂ related xs ys ∧ related x y := by
  rw [← List.forall₂_reverse_iff, List.reverse_concat, List.reverse_concat, List.forall₂_cons,
    List.forall₂_reverse_iff, and_comm]

theorem pairwise_concat_iff {α : Type} {related : α → α → Prop} {xs : List α} {x : α} :
    (xs ++ [x]).Pairwise related ↔ xs.Pairwise related ∧ ∀ y ∈ xs, related y x := by
  simp [List.pairwise_append]

/-- A reordering of images comes from a reordering. -/
theorem exists_perm_of_map_perm {α β : Type} {f : α → β} {xs : List α} {ys : List β}
    (h : (xs.map f).Perm ys) : ∃ moved, xs.Perm moved ∧ moved.map f = ys := by
  have hmap : List.Forall₂ (fun y x => y = f x) (xs.map f) xs :=
    List.forall₂_map_left_iff.2 (List.forall₂_same.2 fun _ _ => rfl)
  obtain ⟨moved, hmoved, hperm⟩ := List.perm_comp_forall₂ h.symm hmap
  have heq : List.Forall₂ (· = ·) ys (moved.map f) := List.forall₂_map_right_iff.2 hmoved
  rw [List.forall₂_eq_eq_eq] at heq
  exact ⟨moved, hperm.symm, heq.symm⟩

/-! ## Looking up names -/

section Lookup

variable {α : Type} {name : String} {pairs others : List (String × α)}

theorem lookup_cons_ite (own : String) (held : α) :
    ((own, held) :: pairs).lookup name = if name = own then some held else pairs.lookup name := by
  rw [List.lookup_cons]
  split
  · next h => rw [if_pos (beq_iff_eq.1 h)]
  · next h => rw [if_neg (beq_eq_false_iff_ne.1 h)]

/-- With distinct names, a name is looked up by its entry. -/
theorem lookup_eq_some_iff_mem {value : α} (hdistinct : (pairs.map Prod.fst).Nodup) :
    pairs.lookup name = some value ↔ (name, value) ∈ pairs := by
  induction pairs with
  | nil => simp
  | cons pair pairs ih =>
    obtain ⟨own, held⟩ := pair
    obtain ⟨hnew, hrest⟩ := List.nodup_cons.1 hdistinct
    rw [lookup_cons_ite, List.mem_cons, ← ih hrest, Prod.mk.injEq]
    split
    · next hname =>
      subst hname
      have hother : pairs.lookup name ≠ some value := fun h =>
        hnew (List.mem_map.2 ⟨(name, value), (ih hrest).1 h, rfl⟩)
      simp [hother, eq_comm]
    · next hname => simp [hname]

/-- The order of entries with distinct names does not matter. -/
theorem lookup_eq_of_perm (hdistinct : (pairs.map Prod.fst).Nodup) (hperm : pairs.Perm others) :
    pairs.lookup name = others.lookup name := by
  have hothers : (others.map Prod.fst).Nodup := (hperm.map Prod.fst).nodup_iff.1 hdistinct
  refine Option.ext fun value => ?_
  rw [lookup_eq_some_iff_mem hdistinct, lookup_eq_some_iff_mem hothers, hperm.mem_iff]

end Lookup

end Parlance
