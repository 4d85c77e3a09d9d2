/-!
# Maps by name

Values under names, kept in the order of the names: code point by code point.
The order is part of the type, so two maps with the same values are equal.
-/

set_option autoImplicit false

namespace Parlance

/-- The names rise. -/
def Rising {α : Type} (entries : List (String × α)) : Prop :=
  entries.Pairwise fun a b => a.1 < b.1

/-- Values by name. -/
structure NameMap (α : Type) where
  entries : List (String × α) := []
  rising : Rising entries := by exact List.Pairwise.nil

namespace NameMap

variable {α : Type}

instance : Inhabited (NameMap α) := ⟨{}⟩

/-! ## Insertion -/

/-- Puts a value at its place among entries with rising names. -/
def place (name : String) (value : α) : List (String × α) → List (String × α)
  | [] => [(name, value)]
  | (other, held) :: rest =>
    if name = other then (name, value) :: rest
    else if name < other then (name, value) :: (other, held) :: rest
    else (other, held) :: place name value rest

theorem mem_place {name : String} {value : α} {entries : List (String × α)} {e : String × α}
    (h : e ∈ place name value entries) : e = (name, value) ∨ e ∈ entries := by
  induction entries with
  | nil => simpa [place] using h
  | cons head rest ih =>
    unfold place at h
    split at h
    · rcases List.mem_cons.1 h with h | h
      · exact .inl h
      · exact .inr (List.mem_cons_of_mem _ h)
    · split at h
      · rcases List.mem_cons.1 h with h | h
        · exact .inl h
        · exact .inr h
      · rcases List.mem_cons.1 h with h | h
        · exact .inr (h ▸ List.mem_cons_self)
        · exact (ih h).imp_right (List.mem_cons_of_mem _)

theorem rising_place {name : String} {value : α} {entries : List (String × α)}
    (h : Rising entries) : Rising (place name value entries) := by
  induction entries with
  | nil => exact List.pairwise_singleton _ _
  | cons head rest ih =>
    obtain ⟨hhead, hrest⟩ := List.pairwise_cons.1 h
    unfold place
    split
    · next heq => exact List.pairwise_cons.2 ⟨fun e he => heq ▸ hhead e he, hrest⟩
    · split
      · next hlt =>
        refine List.pairwise_cons.2 ⟨fun e he => ?_, h⟩
        rcases List.mem_cons.1 he with rfl | he
        · exact hlt
        · exact String.lt_trans hlt (hhead e he)
      · next hne hnlt =>
        refine List.pairwise_cons.2 ⟨fun e he => ?_, ih hrest⟩
        rcases mem_place he with rfl | he
        · exact Std.lt_of_le_of_ne (String.not_lt.1 hnlt) (Ne.symm hne)
        · exact hhead e he

/-- Stores a value, in place of any earlier one of that name. -/
def insert (map : NameMap α) (name : String) (value : α) : NameMap α where
  entries := place name value map.entries
  rising := rising_place map.rising

/-- The values of a list, a later one in place of an earlier one of its name. -/
def ofList (entries : List (String × α)) : NameMap α :=
  entries.foldl (fun map entry => map.insert entry.1 entry.2) {}

/-! ## Views -/

/-- The value of a name. -/
def get? (map : NameMap α) (name : String) : Option α :=
  (map.entries.find? fun entry => entry.1 == name).map Prod.snd

/-- The names, rising. -/
def names (map : NameMap α) : List String :=
  map.entries.map Prod.fst

/-- Number of values. -/
def size (map : NameMap α) : Nat :=
  map.entries.length

/-! ## Laws -/

theorem ext {a b : NameMap α} (h : a.entries = b.entries) : a = b := by
  cases a; cases b; cases h; rfl

theorem mem_names_place {name other : String} {value : α} {entries : List (String × α)} :
    other ∈ (place name value entries).map Prod.fst ↔
      other = name ∨ other ∈ entries.map Prod.fst := by
  induction entries with
  | nil => simp [place]
  | cons head rest ih =>
    unfold place
    split
    · next h => simp [h]
    · split
      · simp
      · simp only [List.map_cons, List.mem_cons, ih]
        constructor <;> rintro (h | h | h) <;> simp [h]

theorem mem_names_insert {map : NameMap α} {name other : String} {value : α} :
    other ∈ (map.insert name value).names ↔ other = name ∨ other ∈ map.names :=
  mem_names_place

theorem find?_place {name other : String} {value : α} {entries : List (String × α)} :
    ((place name value entries).find? fun entry => entry.1 == other).map Prod.snd =
      if other = name then some value
      else (entries.find? fun entry => entry.1 == other).map Prod.snd := by
  induction entries with
  | nil =>
    by_cases h : name = other
    · simp [place, h]
    · simp [place, h, Ne.symm h]
  | cons head rest ih =>
    unfold place
    split
    · next heq =>
      by_cases h : name = other
      · simp [h]
      · have hhead : ¬ head.1 = other := fun e => h (heq.trans e)
        simp [h, hhead, Ne.symm h]
    · next hne =>
      split
      · by_cases h : name = other
        · simp [h]
        · simp [h, Ne.symm h]
      · by_cases h : head.1 = other
        · have hname : ¬ other = name := fun e => hne (e.symm.trans h.symm)
          simp [h, hname]
        · simpa [h] using ih

/-- Storing a value changes the value of its name and of no other. -/
theorem get?_insert {map : NameMap α} {name other : String} {value : α} :
    (map.insert name value).get? other = if other = name then some value else map.get? other :=
  find?_place

/-- A new name gets an entry of its own. -/
theorem place_perm {name : String} {value : α} {entries : List (String × α)}
    (h : name ∉ entries.map Prod.fst) : (place name value entries).Perm ((name, value) :: entries) := by
  induction entries with
  | nil => exact .refl _
  | cons head rest ih =>
    rw [List.map_cons, List.mem_cons, not_or] at h
    unfold place
    rw [if_neg h.1]
    split
    · exact .refl _
    · exact ((ih h.2).cons head).trans (.swap _ _ _)

theorem entries_foldl_perm {map : NameMap α} {entries : List (String × α)}
    (h : ((entries ++ map.entries).map Prod.fst).Nodup) :
    (entries.foldl (fun map entry => map.insert entry.1 entry.2) map).entries.Perm
      (entries ++ map.entries) := by
  induction entries generalizing map with
  | nil => exact .refl _
  | cons entry entries ih =>
    rw [List.cons_append, List.map_cons, List.nodup_cons] at h
    have hplace : (map.insert entry.1 entry.2).entries.Perm (entry :: map.entries) :=
      place_perm fun hmem => h.1 (by simp_all)
    have hall := (hplace.append_left entries).trans List.perm_middle
    exact (ih ((hall.map Prod.fst).nodup_iff.2 (List.nodup_cons.2 h))).trans hall

/-- A map is that of its entries in any order. -/
theorem ofList_eq_of_perm {map : NameMap α} {entries : List (String × α)}
    (h : entries.Perm map.entries) : ofList entries = map := by
  have hdistinct : (map.entries.map Prod.fst).Nodup := by
    refine List.pairwise_map.2 (map.rising.imp ?_)
    intro a b hlt heq
    exact String.lt_irrefl _ (heq ▸ hlt)
  have hentries : (ofList entries).entries.Perm map.entries := by
    have hall : ((entries ++ ({} : NameMap α).entries).map Prod.fst).Nodup := by
      rw [List.append_nil]
      exact (h.map Prod.fst).nodup_iff.2 hdistinct
    have hfold := entries_foldl_perm hall
    rw [List.append_nil] at hfold
    exact hfold.trans h
  refine ext (hentries.eq_of_pairwise ?_ (ofList entries).rising map.rising)
  intro a b _ _ hab hba
  exact absurd (String.lt_trans hab hba) (String.lt_irrefl _)

end NameMap

end Parlance
