import Parlance.Document.View
import Parlance.Proofs.Rows

/-!
# Documents up to the order of entries

The entries of a record may come in any order (`Document.Reordered`). What is read of the
known fields of a record does not depend on it (`Document.Reordered.exists_fields`), and a
form reads back if every document that differs from it only in this way is read as the value
that was written (`Document.ReadsBack`).
-/

set_option autoImplicit false

namespace Parlance

namespace Document

/-! ## The order of entries -/

/-- The documents differ at most in the order of the entries of their records. -/
inductive Reordered : Document → Document → Prop where
  | same (document : Document) : Reordered document document
  | list {items others : List Document} (hitems : List.Forall₂ Reordered items others) :
      Reordered (.list items) (.list others)
  | record {entries others moved : List (Document × Document)}
      (hkeys : entries.map Prod.fst = others.map Prod.fst)
      (hvalues : List.Forall₂ (fun a b => Reordered a.2 b.2) entries others)
      (hmoved : others.Perm moved) : Reordered (.record entries) (.record moved)
  | tagged {tag : String} {inner other : Document} (hinner : Reordered inner other) :
      Reordered (.tagged tag inner) (.tagged tag other)

/-- The fields have one name, and the second value is a reordering of the first. -/
def SameField (a b : String × Document) : Prop :=
  a.1 = b.1 ∧ a.2.Reordered b.2

namespace Reordered

variable {document : Document} {items : List Document} {fields : List (String × Document)}

theorem eq_text {s : String} (h : (Document.text s).Reordered document) : document = .text s := by
  cases h
  rfl

theorem eq_bool {b : Bool} (h : (Document.bool b).Reordered document) : document = .bool b := by
  cases h
  rfl

theorem exists_list (h : (Document.list items).Reordered document) :
    ∃ others, document = .list others ∧ List.Forall₂ Reordered items others := by
  cases h with
  | same => exact ⟨items, rfl, List.forall₂_same.2 fun item _ => .same item⟩
  | list hitems => exact ⟨_, rfl, hitems⟩

theorem exists_tagged {tag : String} {inner : Document}
    (h : (Document.tagged tag inner).Reordered document) :
    ∃ other, document = .tagged tag other ∧ inner.Reordered other := by
  cases h with
  | same => exact ⟨inner, rfl, .same inner⟩
  | tagged hinner => exact ⟨_, rfl, hinner⟩

theorem exists_record {entries : List (Document × Document)}
    (h : (Document.record entries).Reordered document) :
    ∃ others moved, document = .record moved ∧ entries.map Prod.fst = others.map Prod.fst ∧
      List.Forall₂ (fun a b => a.2.Reordered b.2) entries others ∧ others.Perm moved := by
  cases h with
  | same => exact ⟨entries, entries, rfl, rfl, List.forall₂_same.2 fun e _ => .same e.2, .refl _⟩
  | record hkeys hvalues hmoved => exact ⟨_, _, rfl, hkeys, hvalues, hmoved⟩

/-- Entries with text keys that others differ from in their values alone. -/
theorem exists_pairs {others : List (Document × Document)}
    (hkeys : (fields.map fun field => (Document.text field.1, field.2)).map Prod.fst =
      others.map Prod.fst)
    (hvalues : List.Forall₂ (fun a b => a.2.Reordered b.2)
      (fields.map fun field => (Document.text field.1, field.2)) others) :
    ∃ pairs : List (String × Document), others = pairs.map (fun pair => (.text pair.1, pair.2)) ∧
      List.Forall₂ SameField fields pairs := by
  induction fields generalizing others with
  | nil =>
    cases hvalues
    exact ⟨[], rfl, .nil⟩
  | cons field fields ih =>
    rw [List.map_cons] at hkeys hvalues
    obtain ⟨⟨key, value⟩, others, hvalue, htail, rfl⟩ := List.forall₂_cons_left_iff.1 hvalues
    obtain ⟨hkey, hkeys⟩ := List.cons.inj hkeys
    obtain ⟨pairs, rfl, hpairs⟩ := ih hkeys htail
    obtain rfl : Document.text field.1 = key := hkey
    exact ⟨(field.1, value) :: pairs, rfl, .cons ⟨rfl, hvalue⟩ hpairs⟩

/-- A reordering of a record has its fields in some order. -/
theorem exists_fields (h : (ofFields fields).Reordered document) :
    ∃ pairs moved : List (String × Document), document = ofFields moved ∧
      List.Forall₂ SameField fields pairs ∧ pairs.Perm moved := by
  obtain ⟨others, moved, rfl, hkeys, hvalues, hmoved⟩ := h.exists_record
  obtain ⟨pairs, rfl, hpairs⟩ := exists_pairs hkeys hvalues
  obtain ⟨back, hback, rfl⟩ := exists_perm_of_map_perm hmoved
  exact ⟨pairs, back, rfl, hpairs, hback⟩

theorem map_fst_of_sameField {pairs : List (String × Document)}
    (h : List.Forall₂ SameField fields pairs) : fields.map Prod.fst = pairs.map Prod.fst := by
  induction h with
  | nil => rfl
  | cons hhead _ ih => rw [List.map_cons, List.map_cons, hhead.1, ih]

theorem lookup_of_sameField {pairs : List (String × Document)}
    (h : List.Forall₂ SameField fields pairs) (name : String) :
    Option.Rel Reordered (fields.lookup name) (pairs.lookup name) := by
  induction h with
  | nil => exact .none
  | @cons field pair fields pairs hhead _ ih =>
    obtain ⟨own, value⟩ := field
    obtain ⟨own, other⟩ := pair
    obtain ⟨rfl, hvalue⟩ := hhead
    rw [lookup_cons_ite, lookup_cons_ite]
    split
    · exact .some hvalue
    · exact ih

end Reordered

/-! ## Known fields -/

theorem set_map_of_nodup {names : List String} (hnames : names.Nodup) {index : Nat}
    (hindex : index < names.length) {held : String → Option Document} (value : Option Document) :
    (names.map held).set index value =
      names.map fun name => if name = names[index] then value else held name := by
  refine List.ext_getElem (by simp) fun position hleft hright => ?_
  rw [List.getElem_set, List.getElem_map, List.getElem_map]
  simp only [hnames.getElem_inj_iff, eq_comm]

/-- Each known field has the value of its entry, in whatever order the entries come. -/
theorem fillFields_eq {names : List String} (hnames : names.Nodup)
    {pairs : List (String × Document)} (hdistinct : (pairs.map Prod.fst).Nodup)
    {held : String → Option Document} (hfree : ∀ pair ∈ pairs, held pair.1 = none) :
    fillFields names (pairs.map fun pair => (.text pair.1, pair.2)) (names.map held) =
      some (names.map fun name => (pairs.lookup name).or (held name)) := by
  induction pairs generalizing held with
  | nil => simp [fillFields]
  | cons pair pairs ih =>
    obtain ⟨own, value⟩ := pair
    rw [List.forall_mem_cons] at hfree
    obtain ⟨hnew, hrest⟩ := List.nodup_cons.1 hdistinct
    have hother : ∀ pair ∈ pairs, pair.1 ≠ own := fun pair hpair heq =>
      hnew (List.mem_map.2 ⟨pair, hpair, heq⟩)
    rw [List.map_cons, fillFields, fieldIndex?]
    cases hfield : names.idxOf? own with
    | none =>
      have habsent := List.idxOf?_eq_none_iff.1 hfield
      simp only
      rw [ih hrest hfree.2]
      refine congrArg some (List.map_congr_left fun name hname => ?_)
      have hne : name ≠ own := fun heq => habsent (heq ▸ hname)
      rw [lookup_cons_ite, if_neg hne]
    | some index =>
      obtain ⟨hindex, hown, -⟩ := List.idxOf?_eq_some_iff.1 hfield
      have hempty : ((names.map held)[index]?.getD none).isSome = false := by
        simp [hindex, hown, hfree.1]
      simp only [hempty, Bool.false_eq_true, if_false]
      rw [set_map_of_nodup hnames hindex, hown, ih hrest fun pair hpair => by
        rw [if_neg (hother pair hpair)]
        exact hfree.2 pair hpair]
      refine congrArg some (List.map_congr_left fun name _ => ?_)
      rw [lookup_cons_ite]
      split
      · next heq =>
        have hnone : pairs.lookup name = none :=
          List.lookup_eq_none_iff.2 fun pair hpair => by simpa [heq] using (hother pair hpair).symm
        rw [hnone]
        rfl
      · rfl

theorem depth_lt_of_mem_items {items : List Document} {item : Document} (h : item ∈ items) :
    item.depth < (Document.list items).depth := by
  rw [depth]
  induction items with
  | nil => cases h
  | cons first items ih =>
    rw [depthOfItems]
    rcases List.mem_cons.1 h with rfl | h
    · omega
    · have hlt := ih h
      omega

theorem depth_lt_of_mem_fields {pairs : List (String × Document)} {pair : String × Document}
    (h : pair ∈ pairs) : pair.2.depth < (ofFields pairs).depth := by
  rw [ofFields, depth]
  induction pairs with
  | nil => cases h
  | cons first pairs ih =>
    rw [List.map_cons, depthOfEntries]
    rcases List.mem_cons.1 h with rfl | h
    · omega
    · have hlt := ih h
      omega

/-- The known fields of a reordered record have reordered values, and no others. -/
theorem Reordered.fields?_eq {names : List String} (hnames : names.Nodup)
    {fields : List (String × Document)} (hdistinct : (fields.map Prod.fst).Nodup)
    {document : Document} (h : (ofFields fields).Reordered document) :
    ∃ field : String → Option Document, document.fields? names = some (names.map field) ∧
      (∀ name, Option.Rel Reordered (fields.lookup name) (field name)) ∧
      ∀ name value, field name = some value → value.depth < document.depth := by
  obtain ⟨pairs, moved, rfl, hpairs, hmoved⟩ := h.exists_fields
  rw [map_fst_of_sameField hpairs] at hdistinct
  have hmovedDistinct := (hmoved.map Prod.fst).nodup_iff.1 hdistinct
  refine ⟨fun name => moved.lookup name, ?_, ?_, ?_⟩
  · rw [ofFields, fields?, fillFields_eq hnames hmovedDistinct fun _ _ => rfl]
    simp
  · intro name
    have hlookup := lookup_of_sameField hpairs name
    rwa [lookup_eq_of_perm hdistinct hmoved] at hlookup
  · intro name value hvalue
    exact depth_lt_of_mem_fields ((lookup_eq_some_iff_mem hmovedDistinct).1 hvalue)

/-! ## Reading back -/

variable {α : Type} {read : Document → Option α}

/-- However its entries are ordered, the form is read as the value. -/
def ReadsBack (read : Document → Option α) (form : Document) (value : α) : Prop :=
  ∀ document, form.Reordered document → read document = some value

theorem readsBack_text (s : String) : ReadsBack text? (.text s) s := by
  intro document h
  rw [h.eq_text]
  rfl

theorem readsBack_bool (b : Bool) : ReadsBack bool? (.bool b) b := by
  intro document h
  rw [h.eq_bool]
  rfl

theorem collect?_of_forall₂ {values : List α} {items : List Document}
    (h : List.Forall₂ (fun value item => read item = some value) values items) :
    collect? read items = some values := by
  induction h with
  | nil => rfl
  | cons hhead _ ih => simp [collect?, hhead, ih]

/-- A list reads back if each of its items does. -/
theorem readsBack_items {form : α → Document} {values : List α}
    (h : ∀ value ∈ values, ReadsBack read (form value) value) :
    ReadsBack (fun document => document.items?.bind (collect? read))
      (.list (values.map form)) values := by
  intro document hdocument
  obtain ⟨items, rfl, hitems⟩ := hdocument.exists_list
  rw [List.forall₂_map_left_iff] at hitems
  exact collect?_of_forall₂ (((List.forall₂_and_left _ _).2 ⟨h, hitems⟩).imp
    fun value item hitem => hitem.1 item hitem.2)

theorem readsBack_texts (texts : List String) : ReadsBack texts? (ofTexts texts) texts :=
  readsBack_items fun text _ => readsBack_text text

theorem Reordered.isNothing_eq {form document : Document} (h : form.Reordered document) :
    document.isNothing = form.isNothing := by
  cases h <;> rfl

/-- A field that is written only for a value that is there reads back. -/
theorem optional?_eq {form : α → Document} {value : Option α} {field : Option Document}
    (h : ∀ own, ReadsBack read (form own) own) (hform : ∀ own, (form own).isNothing = false)
    (hfield : Option.Rel Reordered (value.map form) field) : optional? read field = some value := by
  cases value with
  | none =>
    cases hfield
    rfl
  | some own =>
    cases hfield with
    | some hdocument => simp [optional?, hdocument.isNothing_eq, hform own, h own _ hdocument]

/-- A field that is always written is there. -/
theorem exists_of_rel_some {form : Document} {field : Option Document}
    (hfield : Option.Rel Reordered (some form) field) :
    ∃ document, field = some document ∧ form.Reordered document := by
  cases hfield with
  | some hdocument => exact ⟨_, rfl, hdocument⟩

theorem orDefault?_eq {form : Document} {value default : α} {field : Option Document}
    (h : ReadsBack read form value) (hfield : Option.Rel Reordered (some form) field) :
    orDefault? read default field = some value := by
  obtain ⟨document, rfl, hdocument⟩ := exists_of_rel_some hfield
  exact h document hdocument

/-! ## Nothing to settle -/

/-- However its entries are ordered, there is no plain scalar in the document. -/
def IsSettled (form : Document) : Prop :=
  ∀ document, form.Reordered document → document.settled? = some document

theorem isSettled_text (s : String) : IsSettled (.text s) := by
  intro document h
  rw [h.eq_text]
  rfl

theorem settledItems?_eq {items : List Document} (h : ∀ item ∈ items, item.settled? = some item) :
    settledItems? items = some items := by
  induction items with
  | nil => rfl
  | cons item items ih =>
    rw [List.forall_mem_cons] at h
    simp [settledItems?, h.1, ih h.2]

theorem settledEntries?_eq {pairs : List (String × Document)}
    (h : ∀ pair ∈ pairs, pair.2.settled? = some pair.2) :
    settledEntries? (pairs.map fun pair => (.text pair.1, pair.2)) =
      some (pairs.map fun pair => (.text pair.1, pair.2)) := by
  induction pairs with
  | nil => rfl
  | cons pair pairs ih =>
    rw [List.forall_mem_cons] at h
    simp [settledEntries?, settled?, h.1, ih h.2]

theorem isSettled_list {items : List Document} (h : ∀ item ∈ items, IsSettled item) :
    IsSettled (.list items) := by
  intro document hdocument
  obtain ⟨others, rfl, hitems⟩ := hdocument.exists_list
  rw [settled?, settledItems?_eq fun other hother => ?_]
  · rfl
  · obtain ⟨item, hitem, hreordered⟩ := exists_of_mem_forall₂ hitems.flip hother
    exact h item hitem other hreordered

theorem isSettled_ofFields {fields : List (String × Document)}
    (h : ∀ field ∈ fields, IsSettled field.2) : IsSettled (ofFields fields) := by
  intro document hdocument
  obtain ⟨pairs, moved, rfl, hpairs, hmoved⟩ := hdocument.exists_fields
  rw [ofFields, settled?, settledEntries?_eq fun pair hpair => ?_]
  · rfl
  · obtain ⟨field, hfield, hsame⟩ := exists_of_mem_forall₂ hpairs.flip (hmoved.mem_iff.2 hpair)
    exact h field hfield pair.2 hsame.2

end Document

end Parlance
