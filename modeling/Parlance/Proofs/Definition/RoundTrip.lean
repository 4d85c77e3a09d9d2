import Parlance.Definition.Form
import Parlance.Proofs.Document.Reordered

/-!
# Definitions survive as documents

A definition that is written as a document is read from it as it was, however deep its
subcommands lie and in whatever order the entries of records are kept
(`TreeDefinition.ofDocument?_form`): what is left out in writing is what reading takes as
missing.
-/

set_option autoImplicit false

namespace Parlance

open Document

variable {n : Notation}

/-! ## Types and flags -/

theorem Attachment.readsBack (attachment : Attachment) :
    ReadsBack (Attachment.ofDocument? n) attachment.form attachment := by
  intro document h
  cases attachment <;> rw [h.eq_text] <;> rfl

/-- A case that carries data is told by its name, and its data by a reordering of them. -/
theorem exists_variant {name : String} {inner document : Document}
    (h : (ofVariant n name inner).Reordered document) :
    ∃ other, document.variant? n = some (name, some other) ∧ inner.Reordered other := by
  cases n with
  | json =>
    have hfields : ofVariant .json name inner = ofFields [(name, inner)] := rfl
    rw [hfields] at h
    obtain ⟨pairs, moved, rfl, hpairs, hmoved⟩ := h.exists_fields
    obtain ⟨⟨own, other⟩, rest, ⟨rfl, hinner⟩, hrest, rfl⟩ := List.forall₂_cons_left_iff.1 hpairs
    cases hrest
    obtain rfl := List.singleton_perm.1 hmoved
    exact ⟨other, rfl, hinner⟩
  | yaml =>
    obtain ⟨other, rfl, hinner⟩ := h.exists_tagged
    exact ⟨other, rfl, hinner⟩

theorem ValueType.readsBack (type : ValueType) :
    ReadsBack (ValueType.ofDocument? n) (type.form n) type := by
  intro document h
  cases type with
  | choice words =>
    obtain ⟨other, hvariant, hwords⟩ := exists_variant h
    simp [ValueType.ofDocument?, hvariant, readsBack_texts words other hwords]
  | custom key =>
    obtain ⟨other, hvariant, hkey⟩ := exists_variant h
    simp [ValueType.ofDocument?, hvariant, readsBack_text key other hkey]
  | _ => rw [h.eq_text]; rfl

theorem ValueType.isNothing_form (type : ValueType) : (type.form n).isNothing = false := by
  cases type <;> cases n <;> rfl

/-! ## Optional fields -/

theorem lookup_optionalField (name own : String) (value : Option Document) :
    (optionalField own value).lookup name = if name = own then value else none := by
  cases value with
  | none => simp [optionalField]
  | some document => rw [optionalField, lookup_cons_ite, List.lookup_nil]

theorem keys_optionalField_sublist (own : String) (value : Option Document) :
    ((optionalField own value).map Prod.fst).Sublist [own] := by
  cases value <;> simp [optionalField]

/-- The fields that are written of a flag. -/
def FlagDefinition.fields (n : Notation) (d : FlagDefinition) : List (String × Document) :=
  [("name", .text d.name), ("aliases", ofTexts d.aliases)]
    ++ optionalField "type" (d.type.map (ValueType.form n))
    ++ optionalField "default" (d.fallback.map .text)

theorem FlagDefinition.keys_fields_sublist (d : FlagDefinition) :
    ((d.fields n).map Prod.fst).Sublist flagFields := by
  rw [fields, List.map_append, List.map_append]
  exact ((List.Sublist.refl _).append (keys_optionalField_sublist _ _)).append
    (keys_optionalField_sublist _ _)

theorem FlagDefinition.readsBack (d : FlagDefinition) :
    ReadsBack (FlagDefinition.ofDocument? n) (d.form n) d := by
  intro document h
  have hnames : flagFields.Nodup := by decide
  obtain ⟨field, hfields, hfield, -⟩ :=
    Reordered.fields?_eq hnames (d.keys_fields_sublist.nodup hnames) h
  simp only [fields, List.lookup_append, lookup_cons_ite, lookup_optionalField] at hfield
  obtain ⟨nameDocument, hnameField, hname⟩ := exists_of_rel_some (by simpa using hfield "name")
  have hname := readsBack_text d.name nameDocument hname
  have haliases : orDefault? texts? [] (field "aliases") = some d.aliases :=
    orDefault?_eq (readsBack_texts d.aliases) (by simpa using hfield "aliases")
  have htype : optional? (ValueType.ofDocument? n) (field "type") = some d.type :=
    optional?_eq ValueType.readsBack ValueType.isNothing_form (by simpa using hfield "type")
  have hfallback : optional? text? (field "default") = some d.fallback :=
    optional?_eq readsBack_text (fun _ => rfl) (by simpa using hfield "default")
  unfold FlagDefinition.ofDocument?
  rw [hfields]
  simp [flagFields, hnameField, hname, haliases, htype, hfallback]

/-! ## Usages -/

theorem collectEntries?_of_forall₂ {pairs : List (String × Document)}
    {entries : List (String × List String)} (h : List.Forall₂
      (fun pair entry => pair.1 = entry.1 ∧ pair.2.texts? = some entry.2) pairs entries) :
    hintsOfDocument?.collectEntries? (pairs.map fun pair => (.text pair.1, pair.2)) =
      some entries := by
  induction h with
  | nil => rfl
  | @cons pair entry pairs entries hhead _ ih =>
    simp [hintsOfDocument?.collectEntries?, text?, hhead.1, hhead.2, ih]

theorem readsBack_hints (hints : NameMap (List String)) :
    ReadsBack hintsOfDocument? (hintsForm hints) hints := by
  intro document h
  obtain ⟨pairs, moved, rfl, hpairs, hmoved⟩ := h.exists_fields
  have hread : List.Forall₂ (fun pair entry => pair.1 = entry.1 ∧ pair.2.texts? = some entry.2)
      pairs hints.entries := by
    refine ((List.forall₂_map_left_iff.1 hpairs).imp ?_).flip
    rintro entry pair ⟨hname, hwords⟩
    exact ⟨hname.symm, readsBack_texts entry.2 _ hwords⟩
  obtain ⟨back, hback, hperm⟩ := List.perm_comp_forall₂ hmoved.symm hread
  simp [hintsOfDocument?, ofFields, collectEntries?_of_forall₂ hback,
    NameMap.ofList_eq_of_perm hperm]

theorem isSettled_texts (texts : List String) : IsSettled (ofTexts texts) := by
  refine isSettled_list fun item hitem => ?_
  obtain ⟨text, -, rfl⟩ := List.mem_map.1 hitem
  exact isSettled_text text

theorem isSettled_hints (hints : NameMap (List String)) : IsSettled (hintsForm hints) := by
  refine isSettled_ofFields fun field hfield => ?_
  obtain ⟨entry, -, rfl⟩ := List.mem_map.1 hfield
  exact isSettled_texts entry.2

theorem isSettled_optionalText {own : String} {value : Option String} {field : String × Document}
    (h : field ∈ optionalField own (value.map .text)) : IsSettled field.2 := by
  cases value with
  | none => simp [optionalField] at h
  | some text =>
    obtain rfl := List.mem_singleton.1 h
    exact isSettled_text text

namespace UsageDefinition

variable {compact : String} {permission description : Option String}
  {hints : NameMap (List String)}

/-- The fields that are written of a detailed usage. -/
def fields (compact : String) (permission description : Option String)
    (hints : NameMap (List String)) : List (String × Document) :=
  [("syntax", .text compact)]
    ++ optionalField "permission" (permission.map .text)
    ++ optionalField "description" (description.map .text)
    ++ [("suggestions", hintsForm hints)]

theorem keys_fields_sublist :
    ((fields compact permission description hints).map Prod.fst).Sublist usageFields := by
  rw [fields, List.map_append, List.map_append, List.map_append]
  exact (((List.Sublist.refl _).append (keys_optionalField_sublist _ _)).append
    (keys_optionalField_sublist _ _)).append (List.Sublist.refl _)

theorem isSettled_fields : IsSettled (ofFields (fields compact permission description hints)) := by
  refine isSettled_ofFields fun field hfield => ?_
  simp only [fields, List.mem_append, List.mem_singleton] at hfield
  rcases hfield with ((rfl | hpermission) | hdescription) | rfl
  · exact isSettled_text compact
  · exact isSettled_optionalText hpermission
  · exact isSettled_optionalText hdescription
  · exact isSettled_hints hints

theorem readsBack_fields {entries : List (Document × Document)}
    (h : (ofFields (fields compact permission description hints)).Reordered (.record entries)) :
    ofEntries? entries = some (.detailed compact permission description hints) := by
  have hnames : usageFields.Nodup := by decide
  obtain ⟨field, hfields, hfield, -⟩ := h.fields?_eq hnames (keys_fields_sublist.nodup hnames)
  simp only [fields, List.lookup_append, lookup_cons_ite, lookup_optionalField] at hfield
  obtain ⟨document, hcompactField, hcompact⟩ :=
    exists_of_rel_some (by simpa using hfield "syntax")
  have hcompact := readsBack_text compact document hcompact
  have hpermission : optional? text? (field "permission") = some permission :=
    optional?_eq readsBack_text (fun _ => rfl) (by simpa using hfield "permission")
  have hdescription : optional? text? (field "description") = some description :=
    optional?_eq readsBack_text (fun _ => rfl) (by simpa using hfield "description")
  have hhints : orDefault? hintsOfDocument? {} (field "suggestions") = some hints :=
    orDefault?_eq (readsBack_hints hints) (by simpa using hfield "suggestions")
  unfold ofEntries?
  rw [hfields]
  simp [usageFields, hcompactField, hcompact, hpermission, hdescription, hhints]

/-- A usage without anything that belongs to it is a text, any other a record, so neither is
taken for the other. -/
theorem readsBack (d : UsageDefinition) : ReadsBack UsageDefinition.ofDocument? d.form d := by
  intro document h
  cases d with
  | bare compact =>
    rw [h.eq_text]
    rfl
  | detailed compact permission description hints =>
    have hsettled := isSettled_fields document h
    obtain ⟨-, moved, rfl, -, -⟩ := Reordered.exists_fields h
    unfold UsageDefinition.ofDocument?
    rw [hsettled]
    exact readsBack_fields h

end UsageDefinition

/-! ## Commands -/

namespace CommandDefinition

theorem sizeOf_lt_of_mem_subcommands {d lower : CommandDefinition} (h : lower ∈ d.subcommands) :
    sizeOf lower < sizeOf d := by
  cases d with
  | mk name aliases description permission usages flags subcommands attachment ignoresPermission =>
    have hlt : sizeOf lower < sizeOf subcommands := List.sizeOf_lt_of_mem h
    simp only [CommandDefinition.mk.sizeOf_spec]
    omega

/-- What holds of a definition when it holds of all its subcommands holds of every
definition. -/
@[elab_as_elim]
theorem induct {motive : CommandDefinition → Prop}
    (step : ∀ d, (∀ lower ∈ d.subcommands, motive lower) → motive d) (d : CommandDefinition) :
    motive d :=
  step d fun lower _ => induct step lower
termination_by sizeOf d
decreasing_by exact sizeOf_lt_of_mem_subcommands ‹_›

theorem forms_eq_map (ds : List CommandDefinition) : forms n ds = ds.map (form n) := by
  induction ds with
  | nil => rfl
  | cons d ds ih => rw [forms, ih, List.map_cons]

/-- The fields that are written of a command. -/
def fields (n : Notation) (d : CommandDefinition) : List (String × Document) :=
  [("name", .text d.name), ("aliases", ofTexts d.aliases)]
    ++ optionalField "description" (d.description.map .text)
    ++ optionalField "permission" (d.permission.map .text)
    ++ [("usages", .list (d.usages.map UsageDefinition.form)),
      ("flags", .list (d.flags.map (FlagDefinition.form n))),
      ("subcommands", .list (d.subcommands.map (form n))),
      ("attachment", d.attachment.form),
      ("suggestions_ignore_permission", .bool d.ignoresPermission)]

theorem form_eq (d : CommandDefinition) : d.form n = ofFields (d.fields n) := by
  cases d
  rw [form, forms_eq_map]
  rfl

theorem keys_fields_sublist (d : CommandDefinition) :
    ((d.fields n).map Prod.fst).Sublist commandFields := by
  rw [fields, List.map_append, List.map_append, List.map_append]
  exact (((List.Sublist.refl _).append (keys_optionalField_sublist _ _)).append
    (keys_optionalField_sublist _ _)).append (List.Sublist.refl _)

/-- Subcommands read back if each of them does where it is not too deep. -/
theorem readsBack_subcommands {ds : List CommandDefinition} {levels : Nat} {document : Document}
    (h : ∀ lower ∈ ds, ∀ item, (lower.form n).Reordered item → item.depth < levels →
      ofDocument? n levels item = some lower)
    (hdocument : (Document.list (ds.map (form n))).Reordered document)
    (hdepth : document.depth ≤ levels) : listOf? (ofDocument? n levels) document = some ds := by
  obtain ⟨items, rfl, hitems⟩ := hdocument.exists_list
  rw [List.forall₂_map_left_iff] at hitems
  have hread : List.Forall₂ (fun lower item => ofDocument? n levels item = some lower) ds items := by
    refine List.forall₂_iff_zip.2 ⟨hitems.length_eq, fun {lower item} hmem => ?_⟩
    have hitem := depth_lt_of_mem_items (List.of_mem_zip hmem).2
    exact h lower (List.of_mem_zip hmem).1 item (List.forall₂_zip hitems hmem) (by omega)
  exact collect?_of_forall₂ hread

/-- A definition reads back where there are more levels than its document is deep. -/
theorem readsBack (d : CommandDefinition) : ∀ (levels : Nat) (document : Document),
    (d.form n).Reordered document → document.depth < levels →
      ofDocument? n levels document = some d := by
  induction d using induct with
  | step d ih =>
    intro levels document h hdepth
    obtain ⟨levels, rfl⟩ := Nat.exists_eq_succ_of_ne_zero (Nat.ne_zero_of_lt hdepth)
    rw [form_eq] at h
    have hnames : commandFields.Nodup := by decide
    obtain ⟨field, hfields, hfield, hdeeper⟩ :=
      h.fields?_eq hnames (d.keys_fields_sublist.nodup hnames)
    simp only [fields, List.lookup_append, lookup_cons_ite, lookup_optionalField] at hfield
    obtain ⟨nameDocument, hnameField, hname⟩ := exists_of_rel_some (by simpa using hfield "name")
    have hname := readsBack_text d.name nameDocument hname
    have haliases : orDefault? texts? [] (field "aliases") = some d.aliases :=
      orDefault?_eq (readsBack_texts d.aliases) (by simpa using hfield "aliases")
    have hdescription : optional? text? (field "description") = some d.description :=
      optional?_eq readsBack_text (fun _ => rfl) (by simpa using hfield "description")
    have hpermission : optional? text? (field "permission") = some d.permission :=
      optional?_eq readsBack_text (fun _ => rfl) (by simpa using hfield "permission")
    have husages : orDefault? (listOf? UsageDefinition.ofDocument?) [] (field "usages") =
        some d.usages :=
      orDefault?_eq (readsBack_items fun usage _ => usage.readsBack)
        (by simpa using hfield "usages")
    have hflags : orDefault? (listOf? (FlagDefinition.ofDocument? n)) [] (field "flags") =
        some d.flags :=
      orDefault?_eq (readsBack_items fun flag _ => flag.readsBack) (by simpa using hfield "flags")
    have hattachment : orDefault? (Attachment.ofDocument? n) .direct (field "attachment") =
        some d.attachment :=
      orDefault?_eq d.attachment.readsBack (by simpa using hfield "attachment")
    have hignores : orDefault? bool? false (field "suggestions_ignore_permission") =
        some d.ignoresPermission :=
      orDefault?_eq (readsBack_bool d.ignoresPermission)
        (by simpa using hfield "suggestions_ignore_permission")
    obtain ⟨listDocument, hlistField, hlist⟩ :=
      exists_of_rel_some (by simpa using hfield "subcommands")
    have hlt := hdeeper _ _ hlistField
    have hsubcommands : orDefault? (listOf? (ofDocument? n levels)) [] (field "subcommands") =
        some d.subcommands := by
      rw [hlistField]
      exact readsBack_subcommands (fun lower hlower => ih lower hlower levels) hlist (by omega)
    unfold ofDocument?
    rw [hfields]
    simp [commandFields, hnameField, hname, haliases, hdescription, hpermission, husages, hflags,
      hsubcommands, hattachment, hignores]
    cases d
    rfl

end CommandDefinition

/-! ## Trees -/

theorem TreeDefinition.readsBack (tree : TreeDefinition) :
    ReadsBack (TreeDefinition.ofDocument? n) (tree.form n) tree := by
  intro document h
  rw [form, CommandDefinition.forms_eq_map] at h
  have hdistinct : ([("commands", Document.list (tree.commands.map (CommandDefinition.form n)))].map
      Prod.fst).Nodup := List.nodup_singleton _
  have hnames : ["commands"].Nodup := List.nodup_singleton _
  obtain ⟨field, hfields, hfield, hdeeper⟩ := h.fields?_eq hnames hdistinct
  obtain ⟨value, hvalue, hlist⟩ := exists_of_rel_some (by simpa using hfield "commands")
  have hlt := hdeeper _ _ hvalue
  have hread : listOf? (CommandDefinition.ofDocument? n (document.depth + 1)) value =
      some tree.commands :=
    CommandDefinition.readsBack_subcommands (fun lower _ item => lower.readsBack _ item) hlist
      (by omega)
  unfold ofDocument?
  rw [hfields]
  simp [hvalue, orDefault?, hread]

/-- A tree that is written as a document is read from it as it was, however the entries of
its records are ordered, and so all of its commands are built alike. -/
theorem TreeDefinition.ofDocument?_form (n : Notation) (tree : TreeDefinition) :
    TreeDefinition.ofDocument? n (tree.form n) = some tree ∧
    ∀ document, (tree.form n).Reordered document → ∃ read,
      TreeDefinition.ofDocument? n document = some read ∧ read = tree ∧
      ∀ (Act : Type) (action : Option Act),
        read.commands.map (CommandDefinition.build action) =
          tree.commands.map (CommandDefinition.build action) := by
  refine ⟨tree.readsBack _ (.same _), ?_⟩
  intro document hdocument
  exact ⟨tree, tree.readsBack document hdocument, rfl, fun _ _ => rfl⟩

/-- The document with the entries of its record, if it is one, from the last to the first. -/
def Document.turned : Document → Document
  | .record entries => .record entries.reverse
  | other => other

theorem Document.reordered_turned (document : Document) : document.Reordered document.turned := by
  cases document with
  | record entries =>
    have hsame : List.Forall₂ (fun a b => a.2.Reordered b.2) entries entries :=
      List.forall₂_same.2 fun entry _ => .same entry.2
    exact .record rfl hsame (List.reverse_perm entries).symm
  | _ => exact .same _

/-- A jail with a subcommand, in which everything is given that may be left out. -/
def jailing : TreeDefinition where
  commands := [{
    name := "jail"
    permission := some "mod.jail"
    usages := [
      .bare "<player> [time:duration]",
      .detailed "list [page:integer]" none (some "Lists the jailed")
        (.ofList [("page", ["1", "2"])])]
    flags := [
      { name := "cell", type := some (.choice ["small", "large"]), fallback := some "small" },
      { name := "silent", aliases := ["s"] }]
    subcommands := [{ name := "free", attachment := .main, usages := [.bare "<player>"] }]
    ignoresPermission := true }]

/-- The jail is read from a document with the entries of the command in another order. -/
theorem TreeDefinition.ofDocument?_form_jailing :
    ∃ document, document = .ofFields [("commands",
        .list (jailing.commands.map fun d => (d.form .json).turned))] ∧
      (jailing.form .json).Reordered document ∧
      TreeDefinition.ofDocument? .json document = some jailing := by
  have hlist : (Document.list (CommandDefinition.forms .json jailing.commands)).Reordered
      (.list (jailing.commands.map fun d => (d.form .json).turned)) :=
    .list (.cons (Document.reordered_turned _) .nil)
  have hcommands : List.Forall₂ (fun a b : Document × Document => a.2.Reordered b.2)
      [(.text "commands", _)] [(.text "commands", _)] := .cons hlist .nil
  have hreordered : (jailing.form .json).Reordered _ := .record (by rfl) hcommands (.refl _)
  obtain ⟨read, hread, rfl, -⟩ := (jailing.ofDocument?_form .json).2 _ hreordered
  exact ⟨_, rfl, hreordered, hread⟩

end Parlance
