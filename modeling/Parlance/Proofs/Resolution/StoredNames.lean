import Parlance.Proofs.Resolution.Storing

/-!
# Names that values are stored under

Verification keeps the names apart under which a usage stores its values, but for
some pairs that it does not compare: a free flag with the positional values of a
usage, and a free flag with the values that are inherited from above it. These are
the only pairs that can clash.
-/

set_option autoImplicit false

namespace Parlance

variable {Act : Type}

/-! ## Usages of a node -/

/-- The usage is one that the node may come to run, as it is seen from the root. -/
def Node.Offers (node : Node Act) (usage : Usage Act) : Prop :=
  (∃ e ∈ node.effective, e.usage = usage) ∨ usage = node.effectiveDefault

/-- No positional value of the usage, and no flag that leads to the node, has the
name of a free flag in scope. -/
def Node.SparesFreeFlags (node : Node Act) (usage : Usage Act) : Prop :=
  (∀ p ∈ usage.positional, p.isLiteral = false → p.name ∉ node.scopeFlags.map Flag.name) ∧
    ∀ p ∈ node.lead, p.isFlag = true → p.name ∉ node.scopeFlags.map Flag.name

theorem EffectiveUsage.exists_of_mem_behind {lead : List Parameter} {index : Nat}
    {usages : List (Usage Act)} {e : EffectiveUsage Act} (h : e ∈ behind lead index usages) :
    ∃ usage ∈ usages, e.usage = usage.behind lead := by
  induction usages generalizing index with
  | nil => simp [behind] at h
  | cons usage usages ih =>
    rcases List.mem_cons.1 h with rfl | h
    · exact ⟨usage, List.mem_cons_self, rfl⟩
    · obtain ⟨other, hmem, heq⟩ := ih h
      exact ⟨other, List.mem_cons_of_mem _ hmem, heq⟩

/-- What a node comes to run is a declared usage behind the lead, or nothing but that. -/
theorem Node.IsSound.exists_behind {node : Node Act} (h : node.IsSound) {usage : Usage Act}
    (husage : node.Offers usage) :
    ∃ declared, (declared ∈ node.usages ∨ declared = node.defaultUsage) ∧
      usage = declared.behind node.lead := by
  rcases husage with ⟨e, he, rfl⟩ | rfl
  · rw [h.effective, mem_arrange] at he
    obtain ⟨declared, hmem, heq⟩ := EffectiveUsage.exists_of_mem_behind he
    exact ⟨declared, .inl hmem, heq⟩
  · exact ⟨node.defaultUsage, .inr rfl, h.effectiveDefault⟩

/-- A usage of a sound node is a declared one behind the lead, and verification
compared the declared one with the values of the lead and, as to its flags, with
the free flags in scope. -/
theorem Node.IsSound.exists_declared {node : Node Act} (h : node.IsSound) {usage : Usage Act}
    (husage : node.Offers usage) :
    ∃ declared : Usage Act, usage = declared.behind node.lead ∧
      (valueNames node.lead ++ valueNames declared.parameters).Nodup ∧
      ∀ p ∈ declared.parameters, p.isFlag = true → p.name ∉ node.scopeFlags.map Flag.name := by
  obtain ⟨declared, hdeclared, rfl⟩ := h.exists_behind husage
  rcases hdeclared with hmem | rfl
  · refine ⟨declared, rfl, ?_, ?_⟩
    · rw [List.nodup_append]
      refine ⟨h.leadDistinct, (h.usages declared hmem).nodup_valueNames, ?_⟩
      rintro name hlead _ hvalue rfl
      obtain ⟨p, hp, hliteral, rfl⟩ := mem_valueNames.1 hvalue
      have hclash := h.unclashing declared hmem p hp
      simp [Parameter.clashes, hliteral, hlead] at hclash
    · intro p hp hflag hname
      obtain ⟨flag, hscope, heq⟩ := List.mem_map.1 hname
      have hclash := h.unclashing declared hmem p hp
      have hown : p.name ∈ p.claimedNames := by
        unfold Parameter.claimedNames
        split <;> simp
      have hfree : p.name ∈ node.scopeFlags.flatMap Flag.names :=
        List.mem_flatMap.2 ⟨flag, hscope, by simp [Flag.names, heq]⟩
      simp only [Parameter.clashes, hflag, Bool.true_and, Bool.or_eq_false_iff,
        List.any_eq_false] at hclash
      exact hclash.2 p.name hown (List.contains_iff_mem.2 hfree)
  · refine ⟨node.defaultUsage, rfl, ?_, ?_⟩
    · rw [h.defaultEmpty]
      simpa [valueNames] using h.leadDistinct
    · simp [h.defaultEmpty]

/-! ## Distinct names -/

theorem valueNames_numberFrom (next : Nat) (ps : List Parameter) :
    valueNames (Usage.numberFrom next ps) = valueNames ps := by
  have hview : ∀ qs : List Parameter, valueNames qs =
      qs.filterMap fun p => if p.isLiteral then none else some p.name := by
    intro qs
    induction qs with
    | nil => rfl
    | cons q qs ih => cases hliteral : q.isLiteral <;> simp_all [valueNames]
  rw [hview, hview, Usage.filterMap_numberFrom fun _ _ => rfl]

theorem valueNames_behind (usage : Usage Act) (lead : List Parameter) :
    valueNames (usage.behind lead).parameters =
      valueNames lead ++ valueNames usage.parameters := by
  rw [Usage.behind, valueNames_numberFrom, valueNames_append]

theorem Node.IsSound.nodup_scopeNames {node : Node Act} (h : node.IsSound) :
    (node.scopeFlags.map Flag.name).Nodup := by
  have hsublist : ∀ flags : List Flag,
      (flags.map Flag.name).Sublist (flags.flatMap Flag.names) := by
    intro flags
    induction flags with
    | nil => exact List.Sublist.slnil
    | cons flag flags ih =>
      rw [List.map_cons, List.flatMap_cons, Flag.names, List.cons_append]
      exact (ih.trans (List.sublist_append_right _ _)).cons_cons _
  exact (hsublist node.scopeFlags).nodup h.scopeDistinct

/-- The names of a usage of a sound node are distinct exactly if no free flag in
scope has the name of a positional value or of a flag of the lead. -/
theorem Node.IsSound.nodup_storedNames_iff {node : Node Act} (h : node.IsSound)
    {usage : Usage Act} (husage : node.Offers usage) :
    (node.storedNames usage).Nodup ↔ node.SparesFreeFlags usage := by
  obtain ⟨declared, rfl, hvalues, hflags⟩ := h.exists_declared husage
  rw [storedNames, List.nodup_append, valueNames_behind]
  constructor
  · rintro ⟨-, -, hapart⟩
    refine ⟨?_, ?_⟩
    · intro p hp hliteral hscope
      have hname : p.name ∈ valueNames (declared.behind node.lead).parameters :=
        mem_valueNames.2 ⟨p, (List.mem_filter.1 hp).1, hliteral, rfl⟩
      rw [valueNames_behind] at hname
      exact hapart _ hname _ hscope rfl
    · intro p hp hflag hscope
      have hliteral : p.isLiteral = false := by
        cases hkind : p.kind <;> simp_all [Parameter.isLiteral, Parameter.isFlag]
      have hname : p.name ∈ valueNames node.lead := mem_valueNames.2 ⟨p, hp, hliteral, rfl⟩
      exact hapart _ (List.mem_append_left _ hname) _ hscope rfl
  · rintro ⟨hpositional, hlead⟩
    refine ⟨hvalues, h.nodup_scopeNames, ?_⟩
    rintro name hname _ hscope rfl
    rw [← valueNames_behind] at hname
    obtain ⟨p, hp, hliteral, rfl⟩ := mem_valueNames.1 hname
    cases hflag : p.isFlag with
    | false => exact hpositional p (List.mem_filter.2 ⟨hp, by simp [hflag]⟩) hliteral hscope
    | true =>
      -- A flag is one of the lead, or a declared one and so compared already.
      obtain ⟨q, hq, heq⟩ := Usage.exists_of_mem_numberFrom hp
      have hqflag : q.isFlag = true := by rw [← hflag, heq]; rfl
      have hqname : q.name = p.name := by rw [heq]
      rw [← hqname] at hscope
      rcases List.mem_append.1 hq with hq | hq
      · exact hlead q hq hqflag hscope
      · exact hflags q hq hqflag hscope

/-! ## Verified commands -/

/-- Wherever a usage stands in the tree of a verified command, its values have
names of their own exactly if no free flag in scope has the name of a positional
value or of a flag of the lead, and then none of them is lost in resolving. -/
theorem Command.keeps_values_of_verify {command : Command Act} (hverify : command.verify = .ok ())
    {trail : List (Node Act)} {node : Node Act} (hdescent : command.link.Descent trail node)
    {usage : Usage Act} (husage : node.Offers usage) :
    ((node.storedNames usage).Nodup ↔ node.SparesFreeFlags usage) ∧
    (node.SparesFreeFlags usage → ∀ (m : Matcher) (source : Source) (tokens : List String)
      (trailing : Trailing) (arguments : Arguments),
      m.resolve source node usage tokens trailing = .ok arguments →
      m.Keeps source node usage tokens arguments) := by
  have hiff := (Command.isSoundTree_link hverify trail node hdescent).nodup_storedNames_iff husage
  refine ⟨hiff, ?_⟩
  intro hspares m source tokens trailing arguments h
  exact m.keeps_of_resolve (hiff.2 hspares) h

/-- A group of players that can be renamed, with a free switch. -/
def grouping : Command Unit where
  name := "group"
  usages := [.ofParameters [{ name := "group", kind := .required .string },
    { name := "force", kind := .flag [] none none }]]
  freeFlags := [{ name := "silent", aliases := ["s"] }]
  children := [{
    name := "rename"
    attachment := .main
    usages := [.ofParameters [{ name := "title", kind := .required .string }]] }]

/-- A subcommand stores its own value, those that lead to it and the free switch. -/
theorem Command.keeps_values_of_verify_grouping :
    ∃ (trail : List (Node Unit)) (node : Node Unit) (usage : Usage Unit),
      grouping.verify = .ok () ∧ grouping.link.Descent trail node ∧ node.Offers usage ∧
      node.storedNames usage = ["group", "force", "title", "silent"] ∧
      (node.storedNames usage).Nodup := by
  have hverify : grouping.verify = .ok () := rfl
  obtain ⟨child, hchild, e, heffective, hnames, hspares⟩ :
      ∃ child, grouping.link.children = [child] ∧ ∃ e, child.effective = [e] ∧
        child.storedNames e.usage = ["group", "force", "title", "silent"] ∧
        child.SparesFreeFlags e.usage :=
    ⟨_, rfl, _, rfl, rfl, by decide, by decide⟩
  have hdescent : grouping.link.Descent [child] child := .down (by simp [hchild]) (.here child)
  have hoffers : child.Offers e.usage := .inl ⟨e, by simp [heffective], rfl⟩
  exact ⟨[child], child, e.usage, hverify, hdescent, hoffers, hnames,
    (Command.keeps_values_of_verify hverify hdescent hoffers).1.2 hspares⟩

/-- A command with a free switch that has the name of its positional value. -/
def muting : Command Unit where
  name := "say"
  usages := [.ofParameters [{ name := "silent", kind := .required .string }]]
  freeFlags := [{ name := "silent" }]

/-- Verification accepts a free switch with the name of a positional value, and the
value is lost. -/
theorem Command.loses_value_muting :
    ∃ usage : Usage Unit, muting.verify = .ok () ∧ muting.link.Descent [] muting.link ∧
      muting.link.Offers usage ∧ ¬ (muting.link.storedNames usage).Nodup ∧
      ∃ arguments, Matcher.resolve {} .console muting.link usage ["hello"] .reject =
        .ok arguments ∧ arguments.get? "silent" = some (.bool false) := by
  have hoffers : muting.link.Offers (Usage.behind _ []) := .inl ⟨_, List.mem_cons_self, rfl⟩
  refine ⟨_, rfl, .here _, hoffers, ?_, _, rfl, rfl⟩
  decide

end Parlance
