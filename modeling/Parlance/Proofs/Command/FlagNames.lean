import Parlance.Proofs.Command.WellFormed
import Parlance.Proofs.Resolution.StoredNames

/-!
# Names that flags are typed by

A token names the first flag in effect that has the word behind the dashes as a name or
an alias, so a flag whose names are all its own is reached by each of them. Verification
keeps the names of a usage's own flags and of the free flags in scope apart. The flags
that come with the lead of a node are compared by their names alone, and not with the
free flags that are declared below them; these are the only flags that may share a name
with others (`Command.flags_reachable_of_verify`).
-/

set_option autoImplicit false

namespace Parlance

variable {Act : Type}

/-! ## Naming a flag -/

theorem flagWord?_dash {name : String} (h : IsFlagName name) :
    flagWord? ("-" ++ name) = some name ∧ flagWord? ("--" ++ name) = some name := by
  obtain ⟨c, cs, hname⟩ : ∃ c cs, name.toList = c :: cs :=
    List.exists_cons_of_ne_nil (mt String.toList_eq_nil_iff.1 h.nonempty)
  have hdash : c ≠ '-' := by simpa [hname] using h.undashed
  have hback : String.ofList (c :: cs) = name := by rw [← hname, String.ofList_toList]
  have hone : ("-" ++ name).toList = '-' :: c :: cs := by simp [hname]
  have htwo : ("--" ++ name).toList = '-' :: '-' :: c :: cs := by simp [hname]
  refine ⟨?_, ?_⟩
  · simp [flagWord?, hone, hdash, hback]
  · simp [flagWord?, htwo, hback]

/-- Of flags with distinct names only one has a name. -/
theorem find?_isNamed {flags : List Flag} (hdistinct : (flags.flatMap Flag.names).Nodup)
    {flag : Flag} (hflag : flag ∈ flags) {name : String} (hname : name ∈ flag.names) :
    flags.find? (fun flag => flag.isNamed name) = some flag := by
  have hnamed : flag.isNamed name = true := List.contains_iff_mem.2 hname
  apply find?_eq_some_of_unique hflag hnamed
  intro other hother hnamed
  exact eq_of_mem_of_nodup_flatMap hdistinct hother hflag (List.contains_iff_mem.1 hnamed) hname

/-- A flag whose names are its own is reached by each of them, behind one dash or two. -/
theorem matchFlag?_eq_some {flags : List Flag} (hdistinct : (flags.flatMap Flag.names).Nodup)
    {flag : Flag} (hflag : flag ∈ flags) {name : String} (hname : name ∈ flag.names)
    (htypable : IsFlagName name) :
    matchFlag? flags ("-" ++ name) = some flag ∧ matchFlag? flags ("--" ++ name) = some flag := by
  obtain ⟨hone, htwo⟩ := flagWord?_dash htypable
  have hfind := find?_isNamed hdistinct hflag hname
  rw [matchFlag?, hone, matchFlag?, htwo]
  exact ⟨hfind, hfind⟩

/-! ## Flags in effect -/

/-- The flags that come with the lead of the node. -/
def Node.leadFlags (node : Node Act) : List Flag :=
  node.lead.filterMap Parameter.flag?

theorem Usage.flags_behind (usage : Usage Act) (lead : List Parameter) :
    (usage.behind lead).flags = lead.filterMap Parameter.flag? ++ usage.flags := by
  rw [flags, behind, filterMap_numberFrom (fun _ _ => rfl), List.filterMap_append, ← flags]

/-- The names of a usage's flags are among those that its parameters take up. -/
theorem Usage.IsConsistent.nodup_flagNames {usage : Usage Act} (h : usage.IsConsistent) :
    (usage.flags.flatMap Flag.names).Nodup := by
  have hsublist : ∀ ps : List Parameter,
      ((ps.filterMap Parameter.flag?).flatMap Flag.names).Sublist
        (ps.flatMap Parameter.claimedNames) := by
    intro ps
    induction ps with
    | nil => exact List.Sublist.slnil
    | cons p ps ih =>
      rw [List.flatMap_cons]
      cases hflag : p.flag? with
      | none =>
        rw [List.filterMap_cons_none hflag]
        exact ih.trans (List.sublist_append_right _ _)
      | some flag =>
        rw [List.filterMap_cons_some hflag, List.flatMap_cons,
          Parameter.claimedNames_of_flag? hflag]
        exact ih.append_left _
  exact (hsublist usage.parameters).nodup h.distinct

/-- No flag that comes with the lead shares a name with another one of these, with a flag
of the usage or with a free flag in scope. -/
structure Node.LeadFlagsApart (node : Node Act) (usage : Usage Act) : Prop where
  lead : (node.leadFlags.flatMap Flag.names).Nodup
  own : ∀ name ∈ node.leadFlags.flatMap Flag.names, name ∉ usage.flags.flatMap Flag.names
  scope : ∀ name ∈ node.leadFlags.flatMap Flag.names, name ∉ node.scopeFlags.flatMap Flag.names

section Sound

variable {node : Node Act} {usage : Usage Act}

/-- Verification keeps a usage's own flags apart from each other and from the free ones. -/
theorem Node.IsSound.nodup_ownNames (h : node.IsSound)
    (husage : usage ∈ node.usages ∨ usage = node.defaultUsage) :
    ((usage.flags ++ node.scopeFlags).flatMap Flag.names).Nodup := by
  rw [List.flatMap_append, List.nodup_append]
  rcases husage with husage | rfl
  · have hunshadowed := (Command.unclashing_iff.1 (h.unclashing usage husage)).2
    refine ⟨(h.usages usage husage).nodup_flagNames, h.scopeDistinct, ?_⟩
    rintro name hname _ hscope rfl
    obtain ⟨flag, hflag, hmem⟩ := List.mem_flatMap.1 hname
    exact hunshadowed flag hflag name hmem hscope
  · have hnone : node.defaultUsage.flags = [] := by
      rw [Usage.flags, h.defaultEmpty, List.filterMap_nil]
    rw [hnone]
    exact ⟨List.nodup_nil, h.scopeDistinct, by simp⟩

/-- The flags in effect have names of their own exactly if those of the lead have. -/
theorem Node.IsSound.nodup_flagNames_iff (h : node.IsSound)
    (husage : usage ∈ node.usages ∨ usage = node.defaultUsage) :
    ((node.flagsFor (usage.behind node.lead)).flatMap Flag.names).Nodup ↔
      node.LeadFlagsApart usage := by
  have hown := h.nodup_ownNames husage
  rw [flagsFor, Usage.flags_behind, List.append_assoc, List.flatMap_append, List.nodup_append,
    and_iff_right hown, List.flatMap_append]
  constructor
  · rintro ⟨hlead, hapart⟩
    exact ⟨hlead,
      fun name hname hother => hapart name hname name (List.mem_append_left _ hother) rfl,
      fun name hname hother => hapart name hname name (List.mem_append_right _ hother) rfl⟩
  · intro hlead
    refine ⟨hlead.lead, ?_⟩
    rintro name hname _ hother rfl
    rcases List.mem_append.1 hother with hother | hother
    · exact hlead.own name hname hother
    · exact hlead.scope name hname hother

end Sound

/-! ## Names that can be typed -/

/-- Flags that come along a way are flags of usages of the commands on it. -/
theorem Command.exists_usage_of_mem_leadAlong {way : List (Command Act)} {flag : Flag}
    (h : flag ∈ (leadAlong way).filterMap Parameter.flag?) :
    ∃ upper ∈ way, ∃ usage ∈ upper.usages, flag ∈ usage.flags := by
  obtain ⟨p, hp, hflag⟩ := List.mem_filterMap.1 h
  obtain ⟨front, parent, child, back, rfl, hbetween | rfl⟩ := mem_leadAlong_iff.1 hp
  · obtain ⟨-, main, hmain, hmem⟩ := Declaration.mem_between_iff.1 hbetween
    exact ⟨parent, by simp, main, List.mem_of_head? hmain, List.mem_filterMap.2 ⟨p, hmem, hflag⟩⟩
  · cases hflag

/-- Whatever flag is in effect for a usage in the tree of a verified command, all its
names can be typed. -/
theorem Command.isFlagName_of_verify {command : Command Act} (hverify : command.verify = .ok ())
    {trail : List (Node Act)} {node : Node Act} (hdescent : command.link.Descent trail node)
    {usage : Usage Act} (husage : usage ∈ node.usages ∨ usage = node.defaultUsage) :
    ∀ flag ∈ node.flagsFor (usage.behind node.lead), ∀ name ∈ flag.names, IsFlagName name := by
  have hwell := (verify_eq_ok_iff_isWellFormed.1 command).1 hverify
  obtain ⟨above, below, path, hpassage, rfl⟩ := exists_passage_of_descent hdescent rfl
  -- Every flag is one of a usage on the way, or a free one on the way.
  have hdeclared : ∀ upper ∈ above ++ [below], ∀ usage ∈ upper.usages, ∀ flag ∈ usage.flags,
      ∀ name ∈ flag.names, IsFlagName name := by
    intro upper hupper usage husage
    obtain ⟨front, hfront⟩ := hpassage.exists_of_mem hupper
    have hverified := (hwell front upper hfront).usages usage husage
    exact (Usage.verify_iff_isWellFormed.1 hverified).flagNames
  have hfree : ∀ upper ∈ above ++ [below], ∀ flag ∈ upper.freeFlags.map Flag.freed,
      ∀ name ∈ flag.names, IsFlagName name := by
    intro upper hupper flag hflag
    obtain ⟨declared, hmem, rfl⟩ := List.mem_map.1 hflag
    obtain ⟨front, hfront⟩ := hpassage.exists_of_mem hupper
    exact (hwell front upper hfront).freeNames declared hmem
  intro flag hflag
  rw [Node.flagsFor, Usage.flags_behind, lead_linkUnder, scopeFlags_linkUnder, List.nil_append,
    List.nil_append, List.mem_append, List.mem_append, List.mem_append] at hflag
  rcases hflag with (hlead | hown) | hscope | hscope
  · obtain ⟨upper, hupper, usage, husage, hmem⟩ := exists_usage_of_mem_leadAlong hlead
    exact hdeclared upper hupper usage husage flag hmem
  · rcases husage with husage | rfl
    · rw [toDeclaration_linkUnder] at husage
      exact hdeclared below (by simp) usage husage flag hown
    · rw [toDeclaration_linkUnder, Usage.flags,
        (hwell above below hpassage).defaultEmpty] at hown
      cases hown
  · obtain ⟨upper, hupper, hmem⟩ := List.mem_flatMap.1 hscope
    exact hfree upper (List.mem_append_left _ hupper) flag hmem
  · exact hfree below (by simp) flag hscope

/-! ## Verified commands -/

/-- Wherever a usage stands in the tree of a verified command, the flags in effect for it
share no name exactly if those that come with the lead share none, and then every flag is
reached by each of its names. -/
theorem Command.flags_reachable_of_verify {command : Command Act}
    (hverify : command.verify = .ok ()) {trail : List (Node Act)} {node : Node Act}
    (hdescent : command.link.Descent trail node) {usage : Usage Act}
    (husage : node.Offers usage) :
    ∃ declared, (declared ∈ node.usages ∨ declared = node.defaultUsage) ∧
      usage = declared.behind node.lead ∧
      (((node.flagsFor usage).flatMap Flag.names).Nodup ↔ node.LeadFlagsApart declared) ∧
      (node.LeadFlagsApart declared → ∀ flag ∈ node.flagsFor usage, ∀ name ∈ flag.names,
        matchFlag? (node.flagsFor usage) ("-" ++ name) = some flag ∧
        matchFlag? (node.flagsFor usage) ("--" ++ name) = some flag) := by
  have hsound := Command.isSoundTree_link hverify trail node hdescent
  obtain ⟨declared, hdeclared, rfl⟩ := hsound.exists_behind husage
  have hiff := hsound.nodup_flagNames_iff hdeclared
  refine ⟨declared, hdeclared, rfl, hiff, ?_⟩
  intro hapart flag hflag name hname
  exact matchFlag?_eq_some (hiff.2 hapart) hflag hname
    (isFlagName_of_verify hverify hdescent hdeclared flag hflag name hname)

/-- A team that can be renamed, with flags on each level and a free switch. -/
def teaming : Command Unit where
  name := "team"
  usages := [.ofParameters [{ name := "team", kind := .required .string },
    { name := "force", kind := .flag ["f"] none none }]]
  freeFlags := [{ name := "silent", aliases := ["s"] }]
  children := [{
    name := "rename"
    attachment := .main
    usages := [.ofParameters [{ name := "title", kind := .required .string },
      { name := "loud", kind := .flag ["l"] none none }]] }]

/-- A flag of the main usage, one of the subcommand and the free one are each reached by
their aliases. -/
theorem Command.flags_reachable_of_verify_teaming :
    ∃ (trail : List (Node Unit)) (node : Node Unit) (usage : Usage Unit),
      teaming.verify = .ok () ∧ teaming.link.Descent trail node ∧ node.Offers usage ∧
      ∃ force loud silent, node.flagsFor usage = [force, loud, silent] ∧
        matchFlag? (node.flagsFor usage) "-f" = some force ∧
        matchFlag? (node.flagsFor usage) "--l" = some loud ∧
        matchFlag? (node.flagsFor usage) "-silent" = some silent := by
  have hverify : teaming.verify = .ok () := rfl
  obtain ⟨child, hchild, e, heffective, force, loud, silent, hflags, hdistinct, hforce, hloud,
      hsilent⟩ :
      ∃ child, teaming.link.children = [child] ∧ ∃ e, child.effective = [e] ∧
        ∃ force loud silent, child.flagsFor e.usage = [force, loud, silent] ∧
          ((child.flagsFor e.usage).flatMap Flag.names).Nodup ∧
          "f" ∈ force.names ∧ "l" ∈ loud.names ∧ "silent" ∈ silent.names :=
    ⟨_, rfl, _, rfl, _, _, _, rfl, by decide, by decide, by decide, by decide⟩
  have hdescent : teaming.link.Descent [child] child := .down (by simp [hchild]) (.here child)
  have hoffers : child.Offers e.usage := .inl ⟨e, by simp [heffective], rfl⟩
  obtain ⟨declared, -, -, hiff, hreach⟩ :=
    Command.flags_reachable_of_verify hverify hdescent hoffers
  have hreached := hreach (hiff.1 hdistinct)
  refine ⟨[child], child, e.usage, hverify, hdescent, hoffers, force, loud, silent, hflags, ?_⟩
  exact ⟨(hreached force (by simp [hflags]) "f" hforce).1,
    (hreached loud (by simp [hflags]) "l" hloud).2,
    (hreached silent (by simp [hflags]) "silent" hsilent).1⟩

/-- A group whose main usage has a switch with the alias of a subcommand's switch. -/
def clashing : Command Unit where
  name := "group"
  usages := [.ofParameters [{ name := "group", kind := .required .string },
    { name := "silent", kind := .flag ["s"] none none }]]
  children := [{
    name := "rename"
    attachment := .main
    usages := [.ofParameters [{ name := "loud", kind := .flag ["s"] none none }]] }]

/-- Verification accepts a switch with the alias of one that is inherited, and the token
with this alias names the other one. -/
theorem Command.flag_unreachable_clashing :
    ∃ (trail : List (Node Unit)) (node : Node Unit) (e : EffectiveUsage Unit) (flag : Flag),
      clashing.verify = .ok () ∧ clashing.link.Descent trail node ∧ e ∈ node.effective ∧
      ¬ ((node.flagsFor e.usage).flatMap Flag.names).Nodup ∧
      flag ∈ node.flagsFor e.usage ∧ "s" ∈ flag.names ∧
      matchFlag? (node.flagsFor e.usage) "-s" ≠ some flag := by
  obtain ⟨child, hchild, e, heffective, silent, loud, hflags, hshared, hnamed, hmatch, hother⟩ :
      ∃ child, clashing.link.children = [child] ∧ ∃ e, child.effective = [e] ∧
        ∃ silent loud, child.flagsFor e.usage = [silent, loud] ∧
          ¬ ((child.flagsFor e.usage).flatMap Flag.names).Nodup ∧ "s" ∈ loud.names ∧
          matchFlag? (child.flagsFor e.usage) "-s" = some silent ∧ silent.name ≠ loud.name :=
    ⟨_, rfl, _, rfl, _, _, rfl, by decide, by decide, rfl, by decide⟩
  refine ⟨[child], child, e, loud, rfl, .down (by simp [hchild]) (.here child),
    by simp [heffective], hshared, by simp [hflags], hnamed, ?_⟩
  rw [hmatch]
  rintro ⟨⟩
  exact hother rfl

end Parlance
