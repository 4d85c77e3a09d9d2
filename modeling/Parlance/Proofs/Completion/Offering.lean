import Parlance.Proofs.Command.Lead
import Parlance.Proofs.Completion.Answer
import Parlance.Proofs.Completion.Expecting
import Parlance.Proofs.Resolution.Agreement
import Parlance.Proofs.Resolution.StoredNames
import Parlance.Proofs.TokenSplit.Parts

/-!
# Completeness of completion

Whatever token stands at a place of a command that matches, the parameter that takes
it was offered there. A usage is reached through the subcommands in front of it, and
each of them offers its own part of the lead, so the parameter is found on the way
down (`Completion.mem_ofNode_of_expects`).
-/

set_option autoImplicit false

namespace Parlance

variable {Act : Type}

/-! ## Tokens without flags -/

/-- The token does not begin with a dash, so it names no flag. -/
def IsUndashed (token : String) : Prop :=
  token.toList.head? ≠ some '-'

instance (token : String) : Decidable (IsUndashed token) :=
  inferInstanceAs (Decidable (_ ≠ _))

theorem IsUndashed.matchFlag?_eq_none {token : String} (h : IsUndashed token)
    (flags : List Flag) : matchFlag? flags token = none := by
  have hword : flagWord? token = none := by
    unfold IsUndashed at h
    unfold flagWord?
    split <;> simp_all
  rw [matchFlag?, hword, Option.bind_none]

/-- Tokens without dashes are all positional. -/
theorem TokenSplit.ofTokens_of_undashed (flags : List Flag) {tokens : List String}
    (h : ∀ token ∈ tokens, IsUndashed token) :
    ofTokens flags tokens = { positional := tokens } :=
  ofTokens_of_matchFlag? fun token htoken => (h token htoken).matchFlag?_eq_none flags

theorem TokenSplit.positional_of_undashed (flags : List Flag) {tokens : List String}
    (h : ∀ token ∈ tokens, IsUndashed token) : (ofTokens flags tokens).positional = tokens := by
  rw [ofTokens_of_undashed flags h]

namespace Completion

variable {c : Completion}

theorem pending_of_undashed (h : ∀ token ∈ c.done, IsUndashed token) (node : Node Act)
    (usages : List (Usage Act)) : c.pending node usages = [] := by
  have hnone : ∀ flags, c.pendingIn flags = none := by
    intro flags
    rw [pendingIn, TokenSplit.ofTokens_of_undashed flags h]
    rfl
  have hsets : ∀ sets : List (List Flag), sets.filterMap c.pendingIn = [] := by
    intro sets
    rw [List.filterMap_eq_nil_iff]
    exact fun flags _ => hnone flags
  rw [pending, hsets]
  rfl

/-! ## Usages -/

/-- A usage offers every parameter that is expected behind the finished tokens. -/
theorem mem_ofUsage_of_expects {node : Node Act} {usage : Usage Act} {p : Parameter}
    {word : String} (hexpects : c.matcher.Expects usage.positional
      (TokenSplit.ofTokens (node.flagsFor usage) c.done).positional p)
    (hword : word ∈ c.ofParameter p) : word ∈ c.ofUsage node usage := by
  obtain ⟨left, hconsumes, hp⟩ := hexpects
  obtain ⟨j, -, rfl, hmem⟩ := exists_mem_advance_of_consumes hconsumes
  rw [ofUsage]
  split
  · next hnone =>
    rw [hnone] at hmem
    exact absurd hmem List.not_mem_nil
  · exact List.mem_append_left _
      (List.mem_flatMap.2 ⟨j, hmem, List.mem_flatMap.2 ⟨p, hp, hword⟩⟩)

end Completion

/-- The positional parameters of a usage behind a lead, but for their positions. -/
theorem Usage.map_unplaced_behind (usage : Usage Act) (lead : List Parameter) :
    (usage.behind lead).positional.map Parameter.unplaced =
      (lead.filter (fun p => !p.isFlag) ++ usage.positional).map Parameter.unplaced := by
  rw [Usage.positional, Usage.behind, Usage.filter_numberFrom,
    Usage.map_numberFrom fun _ _ => rfl, List.filter_append]
  rfl

/-! ## Nodes -/

namespace Completion

variable {c : Completion}

/-- A node offers what is expected of one of its own usages. -/
theorem mem_ofNode_of_own {node : Node Act} (hsound : node.IsSound) (hsource : c.source.HoldsAll)
    (hdone : ∀ token ∈ c.done, IsUndashed token) {usage : Usage Act}
    (husage : usage ∈ node.usages) {p : Parameter} {word : String}
    (hexpects : c.matcher.Expects (node.positionalLead ++ usage.positional) c.done p)
    (hword : word ∈ c.ofParameter p) : word ∈ c.ofNode node := by
  obtain ⟨e, he, heq⟩ : ∃ e ∈ EffectiveUsage.behind node.lead 0 node.usages,
      e.usage = usage.behind node.lead := EffectiveUsage.exists_mem_behind husage 0
  have hoffered : e.usage ∈ c.offered node := by
    rw [offered_eq hsource, hsound.effective]
    exact List.mem_map_of_mem (mem_arrange.2 he)
  obtain ⟨q, hq, hplaced⟩ := hexpects.exists_of_map_unplaced
    (usage.map_unplaced_behind node.lead).symm
  obtain ⟨position, rfl⟩ := Parameter.exists_of_unplaced_eq hq
  rw [ofNode_of_pending_eq_nil (pending_of_undashed hdone _ _)]
  refine List.mem_append_left _ (List.mem_flatMap.2 ⟨e.usage, hoffered, ?_⟩)
  refine mem_ofUsage_of_expects (p := { p with position }) ?_ hword
  rw [TokenSplit.ofTokens_of_undashed _ hdone, heq]
  exact hplaced

section Child

variable {node child : Node Act} {between back : List Parameter} {p : Parameter} {word : String}

/-- What is expected in front of the word of a subcommand is expected of a usage of
its parent. -/
theorem mem_ofNode_of_between (hsound : node.IsSound) (hsource : c.source.HoldsAll)
    (hdone : ∀ token ∈ c.done, IsUndashed token)
    (hbetween : between = [] ∨ ∃ main ∈ node.usages, between = main.positional)
    (hrequired : ∀ p ∈ node.positionalLead ++ between, p.isRequired = true)
    (hexpects : c.matcher.Expects (node.positionalLead ++ between ++ back) c.done p)
    (hpassed : node.positionalLead.length ≤ c.done.length)
    (hlength : c.done.length < (node.positionalLead ++ between).length)
    (hword : word ∈ c.ofParameter p) : word ∈ c.ofNode node := by
  rcases hbetween with rfl | ⟨main, hmain, rfl⟩
  · rw [List.append_nil] at hlength
    omega
  · refine mem_ofNode_of_own hsound hsource hdone hmain ?_ hword
    rw [← List.append_nil (node.positionalLead ++ main.positional)]
    exact hexpects.of_append hrequired hlength

/-- Behind the lead in front of it, the word of a subcommand is expected. -/
theorem mem_ofChild_of_literal {front : List Parameter} (hsource : c.source.HoldsAll)
    (hdone : ∀ token ∈ c.done, IsUndashed token)
    (hlead : child.positionalLead = front ++ [child.literal])
    (hrequired : ∀ p ∈ child.positionalLead, p.isRequired = true)
    (hexpects : c.matcher.Expects (child.positionalLead ++ back) c.done p)
    (hlength : c.done.length = front.length) (hword : word ∈ c.ofParameter p) (filter : Bool) :
    word ∈ c.ofChild filter child := by
  have hlast : child.positionalLead.length = front.length + 1 := by
    rw [hlead, List.length_append, List.length_singleton]
  obtain ⟨haccepts, hp⟩ := (Matcher.expects_append_iff hrequired (by omega)).1 hexpects
  rw [hlead, hlength, List.getElem?_concat_length, Option.some.injEq] at hp
  have hpositional := TokenSplit.positional_of_undashed child.flagsOnPath hdone
  have hslot := Node.literalSlot?_of_positionalLead_eq hlead
  rw [ofChild_of_length_eq hsource hslot (by rwa [hpositional]) (by rwa [hpositional])]
  rwa [← hp] at hword

/-- Behind the whole lead of a subcommand, all that it offers as a node is offered. -/
theorem mem_ofChild_of_passed {front : List Parameter} (hsource : c.source.HoldsAll)
    (hdone : ∀ token ∈ c.done, IsUndashed token)
    (hlead : child.positionalLead = front ++ [child.literal])
    (hrequired : ∀ p ∈ child.positionalLead, p.isRequired = true)
    (hexpects : c.matcher.Expects (child.positionalLead ++ back) c.done p)
    (hlength : front.length < c.done.length) (hword : word ∈ c.ofNode child) (filter : Bool) :
    word ∈ c.ofChild filter child := by
  obtain ⟨left, hconsumes, -⟩ := hexpects
  have haccepts := hconsumes.acceptsAll hrequired
  have hpositional := TokenSplit.positional_of_undashed child.flagsOnPath hdone
  have hslot := Node.literalSlot?_of_positionalLead_eq hlead
  rwa [ofChild_of_reach hsource]
  exact Matcher.isSome_reach?_iff.2 ⟨_, hslot, by rwa [hpositional], by rwa [hpositional]⟩

end Child

/-- A node offers what is expected of a usage of a node below it, once the tokens have
passed the lead of the node itself. -/
theorem mem_ofNode_of_expects {root node : Node Act} {trail : List (Node Act)}
    (hdescent : root.Descent trail node) {command : Command Act} {above : List String}
    {lead : List Parameter} {flags : List Flag} (hstands : command.Stands lead flags)
    (hroot : root = command.linkUnder above lead flags) (hsource : c.source.HoldsAll)
    (hdone : ∀ token ∈ c.done, IsUndashed token) {usage : Usage Act}
    (husage : usage ∈ node.usages) {p : Parameter} {word : String}
    (hexpects : c.matcher.Expects (node.positionalLead ++ usage.positional) c.done p)
    (hpassed : root.positionalLead.length ≤ c.done.length) (hword : word ∈ c.ofParameter p) :
    word ∈ c.ofNode root := by
  induction hdescent generalizing command above lead flags with
  | here node =>
    subst hroot
    exact mem_ofNode_of_own (hstands.isSound above) hsource hdone husage hexpects hword
  | @down node child last trail hchild below ih =>
    have hlinked := hchild
    rw [hroot, Command.children_linkUnder, List.mem_map] at hlinked
    obtain ⟨declared, hmem, hlinked⟩ := hlinked
    have hbelow := hstands.child hmem
    have hrequired : ∀ p ∈ child.positionalLead, p.isRequired = true := by
      rw [← hlinked]
      exact (hbelow.isSound _).isRequired_positionalLead
    obtain ⟨between, hbetween, hlead⟩ : ∃ between : List Parameter,
        (between = [] ∨ ∃ main ∈ node.usages, between = main.positional) ∧
        child.positionalLead = node.positionalLead ++ between ++ [child.literal] := by
      rw [← hlinked, hroot, Command.toDeclaration_linkUnder, Command.toDeclaration_linkUnder]
      exact Command.exists_positionalLead_eq
    obtain ⟨more, hmore⟩ := below.exists_positionalLead_eq hlinked.symm
    have hbehind : c.matcher.Expects
        (child.positionalLead ++ (more ++ usage.positional)) c.done p := by
      rw [← List.append_assoc, ← hmore]
      exact hexpects
    have hpending := pending_of_undashed hdone node (c.offered node)
    have hlast : child.positionalLead.length = (node.positionalLead ++ between).length + 1 := by
      rw [hlead, List.length_append, List.length_singleton]
    rcases Nat.lt_trichotomy c.done.length (node.positionalLead ++ between).length with
      hlt | heq | hgt
    · have hsound := hstands.isSound above
      rw [← hroot] at hsound
      rw [hlead, List.append_assoc (node.positionalLead ++ between)] at hbehind
      refine mem_ofNode_of_between hsound hsource hdone hbetween ?_ hbehind hpassed hlt hword
      intro p hp
      exact hrequired p (by rw [hlead]; exact List.mem_append_left _ hp)
    · exact mem_ofNode_of_child hpending hchild
        (mem_ofChild_of_literal hsource hdone hlead hrequired hbehind heq hword _)
    · have hnode := ih hbelow hlinked.symm husage hexpects (by omega)
      exact mem_ofNode_of_child hpending hchild
        (mem_ofChild_of_passed hsource hdone hlead hrequired hbehind hgt hnode _)

end Completion

/-! ## Matched parameters -/

/-- The words that a parameter names itself: all names of a fixed word, and else the
completions it is given and the words of its type. -/
def Parameter.knownWords (p : Parameter) : List String :=
  if p.isLiteral then p.literalNames
  else p.suggestions ++
    match p.type? with
    | some (.choice words) => words
    | some .boolean => ["true", "false"]
    | _ => []

namespace Completion

theorem mem_ofParameter_of_knownWords (c : Completion) {p : Parameter} {word : String}
    (h : word ∈ p.knownWords) : word ∈ c.ofParameter p := by
  unfold Parameter.knownWords at h
  unfold ofParameter
  split
  · next hliteral =>
    rwa [if_pos hliteral] at h
  · next hliteral =>
    rw [if_neg hliteral, List.mem_append] at h
    rw [List.mem_append, List.mem_append]
    rcases h with hgiven | htype
    · exact .inl (.inl hgiven)
    · right
      split at htype
      · next words hchoice => simpa [hchoice, ofType, Resolvers.suggestions] using htype
      · next hboolean => simpa [hboolean, ofType, Resolvers.suggestions] using htype
      · exact absurd htype List.not_mem_nil

/-- Completion leaves out nothing that matches. Take any usage in the tree of a
verified command, tokens without dashes that match it, and the parameter that takes
one of them, alone or as part of a greedy row. In place of that token, a source with
all permissions is offered every word that the parameter names. -/
theorem mem_answer_of_matched {command : Command Act} (hverify : command.verify = .ok ())
    {trail : List (Node Act)} {node : Node Act} (hdescent : command.link.Descent trail node)
    {e : EffectiveUsage Act} (he : e ∈ node.effective) {m : Matcher} {config : Config}
    {source : Source} (hsource : source.HoldsAll) (hlimit : config.maxSuggestions = 0)
    {xs ys : List String} {w : String}
    (hundashed : ∀ token ∈ xs ++ [w] ++ ys, IsUndashed token)
    (hfound : (m.tryUsage node (xs ++ [w] ++ ys) e.usage).found = some e.usage)
    {p : Parameter} {slot : Slot}
    (hslot : (p, slot) ∈ e.usage.positional.zip
      (Slot.assign e.usage.positional (xs ++ [w] ++ ys).length).1)
    (hholds : slot.holds xs.length = true) {word : String} (hword : word ∈ p.knownWords) :
    word ∈ (ofTokens m config source (xs ++ [""])).answer command.link := by
  have hmatches := (m.tryUsage_found_iff.1 hfound).2.1
  rw [TokenSplit.positional_of_undashed _ hundashed] at hmatches
  have hlength : xs.length < (xs ++ [w] ++ ys).length := by
    rw [List.length_append, List.length_append, List.length_singleton]
    omega
  have hexpects := (Matcher.expects_of_serves hmatches hslot hholds hlength).2
  have hfinished : ((xs ++ [w] ++ ys).drop 0).take (xs.length - 0) = xs := by
    rw [List.drop_zero, Nat.sub_zero, List.append_assoc, List.take_left]
  rw [hfinished] at hexpects
  -- The usage is a declared one behind the lead of its node.
  have hsound := Command.isSoundTree_link hverify trail node hdescent
  rw [hsound.effective, mem_arrange] at he
  obtain ⟨usage, husage, heq⟩ := EffectiveUsage.exists_of_mem_behind he
  rw [heq] at hexpects
  obtain ⟨q, hq, hdeclared⟩ := hexpects.exists_of_map_unplaced
    (usage.map_unplaced_behind node.lead)
  obtain ⟨position, rfl⟩ := Parameter.exists_of_unplaced_eq hq
  rw [ofTokens_concat, mem_answer_iff hlimit rfl]
  refine mem_ofNode_of_expects hdescent (.root hverify) rfl hsource ?_ husage hdeclared ?_
    (mem_ofParameter_of_knownWords _ hword)
  · exact fun token htoken => hundashed token (by simp [htoken])
  · rw [Node.positionalLead, Command.link, Command.lead_linkUnder]
    exact Nat.zero_le _

/-- A command for walls, whose subcommand stands behind the room that is named. -/
def painting : Command Unit where
  name := "wall"
  usages := [.ofParameters [{ name := "room", kind := .required (.choice ["hall", "attic"]) }]]
  children := [{
    name := "paint"
    aliases := ["color"]
    attachment := .main
    usages := [.ofParameters [
      { name := "shade", kind := .optional (.choice ["dark", "light"]) none },
      { name := "note", kind := .greedy none, suggestions := ["twice"] }]] }]

/-- Every place of a matched line offers what its parameter names: the room of the
parent's usage, the alias of the subcommand, the shade that may be left out, and the
rest of a greedy row. -/
theorem mem_answer_of_matched_painting :
    let offers (xs : List String) : List String :=
      (ofTokens {} { maxSuggestions := 0 } .console (xs ++ [""])).answer painting.link
    "attic" ∈ offers [] ∧ "color" ∈ offers ["hall"] ∧ "light" ∈ offers ["hall", "paint"] ∧
      "twice" ∈ offers ["hall", "paint", "dark", "soon"] := by
  intro offers
  have hverify : painting.verify = .ok () := rfl
  obtain ⟨child, hchild, e, heffective, hfound, room, literal, shade, note, hslots, hwords⟩ :
      ∃ child, painting.link.children = [child] ∧ ∃ e, child.effective = [e] ∧
        (Matcher.tryUsage {} child ["hall", "paint", "dark", "soon", "again"] e.usage).found =
          some e.usage ∧
        ∃ room literal shade note, e.usage.positional.zip (Slot.assign e.usage.positional 5).1 =
          [(room, .token 0), (literal, .token 1), (shade, .token 2), (note, .greedy 3 5)] ∧
        "attic" ∈ room.knownWords ∧ "color" ∈ literal.knownWords ∧ "light" ∈ shade.knownWords ∧
          "twice" ∈ note.knownWords :=
    ⟨_, rfl, _, rfl, rfl, _, _, _, _, rfl, by decide⟩
  have hdescent : painting.link.Descent [child] child := .down (by simp [hchild]) (.here child)
  have he : e ∈ child.effective := by simp [heffective]
  have hoffers : ∀ xs w ys, xs ++ [w] ++ ys = ["hall", "paint", "dark", "soon", "again"] →
      ∀ p slot, (p, slot) ∈ e.usage.positional.zip (Slot.assign e.usage.positional 5).1 →
      slot.holds xs.length = true → ∀ word ∈ p.knownWords, word ∈ offers xs := by
    intro xs w ys htokens p slot hslot hholds word hword
    have hundashed : ∀ token ∈ xs ++ [w] ++ ys, IsUndashed token := by
      rw [htokens]
      decide
    refine mem_answer_of_matched hverify hdescent he (fun _ => rfl) rfl
      hundashed ?_ ?_ hholds hword
    · rwa [htokens]
    · rwa [htokens]
  refine ⟨hoffers [] _ _ rfl room (.token 0) ?_ rfl _ hwords.1,
    hoffers ["hall"] _ _ rfl literal (.token 1) ?_ rfl _ hwords.2.1,
    hoffers ["hall", "paint"] _ _ rfl shade (.token 2) ?_ rfl _ hwords.2.2.1,
    hoffers ["hall", "paint", "dark", "soon"] _ _ rfl note (.greedy 3 5) ?_ rfl _
      hwords.2.2.2⟩
  all_goals simp [hslots]

end Completion

end Parlance
