import Parlance.Proofs.Completion.Answer
import Parlance.Proofs.Resolution.Agreement
import Parlance.Proofs.TokenSplit.Occurrences

/-!
# Values of flags

Behind a token that names flags with values, a node offers the values of those of its
flags that are named, one flag a name, and nothing else. What lies below the node is
not asked any more. So what is offered in place of a flag's value is told by the first
node on the way where a flag is named (`Completion.mem_answer_of_flag_value`), whether
or not that flag belongs to the usage that the tokens match.
-/

set_option autoImplicit false

namespace Parlance

variable {Act : Type}

/-! ## Flags that wait -/

/-- The flag that a token names, if it takes a value. -/
def valuedFlag? (token : String) (flags : List Flag) : Option Flag :=
  (matchFlag? flags token).filter fun flag => !flag.isSwitch

theorem valuedFlag?_eq_some_iff {token : String} {flags : List Flag} {flag : Flag} :
    valuedFlag? token flags = some flag ↔
      matchFlag? flags token = some flag ∧ flag.isSwitch = false := by
  simp [valuedFlag?, Option.filter_eq_some_iff]

/-- The flags that each usage of a node puts in effect, and those on the way to it. -/
def Node.flagSets (node : Node Act) : List (List Flag) :=
  node.effective.map (fun e => node.flagsFor e.usage) ++ [node.flagsOnPath]

/-- The flags of a node that wait for a value behind a token, one a name. -/
def Node.waiting (node : Node Act) (token : String) : List Flag :=
  Completion.distinctByName (node.flagSets.filterMap (valuedFlag? token)) []

/-- The flags that wait behind a token at the first of the nodes where any does. -/
def waitingFirst (token : String) : List (Node Act) → List Flag
  | [] => []
  | node :: nodes =>
    match node.waiting token with
    | [] => waitingFirst token nodes
    | waiting => waiting

/-- The nodes of a way that are asked behind its first node: each stands below one where
no flag waits behind the token. -/
def askedBelow (token : String) : Node Act → List (Node Act) → List (Node Act)
  | _, [] => []
  | node, child :: trail =>
    match node.waiting token with
    | [] => child :: askedBelow token child trail
    | _ :: _ => []

theorem askedBelow_subset (token : String) (node : Node Act) (trail : List (Node Act)) :
    askedBelow token node trail ⊆ trail := by
  induction trail generalizing node with
  | nil => exact List.Subset.refl _
  | cons child trail ih =>
    rw [askedBelow]
    split
    · exact List.cons_subset_cons child (ih child)
    · exact List.nil_subset _

/-- Some flag waits at a node that has one among its flags. -/
theorem Node.waiting_ne_nil {node : Node Act} {token : String} {flags : List Flag}
    (hflags : flags ∈ node.flagSets) {flag : Flag} (h : valuedFlag? token flags = some flag) :
    node.waiting token ≠ [] := by
  have hmem : flag ∈ node.flagSets.filterMap (valuedFlag? token) :=
    List.mem_filterMap.2 ⟨flags, hflags, h⟩
  unfold waiting
  cases hsets : node.flagSets.filterMap (valuedFlag? token) with
  | nil =>
    rw [hsets] at hmem
    exact absurd hmem List.not_mem_nil
  | cons first others => simp [Completion.distinctByName]

theorem waitingFirst_ne_nil {token : String} {nodes : List (Node Act)} {node : Node Act}
    (hnode : node ∈ nodes) (h : node.waiting token ≠ []) : waitingFirst token nodes ≠ [] := by
  induction nodes with
  | nil => exact absurd hnode List.not_mem_nil
  | cons first nodes ih =>
    rw [waitingFirst]
    split
    · next hnone =>
      rcases List.mem_cons.1 hnode with rfl | hnode
      · exact absurd hnone h
      · exact ih hnode
    · assumption

theorem exists_waiting_eq_waitingFirst {token : String} {nodes : List (Node Act)}
    (h : waitingFirst token nodes ≠ []) :
    ∃ first ∈ nodes, first.waiting token = waitingFirst token nodes := by
  induction nodes with
  | nil => exact absurd rfl h
  | cons node nodes ih =>
    rw [waitingFirst] at h ⊢
    split at h
    · obtain ⟨first, hfirst, heq⟩ := ih h
      exact ⟨first, List.mem_cons_of_mem node hfirst, heq⟩
    · exact ⟨node, List.mem_cons_self, rfl⟩

theorem Node.Descent.mem {root node : Node Act} {trail : List (Node Act)}
    (h : root.Descent trail node) : node ∈ root :: trail := by
  induction h with
  | here node => exact List.mem_cons_self
  | down hchild below ih => exact .tail _ ih

/-- The flags in effect for a usage that tokens select are among those of its node. -/
theorem Matcher.flagsFor_mem_of_select {m : Matcher} {root node : Node Act}
    (hsound : root.IsSound) {tokens : List String} {usage : Usage Act}
    (h : (m.select root tokens).selection = .complete node usage) :
    node.flagsFor usage ∈ node.flagSets := by
  rcases m.select_cases root tokens with hfinds | ⟨hdefault, -⟩ | hfailure
  · rw [h] at hfinds
    cases hfinds with
    | usage hdescent he hmatches =>
      exact List.mem_append_left _ (List.mem_map_of_mem he)
  · obtain ⟨rfl, rfl⟩ := Selection.complete.inj (h.symm.trans hdefault)
    rw [hsound.flagsFor_effectiveDefault]
    exact List.mem_append_right _ List.mem_cons_self
  · cases h.symm.trans hfailure

namespace Completion

variable {c : Completion} {xs : List String} {f : String}

/-- The last finished token calls for the value of the flag that it names. -/
theorem pendingIn_eq (hdone : c.done = xs ++ [f]) (flags : List Flag) :
    c.pendingIn flags = valuedFlag? f flags := by
  refine Option.ext fun flag => ?_
  rw [valuedFlag?_eq_some_iff, pendingIn, hdone]
  constructor
  · intro h
    cases hlast : (TokenSplit.ofTokens flags (xs ++ [f])).hits.getLast? with
    | none => simp [hlast] at h
    | some hit =>
      obtain ⟨k, token, hindex, htoken, hflag, hswitch⟩ :=
        TokenSplit.exists_token_of_mem_hits (List.mem_of_getLast? hlast)
      simp only [hlast, Option.ite_none_right_eq_some, Bool.and_eq_true, beq_iff_eq,
        Option.some.injEq, List.length_append, List.length_singleton] at h
      obtain ⟨⟨hvalue, hposition⟩, rfl⟩ := h
      -- The occurrence stands at the last token, so that is the one that names the flag.
      have hk : k = xs.length := by omega
      rw [hk, List.getElem?_concat_length, Option.some.injEq] at htoken
      rw [htoken]
      refine ⟨hflag, ?_⟩
      rw [Bool.eq_false_iff]
      intro hpresent
      rw [hswitch.1 hpresent] at hvalue
      cases hvalue
  · rintro ⟨hflag, hvalued⟩
    rw [TokenSplit.getLast?_hits_concat hflag hvalued]
    simp

theorem pending_eq (hsource : c.source.HoldsAll) (hdone : c.done = xs ++ [f])
    (node : Node Act) : c.pending node (c.offered node) = node.waiting f := by
  have hin : c.pendingIn = valuedFlag? f := funext (pendingIn_eq hdone)
  rw [pending, offered_eq hsource, List.map_map, hin]
  rfl

/-! ## On the way to a node -/

/-- Where flags wait, their values are offered and nothing else. -/
theorem mem_ofNode_iff_of_waiting (hsource : c.source.HoldsAll) (hdone : c.done = xs ++ [f])
    {node : Node Act} (h : node.waiting f ≠ []) {word : String} :
    word ∈ c.ofNode node ↔
      ∃ flag ∈ node.waiting f, ∃ type, flag.type = some type ∧ word ∈ c.ofType type := by
  rw [ofNode_eq, pending_eq hsource hdone]
  split
  · next hnone => exact absurd hnone h
  · simp only [List.mem_flatMap, List.mem_filterMap]
    constructor
    · rintro ⟨type, ⟨flag, hflag, htype⟩, hword⟩
      exact ⟨flag, hflag, type, htype, hword⟩
    · rintro ⟨flag, hflag, type, htype, hword⟩
      exact ⟨type, ⟨flag, hflag, htype⟩, hword⟩

/-- If tokens reach every subcommand on the way down to the first node where flags wait,
the values of those flags are offered. -/
theorem mem_ofNode_of_waitingFirst {root node : Node Act} {trail : List (Node Act)}
    (hdescent : root.Descent trail node) (hsource : c.source.HoldsAll)
    (hdone : c.done = xs ++ [f])
    (hreached : ∀ passed ∈ askedBelow f root trail,
      (c.matcher.reach? passed c.done).isSome = true) {flag : Flag}
    (hflag : flag ∈ waitingFirst f (root :: trail)) {type : ValueType}
    (htype : flag.type = some type) {word : String} (hword : word ∈ c.ofType type) :
    word ∈ c.ofNode root := by
  induction hdescent with
  | here node =>
    have hwaiting : flag ∈ node.waiting f := by
      rw [waitingFirst] at hflag
      split at hflag
      · exact absurd hflag List.not_mem_nil
      · exact hflag
    exact (mem_ofNode_iff_of_waiting hsource hdone (List.ne_nil_of_mem hwaiting)).2
      ⟨flag, hwaiting, type, htype, hword⟩
  | @down node child last trail hchild below ih =>
    rw [waitingFirst] at hflag
    split at hflag
    · next hnone =>
      -- No flag waits at `node` itself, so the subcommand on the way is asked.
      rw [askedBelow, hnone, List.forall_mem_cons] at hreached
      refine mem_ofNode_of_child ((pending_eq hsource hdone node).trans hnone) hchild ?_
      rw [ofChild_of_reach hsource hreached.1]
      exact ih hreached.2 hflag
    · exact (mem_ofNode_iff_of_waiting hsource hdone (List.ne_nil_of_mem hflag)).2
        ⟨flag, hflag, type, htype, hword⟩

/-! ## Flags of matched usages -/

theorem ofTokens_pair (matcher : Matcher) (config : Config) (source : Source) (xs : List String)
    (f start : String) : ofTokens matcher config source (xs ++ [f, start]) =
      { matcher, config, source, done := xs ++ [f], start } := by
  have hsplit : xs ++ [f, start] = (xs ++ [f]) ++ [start] := by
    rw [List.append_assoc, List.singleton_append]
  rw [hsplit, ofTokens_concat]

/-- Take a line of a verified command in which `f` is followed by the value of a flag
of the selected usage, one word of a choice, and let the tokens up to `f` reach the
subcommands on the way to that usage, down to the first node where flags wait. In place
of the value a source with all permissions is offered the values of those flags, for which
that node offers nothing else, and so all words of the choice if one of them has the type
of the selected usage's flag. -/
theorem mem_answer_of_flag_value {command : Command Act} (hverify : command.verify = .ok ())
    {trail : List (Node Act)} {node : Node Act} (hdescent : command.link.Descent trail node)
    {m : Matcher} {config : Config} {source : Source} (hsource : source.HoldsAll)
    (hlimit : config.maxSuggestions = 0) {xs ys : List String} {f v : String} {usage : Usage Act}
    (hselect : (m.select command.link (xs ++ [f, v] ++ ys)).selection = .complete node usage)
    {flag : Flag} {words : List String} (hchoice : flag.type = some (.choice words))
    (hhit : ⟨flag, xs.length, .raw v⟩ ∈
      (TokenSplit.ofTokens (node.flagsFor usage) (xs ++ [f, v] ++ ys)).hits)
    (hreached : ∀ passed ∈ askedBelow f command.link trail,
      (m.reach? passed (xs ++ [f])).isSome = true) :
    let completion := ofTokens m config source (xs ++ [f, ""])
    let answer := completion.answer command.link
    waitingFirst f (command.link :: trail) ≠ [] ∧
      (∀ waiting ∈ waitingFirst f (command.link :: trail), ∀ type, waiting.type = some type →
        ∀ word ∈ m.resolvers.suggestions type source "", word ∈ answer) ∧
      (∃ first ∈ command.link :: trail, first.waiting f = waitingFirst f (command.link :: trail) ∧
        ∀ word, word ∈ completion.ofNode first ↔
          ∃ waiting ∈ waitingFirst f (command.link :: trail), ∃ type,
            waiting.type = some type ∧ word ∈ m.resolvers.suggestions type source "") ∧
      ((∃ waiting ∈ waitingFirst f (command.link :: trail), waiting.type = flag.type) →
        ∀ word ∈ words, word ∈ answer) := by
  intro completion answer
  have hvalued : valuedFlag? f (node.flagsFor usage) = some flag := by
    obtain ⟨k, token, hindex, htoken, hnamed, hswitch⟩ := TokenSplit.exists_token_of_mem_hits hhit
    obtain rfl : k = xs.length := by simpa using hindex.symm
    have hf : f = token := by simpa using htoken
    rw [valuedFlag?_eq_some_iff, hf, Flag.isSwitch, hchoice]
    exact ⟨hnamed, rfl⟩
  have hsound := Command.isSoundTree_link hverify
  -- The usage's own flag waits at its node, so some flag waits on the way there.
  have hsome := waitingFirst_ne_nil hdescent.mem
    (Node.waiting_ne_nil (Matcher.flagsFor_mem_of_select hsound.isSound hselect) hvalued)
  have hcompletion : completion =
      { matcher := m, config, source, done := xs ++ [f], start := "" } :=
    ofTokens_pair m config source xs f ""
  have hoffered : ∀ waiting ∈ waitingFirst f (command.link :: trail), ∀ type,
      waiting.type = some type → ∀ word ∈ m.resolvers.suggestions type source "",
      word ∈ answer := by
    intro waiting hwaiting type htype word hword
    show word ∈ completion.answer command.link
    rw [hcompletion, mem_answer_iff hlimit rfl]
    exact mem_ofNode_of_waitingFirst hdescent hsource rfl hreached hwaiting htype hword
  refine ⟨hsome, hoffered, ?nothingElse, ?words⟩
  case nothingElse =>
    obtain ⟨first, hfirst, heq⟩ := exists_waiting_eq_waitingFirst hsome
    refine ⟨first, hfirst, heq, fun word => ?_⟩
    rw [← heq] at hsome ⊢
    rw [hcompletion]
    exact mem_ofNode_iff_of_waiting hsource rfl hsome
  case words =>
    rintro ⟨waiting, hwaiting, htype⟩ word hword
    exact hoffered waiting hwaiting _ (htype.trans hchoice) word hword

/-- A command for letters, with a flag that all subcommands take. Its subcommand has a flag
with a choice of its own. -/
def mailing : Command Unit where
  name := "mail"
  freeFlags := [{ name := "copy", type := some (.choice ["me", "all"]) }]
  children := [{
    name := "send"
    usages := [.ofParameters [
      { name := "to", kind := .required .string },
      { name := "via", kind := .flag [] (some (.choice ["fast", "slow"])) none }]] }]

/-- Behind the flag of the subcommand all words of its choice are offered. So are those of
the other flag in front of the subcommand's word, though the tokens do not reach the
subcommand yet. -/
theorem mem_answer_of_flag_value_mailing :
    let late := ofTokens {} { maxSuggestions := 0 } .console (["send", "bob"] ++ ["-via", ""])
    let early := ofTokens {} { maxSuggestions := 0 } .console ([] ++ ["-copy", ""])
    "fast" ∈ late.answer mailing.link ∧ "slow" ∈ late.answer mailing.link ∧
      "me" ∈ early.answer mailing.link ∧ "all" ∈ early.answer mailing.link ∧
      ∀ child ∈ mailing.link.children, (Matcher.reach? {} child ["-copy"]).isSome = false := by
  intro late early
  have hverify : mailing.verify = .ok () := rfl
  have hsource : Source.console.HoldsAll := fun _ => rfl
  have hlimit : ({ maxSuggestions := 0 } : Config).maxSuggestions = 0 := rfl
  obtain ⟨child, hchild, hlate, hearly, hreach, hnone, hasked⟩ :
      ∃ child, mailing.link.children = [child] ∧
        (∃ usage, (Matcher.select {} mailing.link
            (["send", "bob"] ++ ["-via", "fast"] ++ [])).selection = .complete child usage ∧
          ∃ via, (TokenSplit.ofTokens (child.flagsFor usage)
              (["send", "bob"] ++ ["-via", "fast"] ++ [])).hits = [⟨via, 2, .raw "fast"⟩] ∧
            via.type = some (.choice ["fast", "slow"]) ∧
            waitingFirst "-via" [mailing.link, child] = [via]) ∧
        (∃ usage, (Matcher.select {} mailing.link
            ([] ++ ["-copy", "me"] ++ ["send", "bob"])).selection = .complete child usage ∧
          ∃ copy, (TokenSplit.ofTokens (child.flagsFor usage)
              ([] ++ ["-copy", "me"] ++ ["send", "bob"])).hits = [⟨copy, 0, .raw "me"⟩] ∧
            copy.type = some (.choice ["me", "all"]) ∧
            waitingFirst "-copy" [mailing.link, child] = [copy]) ∧
        (Matcher.reach? {} child (["send", "bob"] ++ ["-via"])).isSome = true ∧
        (Matcher.reach? {} child ["-copy"]).isSome = false ∧
        askedBelow "-copy" mailing.link [child] = [] :=
    ⟨_, rfl, ⟨_, rfl, _, rfl, rfl, rfl⟩, ⟨_, rfl, _, rfl, rfl, rfl⟩, rfl, rfl, rfl⟩
  have hdescent : mailing.link.Descent [child] child := .down (by simp [hchild]) (.here child)
  have hfastSlow : ∀ word ∈ ["fast", "slow"], word ∈ late.answer mailing.link := by
    obtain ⟨usage, hselect, via, hhits, hchoice, hwaiting⟩ := hlate
    have hhit := hhits.symm ▸ List.mem_singleton_self (FlagHit.mk via 2 (.raw "fast"))
    have hreached : ∀ passed ∈ askedBelow "-via" mailing.link [child],
        (Matcher.reach? {} passed (["send", "bob"] ++ ["-via"])).isSome = true := by
      intro passed hpassed
      obtain rfl := List.mem_singleton.1 (askedBelow_subset _ _ _ hpassed)
      exact hreach
    have hvalues := mem_answer_of_flag_value hverify hdescent hsource hlimit hselect hchoice hhit
      hreached
    exact hvalues.2.2.2 ⟨via, by simp [hwaiting], rfl⟩
  have hmeAll : ∀ word ∈ ["me", "all"], word ∈ early.answer mailing.link := by
    obtain ⟨usage, hselect, copy, hhits, hchoice, hwaiting⟩ := hearly
    have hhit := hhits.symm ▸ List.mem_singleton_self (FlagHit.mk copy 0 (.raw "me"))
    have hvalues := mem_answer_of_flag_value hverify hdescent hsource hlimit hselect hchoice hhit
      (by simp [hasked])
    exact hvalues.2.2.2 ⟨copy, by simp [hwaiting], rfl⟩
  refine ⟨hfastSlow "fast" (by simp), hfastSlow "slow" (by simp), hmeAll "me" (by simp),
    hmeAll "all" (by simp), ?_⟩
  rwa [hchild, List.forall_mem_singleton]

/-- A command with flags of one name in two usages. -/
def listing : Command Unit where
  name := "list"
  usages := [
    .ofParameters [
      { name := "add", kind := .literal [] },
      { name := "mode", kind := .flag [] (some (.choice ["x", "y"])) none }],
    .ofParameters [
      { name := "remove", kind := .literal [] },
      { name := "mode", kind := .flag [] (some (.choice ["p", "q"])) none }]]

/-- The second usage takes the flag with its own choice, and the words of the first
usage's choice are offered for it, though the tokens do not match that usage. -/
theorem mislaid_flag_value_listing :
    listing.verify = .ok () ∧
      (∃ usage flag, (Matcher.select {} listing.link ["remove", "-mode", "p"]).selection =
          .complete listing.link usage ∧
        flag.type = some (.choice ["p", "q"]) ∧
        ⟨flag, 1, .raw "p"⟩ ∈ (TokenSplit.ofTokens (listing.link.flagsFor usage)
          ["remove", "-mode", "p"]).hits) ∧
      "p" ∉ (ofTokens {} { maxSuggestions := 0 } .console ["remove", "-mode", ""]).answer
        listing.link := by
  refine ⟨rfl, ⟨_, _, rfl, rfl, .head _⟩, ?_⟩
  have hanswer : (ofTokens {} { maxSuggestions := 0 } .console ["remove", "-mode", ""]).answer
      listing.link = ["x", "y"] := rfl
  rw [hanswer]
  decide

end Completion

end Parlance
