import Parlance.Proofs.Command.Verification
import Parlance.Proofs.Completion.Advancing
import Parlance.Proofs.Slot.BackFill
import Parlance.Proofs.TokenSplit.Parts

/-!
# Fixed words that are offered

Completion offers a fixed word behind tokens that some parameters in front of it
accept, whichever optional ones are left out. Selection leaves out the last optional
ones only. So a word that may still match is offered, but a word may be offered that
no further tokens lead to (`Completion.offers_fixed_word`).
-/

set_option autoImplicit false

namespace Parlance

variable {Act : Type}

/-- The second list is the first one without some optional parameters. -/
inductive LeavesOut : List Parameter → List Parameter → Prop where
  | nil : LeavesOut [] []
  | keep {ps taken : List Parameter} (p : Parameter) (h : LeavesOut ps taken) :
      LeavesOut (p :: ps) (p :: taken)
  | skip {p : Parameter} {ps taken : List Parameter} (hoptional : p.isOptional = true)
      (h : LeavesOut ps taken) : LeavesOut (p :: ps) taken

/-! ## Parameters left out -/

namespace LeavesOut

variable {ps taken : List Parameter}

theorem of_forall_optional (h : ∀ p ∈ ps, p.isOptional = true) : LeavesOut ps [] := by
  induction ps with
  | nil => exact .nil
  | cons p ps ih =>
    rw [List.forall_mem_cons] at h
    exact .skip h.1 (ih h.2)

/-- Where no parameter is optional, none can be left out. -/
theorem eq_keepOptionals_zero (h : LeavesOut ps taken)
    (hnone : ps.countP Parameter.isOptional = 0) : taken = keepOptionals 0 ps := by
  induction h with
  | nil => rfl
  | @keep ps taken p h ih =>
    rw [List.countP_cons, Nat.add_eq_zero_iff] at hnone
    have hoptional : p.isOptional = false := by simpa using hnone.2
    rw [keepOptionals_of_not_optional hoptional, ih hnone.1]
  | @skip p ps taken hoptional h ih =>
    rw [List.countP_cons, Nat.add_eq_zero_iff] at hnone
    simp [hoptional] at hnone

/-- Of one optional parameter there is only one to leave out. -/
theorem exists_eq_keepOptionals (h : LeavesOut ps taken)
    (hcount : ps.countP Parameter.isOptional ≤ 1) :
    ∃ spare, taken = keepOptionals spare ps := by
  induction h with
  | nil => exact ⟨0, rfl⟩
  | @keep ps taken p h ih =>
    rw [List.countP_cons] at hcount
    cases hoptional : p.isOptional with
    | false =>
      obtain ⟨spare, rfl⟩ := ih (by omega)
      exact ⟨spare, by rw [keepOptionals_of_not_optional hoptional]⟩
    | true =>
      rw [hoptional, if_pos rfl] at hcount
      refine ⟨1, ?_⟩
      rw [keepOptionals_succ_of_optional hoptional, h.eq_keepOptionals_zero (by omega)]
  | @skip p ps taken hoptional h ih =>
    rw [List.countP_cons, hoptional, if_pos rfl] at hcount
    refine ⟨0, ?_⟩
    rw [keepOptionals_zero_of_optional hoptional, h.eq_keepOptionals_zero (by omega)]

end LeavesOut

/-! ## What is offered -/

namespace Matcher

variable {m : Matcher} {token : String} {tokens : List String} {p : Parameter}
  {ps left : List Parameter}

theorem Takes.length_le (h : m.Takes token ps left) : left.length ≤ ps.length := by
  induction h with
  | here => split <;> simp
  | pass hoptional hlater ih => exact Nat.le_succ_of_le ih

theorem Takes.length_lt (hgreedy : p.isGreedy = false) (h : m.Takes token (p :: ps) left) :
    left.length < (p :: ps).length := by
  cases h with
  | here haccepts =>
    rw [hgreedy, if_neg Bool.false_ne_true]
    exact Nat.lt_succ_self _
  | pass hoptional hlater => exact Nat.lt_succ_of_le hlater.length_le

theorem Consumes.length_le (h : m.Consumes tokens ps left) : left.length ≤ ps.length := by
  induction h with
  | done => exact Nat.le_refl _
  | next htakes hrest ih => exact Nat.le_trans ih htakes.length_le

/-- Tokens leave a parameter in front of them that is not greedy. -/
theorem Consumes.eq_nil (hgreedy : p.isGreedy = false) (h : m.Consumes tokens (p :: ps) left)
    (hleft : (p :: ps).length ≤ left.length) : tokens = [] := by
  cases h with
  | done => rfl
  | next htakes hrest =>
    have hlt := htakes.length_lt hgreedy
    have hle := hrest.length_le
    omega

end Matcher

namespace Completion

variable {m : Matcher} {tokens : List String} {front rest : List Parameter}

/-- The parameter of the index may come next: it is one that is kept behind the tokens,
or stands behind one with only optional parameters between. -/
def Offers (m : Matcher) (params : List Parameter) (tokens : List String) (index : Nat) : Prop :=
  ∃ i ∈ advance m params tokens, i ≤ index ∧
    ∀ p ∈ (params.drop i).take (index - i), p.isOptional = true

/-- Tokens that lead to a place in `front`, with only optional parameters behind it, are
accepted by parameters of `front`. -/
theorem exists_leavesOut_of_consumes (hfront : ∀ p ∈ front, p.IsSingle) {next : Parameter}
    (hnext : next.isGreedy = false) {i : Nat} (hi : i ≤ front.length)
    (hconsumes : m.Consumes tokens (front ++ next :: rest) ((front ++ next :: rest).drop i))
    (hoptional : ∀ p ∈ front.drop i, p.isOptional = true) :
    ∃ taken, LeavesOut front taken ∧ m.AcceptsEach taken tokens := by
  induction front generalizing tokens i with
  | nil =>
    obtain rfl := Nat.le_zero.1 hi
    obtain rfl := hconsumes.eq_nil hnext (Nat.le_refl _)
    exact ⟨[], .nil, .nil⟩
  | cons p front ih =>
    rw [List.forall_mem_cons] at hfront
    have hp := hfront.1.isGreedy_eq_false
    cases i with
    | zero =>
      obtain rfl := hconsumes.eq_nil hp (Nat.le_refl _)
      exact ⟨[], .of_forall_optional hoptional, .nil⟩
    | succ i =>
      rw [List.cons_append, List.drop_succ_cons] at hconsumes
      rw [List.drop_succ_cons] at hoptional
      generalize hleft : (front ++ next :: rest).drop i = left at hconsumes
      cases hconsumes with
      | done =>
        -- What stands behind a parameter is shorter.
        have hlength := congrArg List.length hleft
        rw [List.length_drop, List.length_cons] at hlength
        omega
      | next htakes hrest =>
        subst hleft
        cases htakes with
        | here haccepts =>
          rw [hp, if_neg Bool.false_ne_true] at hrest
          obtain ⟨taken, hleaves, heach⟩ :=
            ih hfront.2 (Nat.le_of_succ_le_succ hi) hrest hoptional
          exact ⟨p :: taken, .keep p hleaves, .cons haccepts heach⟩
        | pass hp hlater =>
          obtain ⟨taken, hleaves, heach⟩ :=
            ih hfront.2 (Nat.le_of_succ_le_succ hi) (.next hlater hrest) hoptional
          exact ⟨taken, .skip hp hleaves, heach⟩

/-- Tokens that parameters of `front` accept lead to a place in it with only optional
parameters behind. -/
theorem exists_consumes_of_leavesOut (hfront : ∀ p ∈ front, p.IsSingle) {taken : List Parameter}
    (hleaves : LeavesOut front taken) (heach : m.AcceptsEach taken tokens) :
    ∃ i ≤ front.length, m.Consumes tokens (front ++ rest) ((front ++ rest).drop i) ∧
      ∀ p ∈ front.drop i, p.isOptional = true := by
  induction hleaves generalizing tokens with
  | nil =>
    cases heach
    exact ⟨0, Nat.le_refl _, .done _, by simp⟩
  | @keep ps taken p hleaves ih =>
    rw [List.forall_mem_cons] at hfront
    cases heach with
    | cons haccepts heach =>
      obtain ⟨i, hi, hconsumes, hoptional⟩ := ih hfront.2 heach
      have hp := hfront.1.isGreedy_eq_false
      exact ⟨i + 1, Nat.succ_le_succ hi, .next (.here_of_not_greedy hp haccepts) hconsumes,
        hoptional⟩
  | @skip p ps taken hp hleaves ih =>
    rw [List.forall_mem_cons] at hfront
    obtain ⟨i, hi, hconsumes, hoptional⟩ := ih hfront.2 heach
    generalize hleft : (ps ++ rest).drop i = left at hconsumes
    cases hconsumes with
    | done =>
      -- Nothing is taken, so the first parameter is still due.
      have hlength : i ≤ (ps ++ rest).length := by
        rw [List.length_append]
        omega
      obtain rfl : i = 0 := eq_of_drop_eq hlength (Nat.zero_le _) hleft
      exact ⟨0, Nat.zero_le _, .done _, List.forall_mem_cons.2 ⟨hp, hoptional⟩⟩
    | next htakes hrest =>
      subst hleft
      exact ⟨i + 1, Nat.succ_le_succ hi, .next (.pass hp htakes) hrest, hoptional⟩

/-- What is offered behind tokens that parameters in front of it accept, whichever
optional ones are left out, and nothing else. -/
theorem offers_iff (hfront : ∀ p ∈ front, p.IsSingle) {next : Parameter}
    (hnext : next.isGreedy = false) :
    Offers m (front ++ next :: rest) tokens front.length ↔
      ∃ taken, LeavesOut front taken ∧ m.AcceptsEach taken tokens := by
  have hbetween : ∀ i ≤ front.length,
      ((front ++ next :: rest).drop i).take (front.length - i) = front.drop i := by
    intro i hi
    rw [List.drop_append_of_le_length hi, List.take_left' (by rw [List.length_drop])]
  constructor
  · rintro ⟨i, hmem, hi, hoptional⟩
    rw [hbetween i hi] at hoptional
    exact exists_leavesOut_of_consumes hfront hnext hi (mem_advance_iff.1 hmem).2 hoptional
  · rintro ⟨taken, hleaves, heach⟩
    obtain ⟨i, hi, hconsumes, hoptional⟩ := exists_consumes_of_leavesOut hfront hleaves heach
    have hlength : i ≤ (front ++ next :: rest).length := by
      rw [List.length_append]
      omega
    refine ⟨i, mem_advance_iff.2 ⟨hlength, hconsumes⟩, hi, ?_⟩
    rwa [hbetween i hi]

end Completion

/-! ## Tokens of every kind -/

/-- Every type has some token of its shape, unless it is a choice between no words. -/
theorem ValueType.exists_accepts {type : ValueType} (h : type ≠ .choice []) :
    ∃ token, type.accepts token = true := by
  cases type with
  | string => exact ⟨"a", rfl⟩
  | word => exact ⟨"a", by decide⟩
  | integer => exact ⟨"0", by decide⟩
  | float => exact ⟨"0", by decide⟩
  | boolean => exact ⟨"true", by decide⟩
  | duration => exact ⟨"1s", by decide⟩
  | choice words =>
    cases words with
    | nil => exact absurd rfl h
    | cons word words => exact ⟨word, by simp [accepts, Text.sameFolded_refl]⟩
  | custom key => exact ⟨"a", rfl⟩

/-- Without resolvers only the shapes of types count. -/
theorem Resolvers.accepts_eq {resolvers : Resolvers} (h : resolvers.byKey = [])
    (type : ValueType) (token : String) : resolvers.accepts type token = type.accepts token := by
  cases type with
  | custom key => simp [accepts, find?, h, ValueType.accepts]
  | _ => rfl

namespace Matcher

variable {m : Matcher}

/-- A fixed word accepts its own name. -/
theorem accepts_name {p : Parameter} (h : p.isLiteral = true) : m.accepts p p.name = true := by
  unfold Parameter.isLiteral at h
  unfold Matcher.accepts Parameter.acceptsWith Parameter.literalNames
  cases hkind : p.kind <;> simp_all [Text.sameWord_refl]

theorem exists_accepts (hresolvers : m.resolvers.byKey = []) {p : Parameter}
    (hchoice : p.type? ≠ some (.choice [])) : ∃ token, m.accepts p token = true := by
  cases hkind : p.kind with
  | literal aliases => exact ⟨p.name, accepts_name (by simp [Parameter.isLiteral, hkind])⟩
  | required type | optional type fallback =>
    have htype : type ≠ .choice [] := by simpa [Parameter.type?, hkind] using hchoice
    obtain ⟨token, haccepts⟩ := ValueType.exists_accepts htype
    refine ⟨token, ?_⟩
    rw [← Resolvers.accepts_eq hresolvers] at haccepts
    simpa [Matcher.accepts, Parameter.acceptsWith, hkind] using haccepts
  | greedy fallback => exact ⟨"", by simp [Matcher.accepts, Parameter.acceptsWith, hkind]⟩
  | flag aliases type fallback =>
    exact ⟨"", by simp [Matcher.accepts, Parameter.acceptsWith, hkind]⟩

theorem exists_acceptsEach (hresolvers : m.resolvers.byKey = []) {ps : List Parameter}
    (hchoice : ∀ p ∈ ps, p.type? ≠ some (.choice [])) : ∃ tokens, m.AcceptsEach ps tokens := by
  induction ps with
  | nil => exact ⟨[], .nil⟩
  | cons p ps ih =>
    rw [List.forall_mem_cons] at hchoice
    obtain ⟨token, haccepts⟩ := exists_accepts hresolvers hchoice.1
    obtain ⟨tokens, heach⟩ := ih hchoice.2
    exact ⟨token :: tokens, .cons haccepts heach⟩

end Matcher

/-! ## Offered and matched -/

/-- A fixed word can take the token behind `xs` in a line that serves all parameters
and leaves no token exactly if all parameters in front of it but the last optional ones
accept `xs`. -/
theorem Matcher.exists_serves_iff {m : Matcher} (hresolvers : m.resolvers.byKey = [])
    {front back : List Parameter} (hfront : ∀ q ∈ front, q.IsSingle) {p : Parameter}
    (hliteral : p.isLiteral = true) (hflags : ∀ q ∈ back, q.isFlag = false)
    (hgreedy : ∀ q ∈ back.dropLast, q.isGreedy = false)
    (hchoices : ∀ q ∈ back, q.type? ≠ some (.choice [])) (xs : List String) :
    (∃ ys, ((∀ pair ∈ (front ++ p :: back).zip
          (Slot.assign (front ++ p :: back) (xs ++ [p.name] ++ ys).length).1,
        m.Serves (xs ++ [p.name] ++ ys) pair.1 pair.2) ∧
      (Slot.assign (front ++ p :: back) (xs ++ [p.name] ++ ys).length).2 =
        (xs ++ [p.name] ++ ys).length) ∧
      (Slot.assign (front ++ p :: back) (xs ++ [p.name] ++ ys).length).1[front.length]? =
        some (.token xs.length)) ↔
    ∃ spare, m.AcceptsEach (keepOptionals spare front) xs := by
  constructor
  · rintro ⟨ys, ⟨hserves, -⟩, hslot⟩
    rw [List.append_assoc] at hserves hslot
    exact exists_acceptsEach_of_serves hfront hserves hslot
  · rintro ⟨spare, heach⟩
    obtain ⟨ys, hys⟩ : ∃ ys, m.AcceptsEach (back.filter Parameter.needsToken) ys :=
      exists_acceptsEach hresolvers fun q hq => hchoices q (List.mem_filter.1 hq).1
    obtain ⟨hserves, htaken, hslot⟩ := serves_of_acceptsEach hfront
      (Parameter.isRequired_of_isLiteral hliteral) hflags hgreedy heach (accepts_name hliteral) hys
    exact ⟨ys, ⟨hserves, htaken⟩, hslot⟩

/-- Where no flag is in effect, tokens match a usage as they stand. -/
theorem Matcher.tryUsage_found_iff_of_no_flags {m : Matcher} {node : Node Act}
    {usage : Usage Act} (hflags : node.flagsFor usage = []) (tokens : List String) :
    (m.tryUsage node tokens usage).found = some usage ↔
      (∀ pair ∈ usage.positional.zip (Slot.assign usage.positional tokens.length).1,
        m.Serves tokens pair.1 pair.2) ∧
      (Slot.assign usage.positional tokens.length).2 = tokens.length := by
  have hsplit : TokenSplit.ofTokens [] tokens = { positional := tokens } :=
    TokenSplit.ofTokens_of_matchFlag? fun token _ => by simp [matchFlag?]
  rw [m.tryUsage_found_iff, Matcher.Matches, hflags, hsplit, and_iff_right rfl]

namespace Completion

/-- Behind the same tokens a fixed word is offered if they are accepted by the
parameters in front of it without some optional ones, and it can take the next token
of a line that matches if they are accepted without the last optional ones. So every
word that can match is offered. One that is offered can match if at most one optional
parameter stands in front of it. -/
theorem offers_fixed_word {usage : Usage Act} (hverify : usage.verify = .ok ())
    {node : Node Act} (hflags : node.flagsFor usage = []) {m : Matcher}
    (hresolvers : m.resolvers.byKey = [])
    (hchoices : ∀ q ∈ usage.positional, q.type? ≠ some (.choice []))
    {front back : List Parameter} {p : Parameter}
    (hparams : usage.positional = front ++ p :: back) (hliteral : p.isLiteral = true)
    (xs : List String) :
    (Offers m usage.positional xs front.length ↔
      ∃ taken, LeavesOut front taken ∧ m.AcceptsEach taken xs) ∧
    ((∃ ys, (m.tryUsage node (xs ++ [p.name] ++ ys) usage).found = some usage ∧
        (Slot.assign usage.positional (xs ++ [p.name] ++ ys).length).1[front.length]? =
          some (.token xs.length)) ↔
      ∃ spare, m.AcceptsEach (keepOptionals spare front) xs) ∧
    (front.countP Parameter.isOptional ≤ 1 → Offers m usage.positional xs front.length →
      ∃ ys, (m.tryUsage node (xs ++ [p.name] ++ ys) usage).found = some usage) := by
  -- Only the last parameter may be greedy, so none in front of `p` is.
  have hgreedy := (Usage.verify_eq_ok_iff.1 hverify).greedyLast
  have hpositional : ∀ q ∈ usage.positional, q.isFlag = false := by
    intro q hq
    simpa using (List.mem_filter.1 hq).2
  rw [hparams, List.dropLast_append_of_ne_nil (List.cons_ne_nil p back),
    List.forall_mem_append] at hgreedy
  rw [hparams, List.forall_mem_append, List.forall_mem_cons] at hpositional hchoices
  have hfront : ∀ q ∈ front, q.IsSingle := fun q hq =>
    Parameter.isSingle_of_not_greedy (hpositional.1 q hq) (hgreedy.1 q hq)
  have hback : ∀ q ∈ back.dropLast, q.isGreedy = false := by
    intro q hq
    refine hgreedy.2 q ?_
    cases back with
    | nil => cases hq
    | cons first back => exact .tail _ hq
  have hp : p.IsSingle := .inr (Parameter.isRequired_of_isLiteral hliteral)
  have hoffers : Offers m usage.positional xs front.length ↔
      ∃ taken, LeavesOut front taken ∧ m.AcceptsEach taken xs := by
    rw [hparams]
    exact offers_iff hfront hp.isGreedy_eq_false
  have hcompletes : (∃ ys, (m.tryUsage node (xs ++ [p.name] ++ ys) usage).found = some usage ∧
        (Slot.assign usage.positional (xs ++ [p.name] ++ ys).length).1[front.length]? =
          some (.token xs.length)) ↔
      ∃ spare, m.AcceptsEach (keepOptionals spare front) xs := by
    simp only [Matcher.tryUsage_found_iff_of_no_flags hflags]
    rw [hparams]
    exact Matcher.exists_serves_iff hresolvers hfront hliteral hpositional.2.2 hback
      hchoices.2.2 xs
  refine ⟨hoffers, hcompletes, ?_⟩
  intro hcount hoffered
  obtain ⟨taken, hleaves, heach⟩ := hoffers.1 hoffered
  obtain ⟨spare, rfl⟩ := hleaves.exists_eq_keepOptionals hcount
  obtain ⟨ys, hfound, -⟩ := hcompletes.2 ⟨spare, heach⟩
  exact ⟨ys, hfound⟩

/-- How to buy fruit: any number of it, one if none is given. -/
def buying : Usage Unit :=
  .ofParameters [
    { name := "fruit", kind := .required (.choice ["apple", "pear"]) },
    { name := "count", kind := .optional .integer none },
    { name := "from", kind := .literal ["at"] },
    { name := "place", kind := .greedy none }]

/-- The word behind the number is offered with and without a number, and can match in
both cases. -/
theorem offers_fixed_word_buying :
    let node : Node Unit := Command.link { name := "buy", usages := [buying] }
    let completes (xs : List String) : Prop := Offers {} buying.positional xs 2 ∧
      ∃ ys, (Matcher.tryUsage {} node (xs ++ ["from"] ++ ys) buying).found = some buying
    completes ["pear"] ∧ completes ["pear", "3"] := by
  intro node completes
  have hverify : buying.verify = .ok () := rfl
  have hflags : node.flagsFor buying = [] := rfl
  have hresolvers : ({} : Matcher).resolvers.byKey = [] := rfl
  obtain ⟨fruit, count, word, place, hparams, hchoices, hcount, hliteral, hname⟩ :
      ∃ fruit count word place, buying.positional = [fruit, count] ++ word :: [place] ∧
        (∀ q ∈ buying.positional, q.type? ≠ some (.choice [])) ∧
        [fruit, count].countP Parameter.isOptional ≤ 1 ∧ word.isLiteral = true ∧
        word.name = "from" :=
    ⟨_, _, _, _, rfl, by decide, by decide, rfl, rfl⟩
  have hcompletes : ∀ xs, Offers {} buying.positional xs 2 → completes xs := by
    intro xs hoffers
    have hword := offers_fixed_word hverify hflags hresolvers hchoices hparams hliteral xs
    rw [hname] at hword
    exact ⟨hoffers, hword.2.2 hcount hoffers⟩
  exact ⟨hcompletes _ ⟨1, by decide, by decide, by decide⟩,
    hcompletes _ ⟨2, by decide, by decide, by decide⟩⟩

/-- A usage with two optional parameters in front of a word. -/
def dropping : Usage Unit :=
  .ofParameters [
    { name := "count", kind := .optional .integer none },
    { name := "note", kind := .optional .string none },
    { name := "drop", kind := .literal [] }]

/-- Behind a note the word is offered, though the note is taken for the number in
whatever line goes on from there. -/
theorem offers_unmatched_dropping :
    let node : Node Unit := Command.link { name := "item", usages := [dropping] }
    dropping.verify = .ok () ∧ node.flagsFor dropping = [] ∧
      (∀ q ∈ dropping.positional, q.type? ≠ some (.choice [])) ∧
      (∃ p, dropping.positional[2]? = some p ∧ p.isLiteral = true ∧ p.name = "drop") ∧
      Offers {} dropping.positional ["foo"] 2 ∧
      ∀ ys, (Matcher.tryUsage {} node (["foo"] ++ ["drop"] ++ ys) dropping).found = none := by
  intro node
  refine ⟨rfl, rfl, by decide, ⟨_, rfl, rfl, rfl⟩, ⟨2, by decide, by decide, by decide⟩, ?_⟩
  intro ys
  rw [Option.eq_none_iff_forall_ne_some]
  intro found hfound
  obtain ⟨rfl, -⟩ := (Matcher.tryUsage_found_iff _).1 hfound
  obtain ⟨hserves, -⟩ := (Matcher.tryUsage_found_iff_of_no_flags rfl _).1 hfound
  obtain ⟨count, note, word, hparams, hoptional, hneeds, hrefuses⟩ :
      ∃ count note word, dropping.positional = [count, note, word] ∧ count.isOptional = true ∧
        [note, word].countP Parameter.needsToken = 1 ∧
        Matcher.accepts {} count "foo" = false :=
    ⟨_, _, _, rfl, rfl, by decide, by decide⟩
  obtain ⟨slot, next, hgives, hassign⟩ := Slot.exists_gives (["foo"] ++ ["drop"] ++ ys).length 0
    count [note, word]
  rw [hparams, Slot.assign, hassign, List.zip_cons_cons, List.forall_mem_cons] at hserves
  cases hgives with
  | greedy hgreedy =>
    rw [Parameter.IsSingle.isGreedy_eq_false (.inl hoptional)] at hgreedy
    cases hgreedy
  | token =>
    obtain ⟨token, htoken, haccepts⟩ := hserves.1
    obtain rfl : "foo" = token := Option.some.inj htoken
    rw [hrefuses] at haccepts
    cases haccepts
  | skipped _ hspare =>
    have hlength : (["foo"] ++ ["drop"] ++ ys).length = 2 + ys.length := List.length_append
    omega
  | missing _ hrequired =>
    rw [hoptional] at hrequired
    cases hrequired

end Completion

end Parlance
