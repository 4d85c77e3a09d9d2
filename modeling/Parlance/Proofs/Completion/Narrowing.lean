import Parlance.Proofs.Completion.Answer
import Parlance.Proofs.Resolution.StoredNames
import Parlance.Proofs.ValueType.LetterCase

/-!
# Typing on

What is typed of a token narrows the completions down and adds none. In a tree without
suggesters of its own, and without resolvers of custom types, the answer for a token that is
begun is what begins like it in the answer for a new token, in the same order, cut to the
limit. Suggesters and resolvers may go by what is typed; what they suggest is still held
against it, offered once and cut (`Completion.answer_narrows`).
-/

set_option autoImplicit false

namespace Parlance

variable {Act : Type}

/-! ## Beginnings of texts -/

namespace Text

/-- The text begins with as many bytes as `start` has, up to a boundary between characters,
and these are the same but for the case of ASCII letters. -/
def BeginsLike (start text : String) : Prop :=
  ∃ head rest, text = head ++ rest ∧ head.utf8ByteSize = start.utf8ByteSize ∧
    sameFolded head start = true

theorem utf8Size_toLower (c : Char) : c.toLower.utf8Size = c.utf8Size := by
  refine apply_toLower ?_ c
  intro c d hlow hhigh hsmall
  have hone : ∀ e : Char, e.toNat ≤ 127 → e.utf8Size = 1 := fun e he =>
    Char.utf8Size_eq_one_iff.2 (UInt32.le_iff_toNat_le.2 he)
  rw [hone c (by omega), hone d (by omega)]

/-- Letter case takes no bytes. -/
theorem utf8ByteSize_eq_of_sameFolded {a b : String} (h : sameFolded a b = true) :
    a.utf8ByteSize = b.utf8ByteSize := by
  have hsize : ∀ cs : List Char,
      (String.ofList (cs.map Char.toLower)).utf8ByteSize = (String.ofList cs).utf8ByteSize := by
    intro cs
    induction cs with
    | nil => rfl
    | cons c cs ih =>
      rw [List.map_cons, String.ofList_cons, String.utf8ByteSize_append, ih,
        String.utf8ByteSize_singleton, utf8Size_toLower, String.ofList_cons,
        String.utf8ByteSize_append, String.utf8ByteSize_singleton]
  have hbytes := apply_eq_of_sameFolded (f := fun cs => (String.ofList cs).utf8ByteSize) hsize h
  rwa [String.ofList_toList, String.ofList_toList] at hbytes

theorem beginsFolded_iff {start text : String} :
    beginsFolded start text = true ↔ BeginsLike start text := by
  rw [beginsFolded, List.isPrefixOf_iff_prefix]
  constructor
  · rintro ⟨rest, hrest⟩
    obtain ⟨head, tail, htext, hhead, -⟩ := List.map_eq_append_iff.1 hrest.symm
    have hsame : sameFolded (String.ofList head) start = true := by
      rw [sameFolded_iff, folded, String.toList_ofList, hhead]
    refine ⟨String.ofList head, String.ofList tail, ?_, utf8ByteSize_eq_of_sameFolded hsame, hsame⟩
    rw [← String.ofList_append, ← htext, String.ofList_toList]
  · rintro ⟨head, rest, rfl, -, hsame⟩
    rw [← sameFolded_iff.1 hsame, folded, folded, String.toList_append, List.map_append]
    exact List.prefix_append _ _

instance (start text : String) : Decidable (BeginsLike start text) :=
  decidable_of_iff _ beginsFolded_iff

end Text

/-! ## Lists without repetitions -/

section EraseDups

variable {α : Type} [BEq α] [LawfulBEq α]

/-- Repetitions are removed among those that pass a test as among all. -/
theorem eraseDups_filter (test : α → Bool) (xs : List α) :
    (xs.filter test).eraseDups = xs.eraseDups.filter test := by
  cases xs with
  | nil => rfl
  | cons x xs =>
    have hothers := eraseDups_filter test (xs.filter fun y => !y == x)
    rw [List.eraseDups_cons]
    cases hx : test x with
    | true =>
      rw [List.filter_cons_of_pos hx, List.filter_cons_of_pos hx, List.eraseDups_cons,
        List.filter_comm, hothers]
    | false =>
      -- What is equal to `x` does not pass the test either.
      have hnone : (xs.filter fun y => !y == x).filter test = xs.filter test := by
        rw [List.filter_filter]
        apply List.filter_congr
        intro y _
        cases hy : y == x with
        | false => rw [Bool.not_false, Bool.and_true]
        | true => rw [eq_of_beq hy, hx, Bool.false_and]
      rw [List.filter_cons_of_neg (by rw [hx]; exact Bool.false_ne_true),
        List.filter_cons_of_neg (by rw [hx]; exact Bool.false_ne_true), ← hothers, hnone]
termination_by xs.length
decreasing_by exact Nat.lt_succ_of_le (List.length_filter_le _ _)

theorem nodup_eraseDups (xs : List α) : xs.eraseDups.Nodup := by
  cases xs with
  | nil => exact List.nodup_nil
  | cons x xs =>
    rw [List.eraseDups_cons, List.nodup_cons]
    exact ⟨by simp, nodup_eraseDups _⟩
termination_by xs.length
decreasing_by exact Nat.lt_succ_of_le (List.length_filter_le _ _)

end EraseDups

/-! ## Trees without suggesters -/

/-- No parameter that is declared in the tree has a suggester. -/
inductive Command.LacksSuggesters : Command Act → Prop where
  | intro {command : Command Act}
      (usages : ∀ usage ∈ command.usages, ∀ p ∈ usage.parameters, p.suggester = none)
      (children : ∀ child ∈ command.children, child.LacksSuggesters) : command.LacksSuggesters

/-- No usage in the tree, as it is seen from the root, has a parameter with a suggester. -/
inductive Node.LacksSuggesters : Node Act → Prop where
  | intro {node : Node Act}
      (usages : ∀ e ∈ node.effective, ∀ p ∈ e.usage.parameters, p.suggester = none)
      (children : ∀ child ∈ node.children, child.LacksSuggesters) : node.LacksSuggesters

/-- What leads to a command comes from the commands above, so it has no suggesters either. -/
theorem Command.LacksSuggesters.linkUnder {command : Command Act} (h : command.LacksSuggesters)
    (above : List String) {lead : List Parameter} (hlead : ∀ p ∈ lead, p.suggester = none)
    (flags : List Flag) : (command.linkUnder above lead flags).LacksSuggesters := by
  induction h generalizing above lead flags with
  | @intro command usages children ih =>
    constructor
    · intro e he p hp
      rw [effective_linkUnder, mem_arrange] at he
      obtain ⟨usage, husage, heq⟩ := EffectiveUsage.exists_of_mem_behind he
      rw [heq] at hp
      obtain ⟨q, hq, hplaced⟩ := Usage.exists_of_mem_numberFrom hp
      rw [hplaced]
      rcases List.mem_append.1 hq with hq | hq
      · exact hlead q hq
      · exact usages usage husage q hq
    · intro node hnode
      rw [children_linkUnder, List.mem_map] at hnode
      obtain ⟨child, hchild, rfl⟩ := hnode
      refine ih child hchild _ ?_ _
      intro p hp
      rcases mem_leadTo.1 hp with hp | hp | rfl
      · exact hlead p hp
      · rcases command.between_eq_nil_or child.toDeclaration with hnone | ⟨main, hmain, heq⟩
        · rw [hnone] at hp
          exact absurd hp List.not_mem_nil
        · rw [heq] at hp
          exact usages main hmain p hp
      · rfl

namespace Completion

/-! ## A new token -/

/-- The request for all completions of a new token in the place of the unfinished one. -/
def afresh (c : Completion) : Completion :=
  { c with start := "", config := { c.config with maxSuggestions := 0 } }

theorem mem_of_mem_upcoming {ps : List Parameter} {p : Parameter} (h : p ∈ upcoming ps) :
    p ∈ ps := by
  induction ps with
  | nil => exact h
  | cons q ps ih =>
    unfold upcoming at h
    split at h
    · rcases List.mem_cons.1 h with rfl | h
      · exact List.mem_cons_self
      · exact List.mem_cons_of_mem _ (ih h)
    · rw [List.mem_singleton.1 h]
      exact List.mem_cons_self

section Afresh

variable {c : Completion} (hresolvers : c.matcher.resolvers.byKey = [])
include hresolvers

/-- Of the types only custom ones go by what is typed. -/
theorem ofType_afresh (type : ValueType) : c.afresh.ofType type = c.ofType type := by
  cases type with
  | custom key =>
    have hnone : c.matcher.resolvers.find? key = none := by
      rw [Resolvers.find?, hresolvers, List.lookup_nil]
    simp only [ofType, afresh, Resolvers.suggestions, hnone, Option.map_none]
  | _ => rfl

theorem ofParameter_afresh {p : Parameter} (hp : p.suggester = none) :
    c.afresh.ofParameter p = c.ofParameter p := by
  have htype : c.afresh.ofType = c.ofType := funext (ofType_afresh hresolvers)
  rw [ofParameter, ofParameter, hp, htype, Option.map_none, Option.map_none]

theorem ofUsage_afresh (node : Node Act) {usage : Usage Act}
    (husage : ∀ p ∈ usage.parameters, p.suggester = none) :
    c.afresh.ofUsage node usage = c.ofUsage node usage := by
  have hvalues : ∀ index, (upcoming (usage.positional.drop index)).flatMap c.afresh.ofParameter =
      (upcoming (usage.positional.drop index)).flatMap c.ofParameter := by
    intro index
    apply List.flatMap_congr
    intro p hp
    have hpositional := List.mem_of_mem_drop (mem_of_mem_upcoming hp)
    exact ofParameter_afresh hresolvers (husage p (List.mem_of_mem_filter hpositional))
  simp only [ofUsage, hvalues]
  rfl

/-- What is typed of a token makes no difference to the candidates. -/
theorem ofNode_afresh {node : Node Act} (hnode : node.LacksSuggesters) :
    c.afresh.ofNode node = c.ofNode node := by
  induction hnode with
  | @intro node usages children ih =>
    have htype : c.afresh.ofType = c.ofType := funext (ofType_afresh hresolvers)
    have hown : (c.offered node).flatMap (c.afresh.ofUsage node) =
        (c.offered node).flatMap (c.ofUsage node) := by
      apply List.flatMap_congr
      intro usage husage
      obtain ⟨e, he, rfl⟩ := List.mem_map.1 (List.mem_of_mem_filter husage)
      exact ofUsage_afresh hresolvers node (usages e he)
    have hbelow : c.afresh.ofChildren (c.filters node) node.children =
        c.ofChildren (c.filters node) node.children := by
      rw [ofChildren_eq, ofChildren_eq]
      apply List.flatMap_congr
      intro child hchild
      rw [ofChild, ofChild, ih child hchild]
      rfl
    -- Which usages are offered, and which flags wait, is told by the finished tokens alone.
    have hoffered : c.afresh.offered node = c.offered node := rfl
    have hpending : c.afresh.pending node (c.offered node) = c.pending node (c.offered node) := rfl
    have hfilters : c.afresh.filters node = c.filters node := rfl
    rw [ofNode_eq, ofNode_eq, hoffered, hpending, hfilters, hown, hbelow, htype]

end Afresh

/-! ## The answer -/

variable {c : Completion} {root : Node Act}

theorem answer_sublist (c : Completion) (root : Node Act) : (c.answer root).Sublist
    ((c.ofNode root).filter (Text.beginsFolded c.start)).eraseDups := by
  rw [answer, Config.limit]
  split
  · exact List.Sublist.refl _
  · exact List.take_sublist _ _

theorem nodup_answer (c : Completion) (root : Node Act) : (c.answer root).Nodup :=
  (answer_sublist c root).nodup (nodup_eraseDups _)

theorem beginsLike_of_mem_answer {word : String} (h : word ∈ c.answer root) :
    Text.BeginsLike c.start word := by
  have hfiltered := List.mem_eraseDups.1 ((answer_sublist c root).subset h)
  exact Text.beginsFolded_iff.1 (List.mem_filter.1 hfiltered).2

theorem length_answer_le (hlimit : c.config.maxSuggestions ≠ 0) (root : Node Act) :
    (c.answer root).length ≤ c.config.maxSuggestions := by
  rw [answer, Config.limit, if_neg hlimit]
  exact List.length_take_le _ _

/-- For a new token the answer holds all candidates, each once. -/
theorem answer_afresh (c : Completion) (root : Node Act) :
    c.afresh.answer root = (c.afresh.ofNode root).eraseDups := by
  have hall : (c.afresh.ofNode root).filter (Text.beginsFolded "") = c.afresh.ofNode root :=
    List.filter_eq_self.2 fun word _ => Text.beginsFolded_empty word
  have hany : c.afresh.config.maxSuggestions = 0 := rfl
  rw [answer, Config.limit, if_pos hany]
  exact congrArg List.eraseDups hall

/-- Where typing makes no difference to the candidates, it narrows the answer down. -/
theorem answer_eq_filter_afresh (h : c.afresh.ofNode root = c.ofNode root) : c.answer root =
    c.config.limit ((c.afresh.answer root).filter fun word =>
      decide (Text.BeginsLike c.start word)) := by
  have htest : (fun word => decide (Text.BeginsLike c.start word)) = Text.beginsFolded c.start := by
    funext word
    rw [Bool.eq_iff_iff, decide_eq_true_iff, Text.beginsFolded_iff]
  rw [answer_afresh, h, htest, ← eraseDups_filter, answer]

/-- Typing filters. In any tree without suggesters, where no custom type has a resolver, the
answer for a token that is begun is made of the answer for a new one, which holds each word
once: it is what begins like the token, in the same order, as much as the limit allows.
Whatever the tree and the resolvers, an answer holds each word once, only words that begin
like the token, and no more than the limit allows. -/
theorem answer_narrows (matcher : Matcher) (config : Config) (source : Source)
    (done : List String) (start : String) :
    (∀ command : Command Act, command.LacksSuggesters → matcher.resolvers.byKey = [] →
      let full := (ofTokens matcher { config with maxSuggestions := 0 } source
        (done ++ [""])).answer command.link
      let narrowed := full.filter fun word => decide (Text.BeginsLike start word)
      full.Nodup ∧
        (ofTokens matcher config source (done ++ [start])).answer command.link =
          if config.maxSuggestions = 0 then narrowed else narrowed.take config.maxSuggestions) ∧
    ∀ root : Node Act,
      let words := (ofTokens matcher config source (done ++ [start])).answer root
      words.Nodup ∧ (∀ word ∈ words, Text.BeginsLike start word) ∧
        (config.maxSuggestions ≠ 0 → words.length ≤ config.maxSuggestions) := by
  refine ⟨?narrowing, ?kept⟩
  case narrowing =>
    intro command hcommand hresolvers full narrowed
    refine ⟨nodup_answer _ _, ?_⟩
    let c : Completion := { matcher, config, source, done, start }
    have hfull : full = c.afresh.answer command.link := by
      show (ofTokens _ _ _ (done ++ [""])).answer _ = _
      rw [ofTokens_concat]
      rfl
    have hlink : command.link.LacksSuggesters := hcommand.linkUnder [] (by simp) []
    have hsame := ofNode_afresh (c := c) hresolvers hlink
    rw [ofTokens_concat, answer_eq_filter_afresh hsame, ← hfull]
    rfl
  case kept =>
    intro root words
    have hwords : words = Completion.answer { matcher, config, source, done, start } root := by
      show (ofTokens _ _ _ (done ++ [start])).answer _ = _
      rw [ofTokens_concat]
    rw [hwords]
    exact ⟨nodup_answer _ _, fun _ => beginsLike_of_mem_answer, (length_answer_le · _)⟩

/-- A command for a garden, which names one fruit in both of its usages. -/
def harvesting : Command Unit where
  name := "garden"
  usages := [
    .ofParameters [{ name := "fruit", kind := .required (.choice ["Äpfel", "plum", "xÄ"]) }],
    .ofParameters [
      { name := "count", kind := .required .integer, suggestions := ["12", "plum", "ÄPFEL"] },
      { name := "deep", kind := .flag ["d"] none none }]]
  children := [{
    name := "pick"
    attachment := .main
    usages := [.ofParameters [{ name := "sort", kind := .greedy none, suggestions := ["red"] }]] },
    { name := "äpple", aliases := ["plum"] }]

/-- The letter of two bytes must be typed as it is, the one behind it in either case, and a
word is not cut within a letter. -/
theorem answer_narrows_harvesting :
    let answer (limit : Nat) (done : List String) (start : String) : List String :=
      (ofTokens {} { maxSuggestions := limit } .console (done ++ [start])).answer harvesting.link
    answer 0 [] "" = ["Äpfel", "plum", "xÄ", "12", "ÄPFEL", "-deep", "-d", "äpple"] ∧
      answer 0 [] "ÄP" = ["Äpfel", "ÄPFEL"] ∧ answer 1 [] "ÄP" = ["Äpfel"] ∧
      answer 0 [] "äP" = ["äpple"] ∧ answer 0 [] "xY" = [] ∧ answer 1 ["plum"] "P" = ["pick"] ∧
      (answer 1 [] "ÄP").length ≤ 1 := by
  intro answer
  have hlacks : harvesting.LacksSuggesters := by
    refine ⟨by simp [harvesting, Usage.ofParameters, Usage.numberFrom, Parameter.isFlag], ?_⟩
    intro child hchild
    rcases List.mem_cons.1 hchild with rfl | hchild
    · exact ⟨by simp [Usage.ofParameters, Usage.numberFrom, Parameter.isFlag], by simp⟩
    · rw [List.mem_singleton.1 hchild]
      exact ⟨by simp, by simp⟩
  have hnarrows (limit : Nat) (done : List String) (start : String) :
      let narrowed := (answer 0 done "").filter fun word => decide (Text.BeginsLike start word)
      answer limit done start = if limit = 0 then narrowed else narrowed.take limit :=
    ((answer_narrows {} { maxSuggestions := limit } .console done start).1 harvesting hlacks rfl).2
  have hfirst : answer 0 [] "" =
      ["Äpfel", "plum", "xÄ", "12", "ÄPFEL", "-deep", "-d", "äpple"] := rfl
  have hnext : answer 0 ["plum"] "" = ["pick"] := rfl
  refine ⟨hfirst, ?_, ?_, ?_, ?_, ?_, ?_⟩
  · rw [hnarrows, hfirst]
    decide
  · rw [hnarrows, hfirst]
    decide
  · rw [hnarrows, hfirst]
    decide
  · rw [hnarrows, hfirst]
    decide
  · rw [hnarrows, hnext]
    decide
  · exact ((answer_narrows {} _ .console [] "ÄP").2 harvesting.link).2.2 (by decide)

end Completion

end Parlance
