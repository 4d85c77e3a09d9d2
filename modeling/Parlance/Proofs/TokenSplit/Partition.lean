import Parlance.Proofs.TokenSplit.Occurrences

/-!
# Every token has one part

Taking tokens apart loses none and repeats none: each is positional, or an occurrence of a
flag, or the value of the occurrence in front of it (`ofTokens_partition`). What is left as
positional names no flag, so that it is not taken apart any further.
-/

set_option autoImplicit false

namespace Parlance

/-- The indices of the tokens that belong to an occurrence: its own, and behind it that of
the value it carries. -/
def FlagHit.indices (hit : FlagHit) : List Nat :=
  match hit.value with
  | .raw _ => [hit.index, hit.index + 1]
  | .present | .missing => [hit.index]

namespace TokenSplit

variable {flags : List Flag} {index : Nat} {tokens : List String}

/-! ## Places of tokens -/

/-- The positional tokens have places among all tokens, in order, and their places with the
indices that belong to the occurrences are all there are, each once. -/
theorem exists_placed (flags : List Flag) (index : Nat) (tokens : List String) :
    ∃ placed : List (String × Nat),
      placed.map Prod.fst = (splitFrom flags index tokens).positional ∧
      placed.Sublist (tokens.zipIdx index) ∧
      (placed.map Prod.snd ++ (splitFrom flags index tokens).hits.flatMap FlagHit.indices).Perm
        (List.range' index tokens.length) := by
  fun_induction splitFrom flags index tokens with
  | case1 index => exact ⟨[], rfl, List.Sublist.slnil, .refl _⟩
  | case2 index token tokens hnone ih =>
    obtain ⟨placed, htokens, hsublist, hperm⟩ := ih
    exact ⟨(token, index) :: placed, by simp [htokens], hsublist.cons_cons _, hperm.cons index⟩
  | case3 index token tokens flag hflag hswitch ih =>
    obtain ⟨placed, htokens, hsublist, hperm⟩ := ih
    exact ⟨placed, htokens, hsublist.cons _, List.perm_middle.trans (hperm.cons index)⟩
  | case4 index token flag hflag hvalued =>
    exact ⟨[], rfl, List.nil_sublist _, .refl _⟩
  | case5 index token flag hflag hvalued next rest hnext ih =>
    obtain ⟨placed, htokens, hsublist, hperm⟩ := ih
    exact ⟨placed, htokens, hsublist.cons _, List.perm_middle.trans (hperm.cons index)⟩
  | case6 index token flag hflag hvalued next rest hnext ih =>
    obtain ⟨placed, htokens, hsublist, hperm⟩ := ih
    refine ⟨placed, htokens, (hsublist.cons _).cons _, ?_⟩
    have hvalue := List.perm_middle.trans (hperm.cons (index + 1))
    exact List.perm_middle.trans (hvalue.cons index)

/-! ## Positional tokens -/

/-- A positional token names no flag. -/
theorem matchFlag?_of_mem_positional {token : String}
    (h : token ∈ (splitFrom flags index tokens).positional) : matchFlag? flags token = none := by
  fun_induction splitFrom flags index tokens with
  | case1 => exact absurd h List.not_mem_nil
  | case2 index first tokens hnone ih =>
    rcases List.mem_cons.1 h with rfl | h
    · exact hnone
    · exact ih h
  | case3 index first tokens flag hflag hswitch ih => exact ih h
  | case4 => exact absurd h List.not_mem_nil
  | case5 index first flag hflag hvalued next rest hnext ih => exact ih h
  | case6 index first flag hflag hvalued next rest hnext ih => exact ih h

/-! ## The parts -/

/-- The split has each of the tokens in one of its parts; `placed` are the positional tokens
with their indices. -/
structure Partitions (flags : List Flag) (tokens : List String) (split : TokenSplit)
    (placed : List (String × Nat)) : Prop where
  positional : placed.map Prod.fst = split.positional
  /-- Positional tokens are in the order of the tokens, each at its index. -/
  placedOrdered : placed.Sublist tokens.zipIdx
  hitsOrdered : split.hits.Pairwise fun a b => a.index < b.index
  /-- Every index is that of a positional token, of an occurrence or of its value, and
  of one of them only. -/
  once : (placed.map Prod.snd ++ split.hits.flatMap FlagHit.indices).Perm
    (List.range tokens.length)
  /-- The occurrences of a flag are the tokens that name it. -/
  occurrences : ∀ index flag, (∃ hit ∈ split.hits, hit.index = index ∧ hit.flag = flag) ↔
    (tokens[index]?).bind (matchFlag? flags) = some flag
  /-- A switch carries nothing; a flag that takes a value carries the next token, unless
  there is none or it names a flag. -/
  values : ∀ hit ∈ split.hits, hit.value = valueBefore flags hit.flag tokens[hit.index + 1]?

/-- Taking tokens apart puts each of them into one part, in order; and the positional ones
stay as they are when they are taken apart again. -/
theorem ofTokens_partition (flags : List Flag) (tokens : List String) :
    (∃ placed, Partitions flags tokens (ofTokens flags tokens) placed) ∧
    ofTokens flags (ofTokens flags tokens).positional =
      { positional := (ofTokens flags tokens).positional } := by
  obtain ⟨placed, hpositional, hsublist, honce⟩ := exists_placed flags 0 tokens
  have hshows : ∀ hit, hit ∈ (ofTokens flags tokens).hits ↔
      (tokens[hit.index]?).bind (matchFlag? flags) = some hit.flag ∧
        hit.value = valueBefore flags hit.flag tokens[hit.index + 1]? := by
    intro hit
    rw [ofTokens, mem_hits_iff_shows, Shows]
    simp only [Nat.zero_add, exists_eq_left']
  refine ⟨⟨placed, hpositional, hsublist, pairwise_index_hits, ?once, ?occurrences, ?values⟩,
    ?again⟩
  case once =>
    rw [List.range_eq_range']
    exact honce
  case occurrences =>
    intro index flag
    constructor
    · rintro ⟨hit, hmem, rfl, rfl⟩
      exact ((hshows hit).1 hmem).1
    · intro hnamed
      exact ⟨⟨flag, index, valueBefore flags flag tokens[index + 1]?⟩,
        (hshows _).2 ⟨hnamed, rfl⟩, rfl, rfl⟩
  case values => exact fun hit hmem => ((hshows hit).1 hmem).2
  case again => exact ofTokens_of_matchFlag? fun token => matchFlag?_of_mem_positional

/-- Two flags that take values stand in a row: the first goes without, and no token is
lost. -/
example :
    let flags : List Flag := [{ name := "at", type := some .word }, { name := "loud" }]
    ofTokens flags ["-at", "-at", "noon", "-5", "--loud"] =
      { positional := ["-5"]
        hits := [⟨flags[0], 0, .missing⟩, ⟨flags[0], 1, .raw "noon"⟩, ⟨flags[1], 4, .present⟩] } :=
  rfl

end TokenSplit

end Parlance
