import Mathlib.Data.List.Forall2
import Parlance.Proofs.Completion.Offering
import Parlance.Proofs.TokenSplit.Parts
import Parlance.Proofs.ValueType.LetterCase

/-!
# Splits and letter case

Names of flags are compared exactly, so a token with a dash in front may not change. Where
the other tokens change in letter case only, the same tokens are flags, the same are their
values and the same remain: the splits agree but for letter case
(`TokenSplit.folded_ofTokens`).
-/

set_option autoImplicit false

namespace Parlance

/-! ## Tokens -/

/-- The tokens differ in letter case at most, and not at all if one begins with a dash. -/
structure IsRecased (a b : String) : Prop where
  same : Text.sameFolded a b = true
  dashed : ¬ IsUndashed a ∨ ¬ IsUndashed b → a = b

theorem isRecased_iff {a b : String} : IsRecased a b ↔
    Text.sameFolded a b = true ∧ (¬ IsUndashed a ∨ ¬ IsUndashed b → a = b) :=
  ⟨fun h => ⟨h.same, h.dashed⟩, fun h => ⟨h.1, h.2⟩⟩

instance (a b : String) : Decidable (IsRecased a b) :=
  decidable_of_iff' _ isRecased_iff

theorem IsRecased.matchFlag?_eq {a b : String} (h : IsRecased a b) (flags : List Flag) :
    matchFlag? flags a = matchFlag? flags b := by
  by_cases hdashed : ¬ IsUndashed a ∨ ¬ IsUndashed b
  · rw [h.dashed hdashed]
  · rw [not_or, not_not, not_not] at hdashed
    rw [hdashed.1.matchFlag?_eq_none, hdashed.2.matchFlag?_eq_none]

/-! ## Splits in small letters -/

/-- What the occurrence carries, in small letters. -/
def FlagValue.folded : FlagValue → FlagValue
  | present => present
  | raw token => raw (Text.smallLetters token)
  | missing => missing

/-- The occurrence with its value in small letters. -/
def FlagHit.folded (hit : FlagHit) : FlagHit :=
  { hit with value := hit.value.folded }

namespace TokenSplit

/-- The split with all but the flags themselves in small letters. -/
def folded (split : TokenSplit) : TokenSplit where
  positional := split.positional.map Text.smallLetters
  hits := split.hits.map FlagHit.folded

theorem folded_addPositional (token : String) (split : TokenSplit) :
    (split.addPositional token).folded =
      split.folded.addPositional (Text.smallLetters token) := rfl

theorem folded_addHit (flag : Flag) (index : Nat) (value : FlagValue) (split : TokenSplit) :
    (split.addHit flag index value).folded = split.folded.addHit flag index value.folded := rfl

theorem folded_splitFrom {flags : List Flag} {index : Nat} {tokens other : List String}
    (h : List.Forall₂ IsRecased tokens other) :
    (splitFrom flags index tokens).folded = (splitFrom flags index other).folded := by
  fun_induction splitFrom flags index tokens generalizing other with
  | case1 =>
    cases h
    rfl
  | case2 index token tokens hnone ih =>
    obtain _ | ⟨hhead, htail⟩ := h
    rw [hhead.matchFlag?_eq] at hnone
    rw [splitFrom_of_positional hnone, folded_addPositional, folded_addPositional, ih htail,
      Text.smallLetters_eq_iff.2 hhead.same]
  | case3 index token tokens flag hflag hswitch ih =>
    obtain _ | ⟨hhead, htail⟩ := h
    rw [hhead.matchFlag?_eq] at hflag
    rw [splitFrom_of_switch hflag hswitch, folded_addHit, folded_addHit, ih htail]
  | case4 index token flag hflag hvalued =>
    obtain _ | ⟨hhead, _ | _⟩ := h
    rw [hhead.matchFlag?_eq] at hflag
    rw [splitFrom_of_last hflag (Bool.eq_false_iff.2 hvalued)]
  | case5 index token flag hflag hvalued next rest hnext ih =>
    obtain _ | ⟨hhead, htail⟩ := h
    cases htail with
    | cons hsecond hrest =>
      rw [hhead.matchFlag?_eq] at hflag
      have hnextOther := hnext
      rw [hsecond.matchFlag?_eq] at hnextOther
      rw [splitFrom_of_missing hflag (Bool.eq_false_iff.2 hvalued) hnextOther, folded_addHit,
        folded_addHit, ih (.cons hsecond hrest)]
  | case6 index token flag hflag hvalued next rest hnext ih =>
    obtain _ | ⟨hhead, htail⟩ := h
    cases htail with
    | cons hsecond hrest =>
      rw [hhead.matchFlag?_eq] at hflag
      rw [hsecond.matchFlag?_eq] at hnext
      rw [splitFrom_of_raw hflag (Bool.eq_false_iff.2 hvalued) (Bool.eq_false_iff.2 hnext),
        folded_addHit, folded_addHit, ih hrest, FlagValue.folded, FlagValue.folded,
        Text.smallLetters_eq_iff.2 hsecond.same]

/-- Tokens that change in letter case only, flags not at all, are taken apart alike. -/
theorem folded_ofTokens {tokens other : List String} (h : List.Forall₂ IsRecased tokens other)
    (flags : List Flag) : (ofTokens flags tokens).folded = (ofTokens flags other).folded :=
  folded_splitFrom h

theorem map_positional_eq {tokens other : List String} (h : List.Forall₂ IsRecased tokens other)
    (flags : List Flag) :
    (ofTokens flags tokens).positional.map Text.smallLetters =
      (ofTokens flags other).positional.map Text.smallLetters :=
  congrArg positional (folded_ofTokens h flags)

/-- What an occurrence carries is found in a split in small letters, in small letters. -/
theorem map_value_hit?_folded (split : TokenSplit) (name : String) :
    (split.folded.hit? name).map FlagHit.value =
      ((split.hit? name).map FlagHit.value).map FlagValue.folded := by
  have hfilter : (split.folded.hits.filter fun hit => hit.flag.name == name) =
      (split.hits.filter fun hit => hit.flag.name == name).map FlagHit.folded := by
    rw [folded, List.filter_map]
    rfl
  rw [hit?, hfilter, List.getLast?_map, Option.map_map, Option.map_map, hit?]
  rfl

end TokenSplit

end Parlance
