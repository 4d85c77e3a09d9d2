import Parlance.Proofs.ValueType.LetterCase
import Parlance.Resolution

/-!
# Conversions and letter case

Numbers, truth values and durations are the same in any letter case of their tokens, and so
is the word of a choice, which is stored as it is declared. Only texts keep the letter case
of the token (`Resolvers.builtIn?_alike`).
-/

set_option autoImplicit false

namespace Parlance

open Text

variable {a b : String}

/-! ## Values -/

/-- The type is not left to the host. -/
def ValueType.isBuiltIn : ValueType → Bool
  | custom _ => false
  | _ => true

theorem ValueType.exists_custom {type : ValueType} (h : type.isBuiltIn = false) :
    ∃ key, type = custom key := by
  cases type with
  | custom key => exact ⟨key, rfl⟩
  | _ => cases h

/-- A value of the type is the token as it was given. -/
def ValueType.keepsCase : ValueType → Bool
  | string | word => true
  | _ => false

/-- The values are the same but for letter case, and that may differ only in texts of a type
that keeps it, or of none. -/
inductive Value.AlikeFor (type : Option ValueType) : Value → Value → Prop where
  | same (value : Value) : AlikeFor type value value
  | text {s t : String} (hkeeps : type.all ValueType.keepsCase = true)
      (hsame : sameFolded s t = true) : AlikeFor type (.text s) (.text t)

theorem Value.AlikeFor.float?_eq {type : Option ValueType} {v w : Value}
    (h : v.AlikeFor type w) : v.float? = w.float? := by
  cases h with
  | same => rfl
  | text => rfl

theorem Value.rel_alikeFor_self (type : Option ValueType) (value : Option Value) :
    Option.Rel (AlikeFor type) value value := by
  cases value with
  | none => exact .none
  | some value => exact .some (.same value)

/-! ## Alike results -/

/-- The errors are the same but for the letter case of the tokens that they quote. -/
inductive ResolutionError.Alike : ResolutionError → ResolutionError → Prop where
  | same (e : ResolutionError) : Alike e e
  | unknownSubcommand (expected : String) {found found' : String}
      (hfound : sameFolded found found' = true) :
      Alike (.unknownSubcommand expected found) (.unknownSubcommand expected found')
  | typeConversion (parameter expected : String) {token token' : String}
      (htoken : sameFolded token token' = true) :
      Alike (.typeConversion parameter token expected) (.typeConversion parameter token' expected)
  | tooManyArguments {rest rest' : String} (hrest : sameFolded rest rest' = true) :
      Alike (.tooManyArguments rest) (.tooManyArguments rest')

/-- Both parts resolve, to what is related, or both fail alike. -/
inductive Resolved.Alike {α β : Type} (related : α → β → Prop) : Resolved α → Resolved β → Prop
  | ok {a : α} {b : β} (h : related a b) : Alike related (.ok a) (.ok b)
  | error {e e' : ResolutionError} (h : e.Alike e') : Alike related (.error e) (.error e')

namespace Resolved

variable {α β γ δ : Type} {related : α → β → Prop} {further : γ → δ → Prop}

/-- Steps that go on alike from related results are alike. -/
theorem Alike.bind {x : Resolved α} {y : Resolved β} (h : Alike related x y)
    {f : α → Resolved γ} {g : β → Resolved δ}
    (hnext : ∀ a b, x = .ok a → y = .ok b → related a b → Alike further (f a) (g b)) :
    Alike further (x >>= f) (y >>= g) := by
  cases h with
  | ok hab => exact hnext _ _ rfl rfl hab
  | error he => exact .error he

theorem Alike.map {x : Resolved α} {y : Resolved β} (h : Alike related x y) {f : α → γ}
    {g : β → δ} (hnext : ∀ a b, related a b → further (f a) (g b)) :
    Alike further (x.map f) (y.map g) := by
  cases h with
  | ok hab => exact .ok (hnext _ _ hab)
  | error he => exact .error he

theorem alike_self {related : α → α → Prop} (hself : ∀ a, related a a) (x : Resolved α) :
    Alike related x x := by
  cases x with
  | ok a => exact .ok (hself a)
  | error e => exact .error (.same e)

end Resolved

namespace Resolvers

/-! ## Built-in types -/

theorem integer?_eq_of_sameFolded (h : sameFolded a b = true) : integer? a = integer? b := by
  have hsmall : ∀ cs : List Char,
      (Decimal.splitSign (cs.map Char.toLower)).1 = (Decimal.splitSign cs).1 ∧
      natural? (Decimal.splitSign (cs.map Char.toLower)).2 =
        natural? (Decimal.splitSign cs).2 := by
    intro cs
    rw [Decimal.splitSign_map_toLower, natural?_map_toLower]
    exact ⟨rfl, rfl⟩
  have hsign : (Decimal.splitSign a.toList).1 = (Decimal.splitSign b.toList).1 :=
    apply_eq_of_sameFolded (f := fun cs => (Decimal.splitSign cs).1) (fun cs => (hsmall cs).1) h
  have hdigits : natural? (Decimal.splitSign a.toList).2 =
      natural? (Decimal.splitSign b.toList).2 :=
    apply_eq_of_sameFolded (f := fun cs => natural? (Decimal.splitSign cs).2)
      (fun cs => (hsmall cs).2) h
  simp only [integer?, hsign, hdigits]

theorem float?_eq_of_sameFolded (h : sameFolded a b = true) : float? a = float? b := by
  have hnumeral : Decimal.Numeral.ofList? a.toList = Decimal.Numeral.ofList? b.toList :=
    apply_eq_of_sameFolded Decimal.Numeral.ofList?_map_toLower h
  rw [float?, Decimal.read?, hnumeral, float?, Decimal.read?]

theorem bool?_eq_of_sameFolded (h : sameFolded a b = true) : bool? a = bool? b := by
  rw [bool?, bool?, smallLetters_eq_iff.2 h]

theorem choice?_eq_of_sameFolded (h : sameFolded a b = true) (words : List String) :
    choice? words a = choice? words b := by
  have hword : (fun word => sameFolded word a) = fun word => sameFolded word b := by
    funext word
    rw [sameFolded, sameFolded, sameFolded_iff.1 h]
  rw [choice?, choice?, hword]

theorem duration_parse?_eq_of_sameFolded (h : sameFolded a b = true) :
    Duration.parse? a = Duration.parse? b := by
  rw [Duration.parse?, Duration.parse?, Duration.parts?_eq_of_sameFolded h]

/-- A built-in type takes both tokens for values that are alike, or neither. -/
theorem builtIn?_alike (h : sameFolded a b = true) (type : ValueType) :
    Option.Rel (Value.AlikeFor (some type)) (builtIn? type a) (builtIn? type b) := by
  have hequal : builtIn? type a = builtIn? type b →
      Option.Rel (Value.AlikeFor (some type)) (builtIn? type a) (builtIn? type b) := by
    intro heq
    rw [heq]
    cases builtIn? type b with
    | none => exact .none
    | some value => exact .some (.same value)
  cases type with
  | string => exact .some (.text rfl h)
  | word =>
    rw [builtIn?, builtIn?, ValueType.accepts_eq_of_sameFolded h]
    split
    · exact .some (.text rfl h)
    · exact .none
  | integer => exact hequal (congrArg (Option.map _) (integer?_eq_of_sameFolded h))
  | float => exact hequal (congrArg (Option.map _) (float?_eq_of_sameFolded h))
  | boolean => exact hequal (congrArg (Option.map _) (bool?_eq_of_sameFolded h))
  | duration => exact hequal (congrArg (Option.map _) (duration_parse?_eq_of_sameFolded h))
  | choice words => exact hequal (congrArg (Option.map _) (choice?_eq_of_sameFolded h words))
  | custom key => exact .none

/-! ## All types -/

/-- A built-in type converts a token, or tells that it does not. -/
theorem convert_of_isBuiltIn {type : ValueType} (h : type.isBuiltIn = true)
    (resolvers : Resolvers) (parameter token : String) :
    resolvers.convert type parameter token =
      match builtIn? type token with
      | some value => .ok value
      | none => .error (.typeConversion parameter token type.name) := by
  cases type with
  | custom key => cases h
  | _ =>
    simp only [convert]
    split <;> simp_all

/-- A type converts tokens to values that are alike, or fails alike. -/
theorem convert_alike {resolvers : Resolvers} (hnone : resolvers.byKey = [])
    (h : sameFolded a b = true) (type : ValueType) (parameter : String) :
    Resolved.Alike (Value.AlikeFor (some type)) (resolvers.convert type parameter a)
      (resolvers.convert type parameter b) := by
  have hfailed : Resolved.Alike (Value.AlikeFor (some type))
      (.error (.typeConversion parameter a type.name))
      (.error (.typeConversion parameter b type.name)) := .error (.typeConversion _ _ h)
  cases htype : type.isBuiltIn with
  | false =>
    obtain ⟨key, rfl⟩ := ValueType.exists_custom htype
    have hunknown : resolvers.find? key = none := by simp [find?, hnone]
    simp only [convert, hunknown]
    exact .error (.same _)
  | true =>
    have hbuilt := builtIn?_alike h type
    rw [convert_of_isBuiltIn htype, convert_of_isBuiltIn htype]
    revert hbuilt
    generalize builtIn? type a = x
    generalize builtIn? type b = y
    intro hbuilt
    cases hbuilt with
    | none => exact hfailed
    | some hvalues => exact .ok hvalues

end Resolvers

end Parlance
