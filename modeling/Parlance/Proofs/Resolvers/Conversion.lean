import Parlance.Proofs.Resolution.Agreement
import Parlance.Proofs.Resolution.Outcome
import Parlance.Proofs.Resolvers.LetterCase
import Parlance.Proofs.Text.Natural

/-!
# Shapes and conversions

The shape of a type is a test of its own, and a conversion may be stricter but never laxer:
what converts has the shape. What more a conversion asks of a token is told exactly for
each built-in type (`Resolvers.AgreesWithShapes`): nothing for texts, truth values and the
words of a choice, so that a selected usage never fails on them
(`Resolvers.convert_agrees`).
-/

set_option autoImplicit false

namespace Parlance

open Text

variable {Act : Type} {token : String}

/-! ## Whole numbers -/

/-- The number that a sign, or none, and digits behind it write. -/
def signedValue : List Char → Int
  | '-' :: digits => -(decimalValue digits : Int)
  | '+' :: digits => decimalValue digits
  | digits => decimalValue digits

theorem signedValue_eq (cs : List Char) : signedValue cs =
    if (Decimal.splitSign cs).1 then -(decimalValue (Decimal.splitSign cs).2 : Int)
    else decimalValue (Decimal.splitSign cs).2 := by
  unfold signedValue Decimal.splitSign
  split <;> simp_all

/-- Behind its sign, a token has the characters that it had. -/
theorem mem_splitSign_or {cs : List Char} {c : Char} (h : c ∈ cs) :
    c ∈ (Decimal.splitSign cs).2 ∨ c = '-' ∨ c = '+' := by
  unfold Decimal.splitSign
  split
  · rcases List.mem_cons.1 h with rfl | h
    · exact .inr (.inl rfl)
    · exact .inl h
  · rcases List.mem_cons.1 h with rfl | h
    · exact .inr (.inr rfl)
    · exact .inl h
  · exact .inl h

theorem splitSign_subset (cs : List Char) : (Decimal.splitSign cs).2 ⊆ cs := by
  unfold Decimal.splitSign
  split
  · exact List.subset_cons_self _ _
  · exact List.subset_cons_self _ _
  · exact List.Subset.refl _

namespace Resolvers

theorem integer?_eq_some_iff {n : Int} : integer? token = some n ↔
    (Decimal.splitSign token.toList).2 ≠ [] ∧
      (∀ c ∈ (Decimal.splitSign token.toList).2, c.isDigit = true) ∧
      -(2 ^ 63) ≤ signedValue token.toList ∧ signedValue token.toList ≤ 2 ^ 63 - 1 ∧
      n = signedValue token.toList := by
  have hhalf : (Word.half : Int) = 2 ^ 63 := rfl
  simp only [integer?, Option.bind_eq_some_iff, natural?_eq_some_iff,
    Option.ite_none_right_eq_some, Bool.and_eq_true, decide_eq_true_eq, Option.some.injEq, hhalf]
  constructor
  · rintro ⟨value, ⟨hnonempty, hascii, rfl⟩, hrange, rfl⟩
    rw [← signedValue_eq] at hrange ⊢
    exact ⟨hnonempty, hascii, hrange.1, Int.le_sub_one_of_lt hrange.2, rfl⟩
  · rintro ⟨hnonempty, hascii, hleast, hgreatest, rfl⟩
    refine ⟨_, ⟨hnonempty, hascii, rfl⟩, ?_⟩
    rw [← signedValue_eq]
    exact ⟨⟨hleast, Int.lt_of_le_sub_one hgreatest⟩, rfl⟩

/-- A token of the shape of a whole number is read if its digits are ASCII digits and its
value is one of 64 bits. -/
theorem integer?_eq_some_iff_of_accepts (h : ValueType.integer.accepts token = true) {n : Int} :
    integer? token = some n ↔
      (∀ c ∈ token.toList, isDecimalDigit c = true → c.isDigit = true) ∧
        -(2 ^ 63) ≤ signedValue token.toList ∧ signedValue token.toList ≤ 2 ^ 63 - 1 ∧
        n = signedValue token.toList := by
  rw [ValueType.accepts, ValueType.isIntegerShape_eq, Bool.and_eq_true, List.all_eq_true] at h
  have hnonempty : (Decimal.splitSign token.toList).2 ≠ [] := by simpa using h.1
  have hascii : (∀ c ∈ (Decimal.splitSign token.toList).2, c.isDigit = true) ↔
      ∀ c ∈ token.toList, isDecimalDigit c = true → c.isDigit = true := by
    constructor
    · intro hdigits c hc hdecimal
      rcases mem_splitSign_or hc with hc | rfl | rfl
      · exact hdigits c hc
      · exact absurd hdecimal (by decide)
      · exact absurd hdecimal (by decide)
    · intro hdigits c hc
      exact hdigits c (splitSign_subset _ hc) (h.2 c hc)
  rw [integer?_eq_some_iff, and_iff_right hnonempty, hascii]

theorem accepts_of_integer? {n : Int} (h : integer? token = some n) :
    ValueType.integer.accepts token = true := by
  obtain ⟨hnonempty, hascii, -⟩ := integer?_eq_some_iff.1 h
  rw [ValueType.accepts, ValueType.isIntegerShape_eq, Bool.and_eq_true, List.all_eq_true]
  exact ⟨by simpa using hnonempty, fun c hc => isDecimalDigit_of_isDigit (hascii c hc)⟩

/-! ## Words -/

/-- The words that stand for a truth value. -/
def truthWords : Bool → List String
  | true => ["true", "yes", "on"]
  | false => ["false", "no", "off"]

theorem bool?_eq_some_iff {b : Bool} :
    bool? token = some b ↔ ∃ word ∈ truthWords b, sameFolded word token = true := by
  have hsmall : ∀ word ∈ truthWords b, smallLetters word = word := by
    cases b <;> decide
  have hmem : bool? token = some b ↔ smallLetters token ∈ truthWords b := by
    unfold bool?
    generalize smallLetters token = word
    split <;> cases b <;> simp_all [truthWords]
  rw [hmem]
  constructor
  · intro hword
    exact ⟨_, hword, smallLetters_eq_iff.1 (hsmall _ hword)⟩
  · rintro ⟨word, hword, hsame⟩
    rw [← smallLetters_eq_iff.2 hsame, hsmall word hword]
    exact hword

/-- The words of truth values are those that the shape asks for. -/
theorem accepts_boolean_iff :
    ValueType.boolean.accepts token = true ↔ ∃ b, bool? token = some b := by
  simp only [ValueType.accepts, ValueType.booleanWords, bool?_eq_some_iff, Bool.exists_bool,
    truthWords, List.any_eq_true, List.mem_cons, List.not_mem_nil]
  grind

theorem choice?_eq_some {words : List String} {word : String}
    (h : choice? words token = some word) : word ∈ words ∧ sameFolded word token = true := by
  have hsame := List.find?_some h
  exact ⟨List.mem_of_find?_eq_some h, hsame⟩

/-- A word of a choice is found for every token of its shape, and for itself again. -/
theorem exists_choice? {words : List String} (h : (ValueType.choice words).accepts token = true) :
    ∃ word ∈ words, sameFolded word token = true ∧ choice? words token = some word ∧
      choice? words word = some word := by
  obtain ⟨word, hfound⟩ := Option.isSome_iff_exists.1 (List.find?_isSome.2 (List.any_eq_true.1 h))
  obtain ⟨hword, hsame⟩ := choice?_eq_some hfound
  exact ⟨word, hword, hsame, hfound, (choice?_eq_of_sameFolded hsame words).trans hfound⟩

/-! ## Doubles -/

/-- A token of the shape of a double is a numeral, and is read if it names a finite number. -/
theorem float?_eq_some_iff {x : Float} : float? token = some x ↔
    ∃ numeral, Decimal.Numeral.ofList? token.toList = some numeral ∧ numeral.toFloat = x ∧
      x.isFinite = true := by
  rw [float?, Option.filter_eq_some_iff, Decimal.read?, Option.map_eq_some_iff]
  constructor
  · rintro ⟨⟨numeral, hnumeral, hx⟩, hfinite⟩
    exact ⟨numeral, hnumeral, hx, hfinite⟩
  · rintro ⟨numeral, hnumeral, hx, hfinite⟩
    exact ⟨⟨numeral, hnumeral, hx⟩, hfinite⟩

/-- The words among the numerals name no finite number. -/
theorem isFinite_word (negative : Bool) :
    (Decimal.Numeral.infinite negative).toFloat.isFinite = false ∧
      (Decimal.Numeral.undefined negative).toFloat.isFinite = false := by
  cases negative <;> decide

/-! ## Built-in types -/

variable {type : ValueType} {value : Value} {resolvers : Resolvers} {parameter : String}

theorem convert_eq_ok_iff (h : type.isBuiltIn = true) :
    resolvers.convert type parameter token = .ok value ↔ builtIn? type token = some value := by
  rw [convert_of_isBuiltIn h]
  split <;> simp_all

theorem accepts_of_isBuiltIn (h : type.isBuiltIn = true) (resolvers : Resolvers) (token : String) :
    resolvers.accepts type token = type.accepts token := by
  cases type with
  | custom key => cases h
  | _ => rfl

/-- What converts has the shape of the type. -/
theorem accepts_of_builtIn? (h : builtIn? type token = some value) :
    type.accepts token = true := by
  cases type with
  | string => rfl
  | word => exact (Option.ite_none_right_eq_some.1 h).1
  | integer =>
    obtain ⟨n, hn, -⟩ := Option.map_eq_some_iff.1 h
    exact accepts_of_integer? hn
  | float =>
    obtain ⟨x, hx, -⟩ := Option.map_eq_some_iff.1 h
    obtain ⟨numeral, hnumeral, -⟩ := float?_eq_some_iff.1 hx
    exact Option.isSome_iff_exists.2 ⟨numeral, hnumeral⟩
  | boolean =>
    obtain ⟨b, hb, -⟩ := Option.map_eq_some_iff.1 h
    exact accepts_boolean_iff.2 ⟨b, hb⟩
  | duration =>
    obtain ⟨d, hd, -⟩ := Option.map_eq_some_iff.1 h
    obtain ⟨parts, hparts, -⟩ := Option.bind_eq_some_iff.1 hd
    exact Option.isSome_iff_exists.2 ⟨parts, hparts⟩
  | choice words =>
    obtain ⟨word, hword, -⟩ := Option.map_eq_some_iff.1 h
    obtain ⟨hmem, hsame⟩ := choice?_eq_some hword
    exact List.any_eq_true.2 ⟨word, hmem, hsame⟩
  | custom key => cases h

end Resolvers

/-! ## Types whose shape is enough -/

/-- Every token of the shape has a value of the type. -/
def ValueType.convertsByShape : ValueType → Bool
  | string | word | boolean | choice _ => true
  | integer | float | duration | custom _ => false

theorem ValueType.isBuiltIn_of_convertsByShape {type : ValueType}
    (h : type.convertsByShape = true) : type.isBuiltIn = true := by
  cases type with
  | custom key => cases h
  | _ => rfl

/-- A token of the shape has a value, and the value is no number. -/
theorem Resolvers.exists_convert {type : ValueType} (hshape : type.convertsByShape = true)
    {resolvers : Resolvers} (h : resolvers.accepts type token = true) (parameter : String) :
    ∃ value, resolvers.convert type parameter token = .ok value ∧ value.float? = none := by
  have hbuiltIn := ValueType.isBuiltIn_of_convertsByShape hshape
  rw [accepts_of_isBuiltIn hbuiltIn] at h
  simp only [convert_eq_ok_iff hbuiltIn]
  cases type with
  | string => exact ⟨_, rfl, rfl⟩
  | word => exact ⟨_, if_pos h, rfl⟩
  | boolean =>
    obtain ⟨b, hb⟩ := accepts_boolean_iff.1 h
    exact ⟨.bool b, congrArg (Option.map Value.bool) hb, rfl⟩
  | choice words =>
    obtain ⟨word, -, -, hword, -⟩ := exists_choice? h
    exact ⟨.text word, congrArg (Option.map Value.text) hword, rfl⟩
  | integer | float | duration | custom => cases hshape

namespace Matcher

variable {m : Matcher} {p : Parameter} {type : ValueType}

/-- What a positional parameter accepts is accepted for its type. -/
theorem accepts_type_of_accepts (hflag : p.isFlag = false) (htype : p.type? = some type)
    (h : m.accepts p token = true) : m.resolvers.accepts type token = true := by
  unfold accepts Parameter.acceptsWith at h
  cases hkind : p.kind with
  | literal aliases => simp [Parameter.type?, hkind] at htype
  | required own | optional own fallback =>
    obtain rfl : own = type := by simpa [Parameter.type?, hkind] using htype
    rwa [hkind] at h
  | greedy fallback =>
    obtain rfl : .string = type := by simpa [Parameter.type?, hkind] using htype
    rfl
  | flag aliases own fallback => simp [Parameter.isFlag, hkind] at hflag

/-- A parameter that is served with tokens has a value, if the shape is enough for its type;
bounds make no difference. -/
theorem exists_fill_of_serves (hflag : p.isFlag = false) (htype : p.type? = some type)
    (hshape : type.convertsByShape = true) {slot : Slot} (hfilled : slot.isFilled = true)
    {tokens : List String} (hserves : m.Serves tokens p slot) (source : Source) :
    ∃ value, m.fill source tokens p slot = .ok (some value) := by
  cases slot with
  | token index =>
    obtain ⟨token, htoken, haccepts⟩ := hserves
    have hliteral : p.isLiteral = false := by
      cases hkind : p.kind <;> simp_all [Parameter.type?, Parameter.isLiteral]
    obtain ⟨value, hvalue, hnumber⟩ :=
      Resolvers.exists_convert hshape (accepts_type_of_accepts hflag htype haccepts) p.name
    have hconvert : m.convert p token = .ok value := by
      rw [convert, htype, Option.getD_some, hvalue]
      cases hbounds : p.bounds with
      | none => rfl
      | some bounds => simp [hnumber, bind, Except.bind, pure, Except.pure]
    refine ⟨value, ?_⟩
    simp [fill, htoken, hliteral, hconvert, Except.map]
  | greedy start stop =>
    have hlt : start < stop := by simpa [Slot.isFilled] using hfilled
    exact ⟨_, if_pos hlt⟩
  | skipped => cases hfilled
  | missing => cases hfilled

end Matcher

/-! ## Shapes and conversions agree -/

/-- What converting a token to a built-in type has to do with the shape of the type. -/
structure Resolvers.AgreesWithShapes (resolvers : Resolvers) (parameter token : String) :
    Prop where
  /-- What converts has the shape, by the type itself and by the resolvers. -/
  shape : ∀ type value, type.isBuiltIn = true →
    resolvers.convert type parameter token = .ok value →
    type.accepts token = true ∧ resolvers.accepts type token = true
  /-- What does not convert is told to be no value of the type. -/
  failure : ∀ type e, type.isBuiltIn = true → resolvers.convert type parameter token = .error e →
    e = .typeConversion parameter token type.name
  string : resolvers.convert .string parameter token = .ok (.text token)
  word : ValueType.word.accepts token = true →
    resolvers.convert .word parameter token = .ok (.text token)
  boolean : ValueType.boolean.accepts token = true →
    ∃ b, resolvers.convert .boolean parameter token = .ok (.bool b) ∧
      ∃ word ∈ truthWords b, sameFolded word token = true
  /-- A choice gives the word as it is declared, which converts to itself. -/
  choice : ∀ words, (ValueType.choice words).accepts token = true →
    ∃ word ∈ words, sameFolded word token = true ∧
      resolvers.convert (.choice words) parameter token = .ok (.text word) ∧
      resolvers.convert (.choice words) parameter word = .ok (.text word)
  /-- All digits must be ASCII digits, and the value one of 64 bits. -/
  integer : ValueType.integer.accepts token = true → ∀ value,
    resolvers.convert .integer parameter token = .ok value ↔
      (∀ c ∈ token.toList, isDecimalDigit c = true → c.isDigit = true) ∧
        -(2 ^ 63) ≤ signedValue token.toList ∧ signedValue token.toList ≤ 2 ^ 63 - 1 ∧
        value = .integer (signedValue token.toList)
  duration : ValueType.duration.accepts token = true → ∀ value,
    resolvers.convert .duration parameter token = .ok value ↔
      ∃ d, Duration.parse? token = some d ∧ value = .duration d
  /-- The number must be finite, which the words among the numerals are not. -/
  float : ValueType.float.accepts token = true →
    ∃ numeral, Decimal.Numeral.ofList? token.toList = some numeral ∧
      (∀ value, resolvers.convert .float parameter token = .ok value ↔
        numeral.toFloat.isFinite = true ∧ value = .float numeral.toFloat) ∧
      ∀ negative, numeral = .infinite negative ∨ numeral = .undefined negative →
        numeral.toFloat.isFinite = false

theorem Resolvers.agreesWithShapes (resolvers : Resolvers) (parameter token : String) :
    resolvers.AgreesWithShapes parameter token where
  shape type value hbuiltIn h := by
    have haccepts := accepts_of_builtIn? ((convert_eq_ok_iff hbuiltIn).1 h)
    exact ⟨haccepts, (accepts_of_isBuiltIn hbuiltIn resolvers token).trans haccepts⟩
  failure type e hbuiltIn h := by
    rw [convert_of_isBuiltIn hbuiltIn] at h
    split at h
    · cases h
    · exact (Except.error.inj h).symm
  string := rfl
  word h := (convert_eq_ok_iff rfl).2 (if_pos h)
  boolean h := by
    obtain ⟨b, hb⟩ := accepts_boolean_iff.1 h
    exact ⟨b, (convert_eq_ok_iff rfl).2 (congrArg (Option.map Value.bool) hb),
      bool?_eq_some_iff.1 hb⟩
  choice words h := by
    obtain ⟨word, hmem, hsame, hword, hagain⟩ := exists_choice? h
    exact ⟨word, hmem, hsame, (convert_eq_ok_iff rfl).2 (congrArg (Option.map Value.text) hword),
      (convert_eq_ok_iff rfl).2 (congrArg (Option.map Value.text) hagain)⟩
  integer h value := by
    rw [convert_eq_ok_iff rfl, builtIn?, Option.map_eq_some_iff]
    simp only [integer?_eq_some_iff_of_accepts h]
    constructor
    · rintro ⟨n, ⟨hascii, hleast, hgreatest, rfl⟩, rfl⟩
      exact ⟨hascii, hleast, hgreatest, rfl⟩
    · rintro ⟨hascii, hleast, hgreatest, rfl⟩
      exact ⟨_, ⟨hascii, hleast, hgreatest, rfl⟩, rfl⟩
  duration h value := by
    rw [convert_eq_ok_iff rfl, builtIn?, Option.map_eq_some_iff]
    simp only [eq_comm (a := value)]
  float h := by
    obtain ⟨numeral, hnumeral⟩ := Option.isSome_iff_exists.1 h
    refine ⟨numeral, hnumeral, ?_, ?_⟩
    · intro value
      rw [convert_eq_ok_iff rfl, builtIn?, Option.map_eq_some_iff]
      simp only [float?_eq_some_iff, hnumeral, Option.some.injEq, exists_eq_left']
      constructor
      · rintro ⟨x, ⟨rfl, hfinite⟩, rfl⟩
        exact ⟨hfinite, rfl⟩
      · rintro ⟨hfinite, rfl⟩
        exact ⟨_, ⟨rfl, hfinite⟩, rfl⟩
    · rintro negative (rfl | rfl)
      · exact (isFinite_word negative).1
      · exact (isFinite_word negative).2

/-- Shapes and conversions agree: for each built-in type, what converts has the shape, and
it is told exactly which tokens of the shape convert, and to what. Where the shape is
enough, a parameter of a usage that is selected in a verified tree has a value whenever it
has a token. -/
theorem Resolvers.convert_agrees :
    (∀ (resolvers : Resolvers) (parameter token : String),
      resolvers.AgreesWithShapes parameter token) ∧
    ∀ (m : Matcher) (source : Source) (command : Command Act), command.verify = .ok () →
      ∀ (tokens : List String) (usage : Usage Act) (positional : List String),
      (m.select command.link tokens).selection.usage? = some usage →
      positional = (TokenSplit.ofTokens
        ((m.select command.link tokens).selection.node.flagsFor usage) tokens).positional →
      ∀ p slot type, (p, slot) ∈ usage.slotted positional → slot.isFilled = true →
        p.type? = some type → type.convertsByShape = true →
        ∃ value, m.fill source positional p slot = .ok (some value) := by
  refine ⟨agreesWithShapes, ?_⟩
  intro m source command hverify tokens usage positional husage hpositional p slot type hmem
    hfilled htype hshape
  have hlead : command.link.lead = [] := Command.lead_linkUnder [] [] [] command
  obtain ⟨hserves, -⟩ :=
    Matcher.serves_of_select (Command.isSoundTree_link hverify) hlead husage hpositional
  have hflag : p.isFlag = false := by
    have hpositional := List.of_mem_filter (List.of_mem_zip hmem).1
    simpa using hpositional
  exact Matcher.exists_fill_of_serves hflag htype hshape hfilled (hserves (p, slot) hmem) source

/-- A dial that is turned to one of two modes by a number of steps. -/
def dialing : Command Unit where
  name := "dial"
  usages := [.ofParameters [
    { name := "mode", kind := .required (.choice ["Soft", "Hard"]) },
    { name := "steps", kind := .optional .integer none }]]

/-- The steps that a dial is turned by: far too many. -/
def turn : List String := ["HARD", "99999999999999999999"]

/-- Digits of another script have the shape of a whole number and yet write none, and so it
is for the number below the least and for the word that is no number. Even where its steps
are too many, a dial that is selected has a mode. -/
theorem Resolvers.convert_agrees_dialing :
    ValueType.integer.accepts "-٣" = true ∧
    (∀ value, Resolvers.convert {} .integer "steps" "-٣" ≠ .ok value) ∧
    Resolvers.convert {} .integer "steps" "-9223372036854775808" = .ok (.integer (-(2 ^ 63))) ∧
    (∀ value, Resolvers.convert {} .integer "steps" "-9223372036854775809" ≠ .ok value) ∧
    ValueType.float.accepts "-NaN" = true ∧
    (∀ value, Resolvers.convert {} .float "steps" "-NaN" ≠ .ok value) ∧
    dialing.verify = .ok () ∧
    ∃ (usage : Usage Unit) (p : Parameter),
      (Matcher.select {} dialing.link turn).selection.usage? = some usage ∧
      (p, .token 0) ∈ usage.slotted turn ∧ p.type? = some (.choice ["Soft", "Hard"]) ∧
      (∃ value, Matcher.fill {} .console turn p (.token 0) = .ok (some value)) ∧
      Matcher.resolve {} .console dialing.link usage turn .reject =
        .error (.typeConversion "steps" "99999999999999999999" "integer") := by
  obtain ⟨hagrees, hselected⟩ := @Resolvers.convert_agrees Unit
  have hverify : dialing.verify = .ok () := rfl
  refine ⟨by decide, ?script, ?least, ?below, by decide, ?word, hverify, ?selected⟩
  case script =>
    intro value hvalue
    have hascii := (((hagrees {} "steps" "-٣").integer (by decide) value).1 hvalue).1
    exact absurd (hascii '٣' (by decide)) (by decide)
  case least =>
    have hdigits : ("-9223372036854775808".toList.all fun c =>
        !isDecimalDigit c || c.isDigit) = true := by decide
    refine ((hagrees {} "steps" "-9223372036854775808").integer (by decide) _).2
      ⟨?_, by decide, by decide, rfl⟩
    intro c hc hdecimal
    simpa [hdecimal] using List.all_eq_true.1 hdigits c hc
  case below =>
    intro value hvalue
    have hleast :=
      (((hagrees {} "steps" "-9223372036854775809").integer (by decide) value).1 hvalue).2.1
    exact absurd hleast (by decide)
  case word =>
    intro value hvalue
    obtain ⟨numeral, hnumeral, hconvert, hword⟩ := (hagrees {} "steps" "-NaN").float (by decide)
    have hundefined : numeral = .undefined true := (Option.some.inj hnumeral).symm
    have hfinite := ((hconvert value).1 hvalue).1
    rw [hword true (.inr hundefined)] at hfinite
    cases hfinite
  case selected =>
    refine ⟨_, _, rfl, List.mem_cons_self, rfl, ?_, rfl⟩
    exact hselected {} .console dialing hverify turn _ turn rfl rfl _ _ _ List.mem_cons_self rfl
      rfl rfl

end Parlance
