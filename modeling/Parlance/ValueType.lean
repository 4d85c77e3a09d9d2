import Parlance.Decimal.Reading
import Parlance.Duration
import Parlance.Text.Blank
import Parlance.Text.Fold

/-!
# Value types

The declared type of a parameter or of a flag's value. Every type has a token
shape, a quick test of whether a token could be one of its values; shapes
decide which usage is chosen and which usages would be ambiguous. Conversion
comes later and may be stricter.
-/

set_option autoImplicit false

namespace Parlance

open Text

/-- The declared type of a value. -/
inductive ValueType where
  /-- Any token. -/
  | string
  /-- A token that is not empty and holds no blank. -/
  | word
  /-- A whole number of 64 bits. -/
  | integer
  /-- A double. -/
  | float
  /-- `true`, `yes` and `on`, or `false`, `no` and `off`. -/
  | boolean
  /-- A compact duration such as `2h30m`. -/
  | duration
  /-- One of a list of words, in any case. -/
  | choice (words : List String)
  /-- A type whose resolver is registered under the key. -/
  | custom (key : String)
  deriving DecidableEq, Repr, Inhabited

namespace ValueType

/-! ## Shapes -/

/-- An optional sign and one or more decimal digits of any script. -/
def isIntegerShape : List Char → Bool
  | '+' :: cs => !cs.isEmpty && cs.all isDecimalDigit
  | '-' :: cs => !cs.isEmpty && cs.all isDecimalDigit
  | cs => !cs.isEmpty && cs.all isDecimalDigit

/-- The words of truth values. -/
def booleanWords : List String := ["true", "false", "yes", "no", "on", "off"]

/-- The token has the shape of the type. Custom types take every token here. -/
def accepts (type : ValueType) (token : String) : Bool :=
  match type with
  | string | custom _ => true
  | word => token != "" && !hasBlank token
  | integer => isIntegerShape token.toList
  | float => Decimal.isNumeral token
  | boolean => booleanWords.any (sameFolded · token)
  | duration => Duration.hasShape token
  | choice words => words.any (sameFolded · token)

/-- Some token could have both shapes. -/
def overlaps (a b : ValueType) : Bool :=
  match a, b with
  | string, _ | word, _ | custom _, _ => true
  | _, string | _, word | _, custom _ => true
  | choice xs, choice ys => xs.any fun x => ys.any (sameFolded x)
  | choice words, shape => words.any shape.accepts
  | shape, choice words => words.any shape.accepts
  | integer, integer | integer, float | float, integer | float, float => true
  | a, b => a == b

/-- Whole numbers and doubles. -/
def isNumeric : ValueType → Bool
  | integer | float => true
  | _ => false

/-! ## Names -/

/-- The type as it is written in usage lines and messages. -/
def name : ValueType → String
  | string => "string"
  | word => "word"
  | integer => "integer"
  | float => "float"
  | boolean => "boolean"
  | duration => "duration"
  | choice words => "\x7b" ++ ",".intercalate words ++ "\x7d"
  | custom key => key

end ValueType

end Parlance
