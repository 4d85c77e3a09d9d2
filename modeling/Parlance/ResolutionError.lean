/-!
# Resolution errors

Why the tokens of a chosen usage do not become arguments, and how it is told.
-/

set_option autoImplicit false

namespace Parlance

/-- What is wrong with the tokens of a usage. -/
inductive ResolutionError where
  /-- Another word stands where a fixed one is expected. -/
  | unknownSubcommand (expected found : String)
  /-- A token is not a value of the parameter's type. -/
  | typeConversion (parameter token expected : String)
  /-- A number lies outside the bounds of its parameter. -/
  | outOfRange (parameter value range : String)
  /-- Nothing is given for a parameter that needs a token. -/
  | missingRequiredArgument (parameter : String)
  /-- Nothing usable follows a flag that takes a value. -/
  | missingFlagValue (flag : String)
  /-- Tokens are left when every parameter has its own. -/
  | tooManyArguments (rest : String)
  /-- No resolver is registered for a custom type. -/
  | unknownType (key : String)
  deriving DecidableEq, Repr, Inhabited

namespace ResolutionError

/-- The error in words. -/
def message : ResolutionError → String
  | unknownSubcommand expected found =>
    "unknown subcommand '" ++ found ++ "', expected '" ++ expected ++ "'"
  | typeConversion parameter token expected =>
    "'" ++ token ++ "' is not a valid " ++ expected ++ " for '" ++ parameter ++ "'"
  | outOfRange parameter value range =>
    value ++ " is out of range for '" ++ parameter ++ "' (" ++ range ++ ")"
  | missingRequiredArgument parameter => "missing required argument '" ++ parameter ++ "'"
  | missingFlagValue flag => "flag '-" ++ flag ++ "' expects a value"
  | tooManyArguments rest => "too many arguments: " ++ rest
  | unknownType key => "no resolver registered for type '" ++ key ++ "'"

end ResolutionError

end Parlance
