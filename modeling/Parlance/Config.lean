/-!
# Configuration

The settings of an engine.
-/

set_option autoImplicit false

namespace Parlance

/-- Settings for dispatch and completion. -/
structure Config where
  /-- Letter case counts in fixed words. -/
  caseSensitiveLiterals : Bool := false
  /-- Greatest number of completions; zero for any number. -/
  maxSuggestions : Nat := 64
  /-- Usages and subcommands that the source may not use are not offered. -/
  filterSuggestionsByPermission : Bool := true
  /-- Flags not yet given are offered. -/
  suggestFlags : Bool := true
  deriving DecidableEq, Repr, Inhabited

/-- As many of the completions as the settings allow. -/
def Config.limit (config : Config) (suggestions : List String) : List String :=
  if config.maxSuggestions = 0 then suggestions else suggestions.take config.maxSuggestions

end Parlance
