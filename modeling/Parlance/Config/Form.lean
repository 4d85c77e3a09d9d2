import Parlance.Config
import Parlance.Document.View

/-!
# Settings as documents

The form in which the settings of an engine are kept in files.
-/

set_option autoImplicit false

namespace Parlance.Config

open Document

/-- The names of the settings. -/
def fieldNames : List String :=
  ["case_sensitive_literals", "max_suggestions", "filter_suggestions_by_permission",
    "suggest_flags"]

/-- The settings as a record. -/
def form (config : Config) : Document :=
  ofFields [
    ("case_sensitive_literals", .bool config.caseSensitiveLiterals),
    ("max_suggestions", .integer config.maxSuggestions),
    ("filter_suggestions_by_permission", .bool config.filterSuggestionsByPermission),
    ("suggest_flags", .bool config.suggestFlags)]

/-- The settings that a document holds; one that is missing has its default. -/
def ofDocument? (document : Document) : Option Config :=
  let default : Config := {}
  match document.fields? fieldNames with
  | some [exact, maximum, filter, flags] => do
    let caseSensitiveLiterals ← orDefault? bool? default.caseSensitiveLiterals exact
    let maxSuggestions ← orDefault? word64? default.maxSuggestions maximum
    let filterSuggestionsByPermission ←
      orDefault? bool? default.filterSuggestionsByPermission filter
    let suggestFlags ← orDefault? bool? default.suggestFlags flags
    return {
      caseSensitiveLiterals, maxSuggestions, filterSuggestionsByPermission, suggestFlags }
  | _ => none

end Parlance.Config
