import Parlance.Arguments
import Parlance.Document

/-!
# Arguments as documents

The form in which values and arguments are shown to programs.
-/

set_option autoImplicit false

namespace Parlance

/-- The value as a scalar; a duration is the text of its compact form. -/
def Value.form : Value → Document
  | text s => .text s
  | integer n => .integer n
  | float x => .float x
  | bool b => .bool b
  | duration d => .text d.format

/-- The arguments as a record. -/
def Arguments.form (arguments : Arguments) : Document :=
  .ofFields (arguments.entries.map fun (name, value) => (name, value.form))

end Parlance
