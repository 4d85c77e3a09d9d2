import Parlance.NameMap
import Parlance.Value

/-!
# Arguments

What a usage resolved to: a value under each name, in the order of the names.
-/

set_option autoImplicit false

namespace Parlance

/-- Values by the names of parameters and flags. -/
abbrev Arguments := NameMap Value

namespace Arguments

/-- The truth value of a name; false if there is none. -/
def switch (arguments : Arguments) (name : String) : Bool :=
  ((arguments.get? name).bind Value.bool?).getD false

end Arguments

end Parlance
