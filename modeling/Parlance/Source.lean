/-!
# Sources

Whoever gave a command: a console, a player, a user of a bot. A source has a
name, and the host says which permissions it holds.
-/

set_option autoImplicit false

namespace Parlance

/-- The one on whose behalf a command runs. -/
structure Source where
  name : String
  /-- The source holds the permission. -/
  holds : String → Bool

namespace Source

/-- The console, which holds every permission. -/
def console : Source where
  name := "console"
  holds _ := true

/-- A source that holds the given permissions. -/
def holding (name : String) (permissions : List String) : Source where
  name := name
  holds permission := permissions.contains permission

/-- A source that holds every permission. -/
def unrestricted (name : String) : Source where
  name := name
  holds _ := true

/-- The source holds the permission, where one is asked for. -/
def mayUse (source : Source) : Option String → Bool
  | none => true
  | some permission => source.holds permission

end Source

end Parlance
