import Parlance.Parameter
import Parlance.Resolvers

/-!
# Matchers

Whether a token can fill a parameter, when custom types are known by their
resolvers and letter case counts in fixed words or does not.
-/

set_option autoImplicit false

namespace Parlance

/-- What the match of a token against a parameter depends on. -/
structure Matcher where
  resolvers : Resolvers := {}
  /-- Letter case counts in fixed words. -/
  exact : Bool := false
  deriving Inhabited

/-- The token can fill the parameter. -/
def Matcher.accepts (m : Matcher) (p : Parameter) (token : String) : Bool :=
  p.acceptsWith m.resolvers.accepts m.exact token

/-- Each of the first tokens can fill its parameter; the shorter list decides
how many are compared. -/
def Matcher.acceptsAll (m : Matcher) (params : List Parameter) (tokens : List String) : Bool :=
  (params.zip tokens).all fun (p, token) => m.accepts p token

end Parlance
