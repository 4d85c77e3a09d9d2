import Parlance.Command
import Parlance.TokenSplit
import Parlance.Matcher
import Parlance.Slot

/-!
# Selection

Choosing the usage that tokens belong to. At each node the usages with fixed
words of their own are tried first, then the subcommands, then the other
usages; the first that fits is taken, and a subcommand once reached is never
left again. Every search also keeps the parameters that accepted a token, so
that a failure can say how far the tokens got.
-/

set_option autoImplicit false

namespace Parlance

variable {Act : Type}

/-! ## Searches -/

/-- The outcome of a search, and the parameters that accepted a token during
it, in the order of the attempts. -/
structure Search (α : Type) where
  found : Option α := none
  accepted : List Parameter := []
  deriving Inhabited

/-- The search, and another one if it finds nothing. -/
def Search.orElse {α : Type} (first : Search α) (second : Unit → Search α) : Search α :=
  match first.found with
  | some _ => first
  | none =>
    let rest := second ()
    { rest with accepted := first.accepted ++ rest.accepted }

/-- The search with its finding mapped. -/
def Search.map {α β : Type} (f : α → β) (search : Search α) : Search β :=
  { search with found := search.found.map f }

/-! ## Usages -/

/-- Goes through parameters with their slots until one rejects its token or
lacks one. The answer says whether none did, and which parameters accepted. -/
def Matcher.fit (m : Matcher) (tokens : List String) :
    List (Parameter × Slot) → Bool × List Parameter
  | [] => (true, [])
  | (p, slot) :: rest =>
    match slot with
    | .token index =>
      if tokens[index]?.any (m.accepts p) then
        let (fits, accepted) := m.fit tokens rest
        (fits, p :: accepted)
      else (false, [])
    | .missing => (false, [])
    | .greedy start stop =>
      if stop ≤ start && p.fallback?.isNone then (false, [])
      else
        let (fits, accepted) := m.fit tokens rest
        (fits, p :: accepted)
    | .skipped => m.fit tokens rest

/-- Tries one usage of a node; it matches if every parameter is served and no
token is left. -/
def Matcher.tryUsage (m : Matcher) (node : Node Act) (tokens : List String) (usage : Usage Act) :
    Search (Usage Act) :=
  let positional := (TokenSplit.ofTokens (node.flagsFor usage) tokens).positional
  let (slots, taken) := Slot.assign usage.positional positional.length
  let (fits, accepted) := m.fit positional (usage.positional.zip slots)
  { found := if fits && taken == positional.length then some usage else none
    accepted }

/-- The first usage that matches. -/
def Matcher.tryUsages (m : Matcher) (node : Node Act) (tokens : List String) :
    List (EffectiveUsage Act) → Search (Usage Act)
  | [] => {}
  | e :: es => (m.tryUsage node tokens e.usage).orElse fun _ => m.tryUsages node tokens es

/-- The tokens go as far as the node's own word, which is the answer. -/
def Matcher.reach? (m : Matcher) (node : Node Act) (tokens : List String) : Option Parameter :=
  match node.literalSlot? with
  | none => none
  | some slot =>
    let positional := (TokenSplit.ofTokens node.flagsOnPath tokens).positional
    if slot < positional.length && m.acceptsAll node.positionalLead positional then
      node.positionalLead[slot]?
    else none

/-! ## Nodes -/

/-- What tokens select. -/
inductive Selection (Act : Type) where
  /-- A usage of the node. -/
  | complete (node : Node Act) (usage : Usage Act)
  /-- A subcommand none of whose usages match; its default usage applies. -/
  | incomplete (node : Node Act)
  /-- Nothing below the root. -/
  | failure (root : Node Act)
  deriving Inhabited

namespace Selection

/-- The node of the selection; the root for a failure. -/
def node : Selection Act → Node Act
  | complete node _ => node
  | incomplete node => node
  | failure root => root

/-- The usage to resolve. -/
def usage? : Selection Act → Option (Usage Act)
  | complete _ usage => some usage
  | incomplete node => some node.effectiveDefault
  | failure _ => none

end Selection

mutual

/-- Searches a node and all that it can reach. -/
def Matcher.walk (m : Matcher) (tokens : List String) : Node Act → Search (Selection Act)
  | ⟨d, path, lead, scopeFlags, effective, effectiveDefault, children⟩ =>
    let node : Node Act := ⟨d, path, lead, scopeFlags, effective, effectiveDefault, children⟩
    ((m.tryUsages node tokens node.literalUsages).map (.complete node)).orElse fun _ =>
      (m.walkAll tokens children).orElse fun _ =>
        (m.tryUsages node tokens node.valueUsages).map (.complete node)

/-- Searches the first subcommand that is reached, and no other. -/
def Matcher.walkAll (m : Matcher) (tokens : List String) :
    List (Node Act) → Search (Selection Act)
  | [] => {}
  | child :: children =>
    match m.reach? child tokens with
    | none => m.walkAll tokens children
    | some literal =>
      let below := m.walk tokens child
      { found := some (below.found.getD (.incomplete child))
        accepted := literal :: below.accepted }

end

/-! ## The outcome -/

/-- The parameter stands behind the other one. A parameter without a position
stands before all that have one. -/
def Parameter.isBehind (p other : Parameter) : Bool :=
  match other.position, p.position with
  | none, some _ => true
  | some a, some b => a < b
  | _, none => false

/-- The first of the parameters that no other one stands behind. -/
def deepest : List Parameter → Option Parameter :=
  List.foldl (fun best p =>
    match best with
    | none => some p
    | some b => if p.isBehind b then some p else some b) none

/-- What tokens select, and how far they got. -/
structure Match (Act : Type) where
  selection : Selection Act
  /-- The deepest parameter that accepted a token. -/
  lastMatched : Option Parameter
  deriving Inhabited

/-- Selects a usage of the root or of a node below it. With no positional token
and nothing found, the root's default usage is selected. -/
def Matcher.select (m : Matcher) (root : Node Act) (tokens : List String) : Match Act :=
  let search := m.walk tokens root
  let otherwise :=
    if (TokenSplit.ofTokens root.flagsOnPath tokens).positional.isEmpty then
      Selection.complete root root.effectiveDefault
    else .failure root
  { selection := search.found.getD otherwise
    lastMatched := deepest search.accepted }

end Parlance
