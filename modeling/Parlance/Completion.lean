import Parlance.Command
import Parlance.Config
import Parlance.TokenSplit
import Parlance.Matcher

/-!
# Completion

Candidates for the token that is being typed. Every usage and subcommand that
the finished tokens still agree with offers what could come next; the offers
are then cut down to those that begin like the unfinished token.
-/

set_option autoImplicit false

namespace Parlance

variable {Act : Type}

/-- One request for completions. -/
structure Completion where
  matcher : Matcher
  config : Config
  source : Source
  /-- The finished tokens. -/
  done : List String
  /-- The unfinished token. -/
  start : String

namespace Completion

/-! ## Next parameters -/

/-- Indices that are current behind a token, when it goes to one of these
parameters, of which the first has the given index. Optional parameters may be
passed over; a greedy one stays current. -/
def stepFrom (m : Matcher) (token : String) (index : Nat) : List Parameter → List Nat
  | [] => []
  | p :: ps =>
    (if m.accepts p token then [if p.isGreedy then index else index + 1] else [])
      ++ if p.isOptional then stepFrom m token (index + 1) ps else []

/-- Indices that are current behind a token, rising, when those in `current`
were before it. -/
def step (m : Matcher) (params : List Parameter) (token : String) (current : List Nat) :
    List Nat :=
  let next := current.flatMap fun index => stepFrom m token index (params.drop index)
  (List.range (params.length + 1)).filter next.contains

/-- Indices of the parameters that may come next behind the tokens. -/
def advance (m : Matcher) (params : List Parameter) (tokens : List String) : List Nat :=
  tokens.foldl (fun current token => step m params token current) [0]

/-- The parameters up to the first that may not be passed over. -/
def upcoming : List Parameter → List Parameter
  | [] => []
  | p :: ps => if p.isOptional then p :: upcoming ps else [p]

/-! ## Candidates -/

/-- Values of a type. -/
def ofType (c : Completion) (type : ValueType) : List String :=
  c.matcher.resolvers.suggestions type c.source c.start

/-- Tokens for a parameter. -/
def ofParameter (c : Completion) (p : Parameter) : List String :=
  if p.isLiteral then p.literalNames
  else
    p.suggestions
      ++ (p.suggester.map fun suggest => suggest c.source c.start).getD []
      ++ (p.type?.map c.ofType).getD []

/-- Tokens that may come next in a usage of the node, then its flags that are
not given yet. -/
def ofUsage (c : Completion) (node : Node Act) (usage : Usage Act) : List String :=
  let flags := node.flagsFor usage
  let split := TokenSplit.ofTokens flags c.done
  let params := usage.positional
  match advance c.matcher params split.positional with
  | [] => []
  | current =>
    let values := current.flatMap fun index => (upcoming (params.drop index)).flatMap c.ofParameter
    let unused := flags.filter fun flag => (split.hit? flag.name).isNone
    let dashed := unused.flatMap fun flag => flag.names.map fun name => "-" ++ name
    values ++ if c.config.suggestFlags then dashed else []

/-- The flag whose value the last finished token calls for. -/
def pendingIn (c : Completion) (flags : List Flag) : Option Flag :=
  match (TokenSplit.ofTokens flags c.done).hits.getLast? with
  | some hit =>
    if hit.value == .missing && hit.index + 1 == c.done.length then some hit.flag else none
  | none => none

/-- The flags without those named like an earlier one. -/
def distinctByName : List Flag → List String → List Flag
  | [], _ => []
  | flag :: flags, seen =>
    if seen.contains flag.name then distinctByName flags seen
    else flag :: distinctByName flags (flag.name :: seen)

/-- Flags that wait for a value, by the flags of each usage and of the path. -/
def pending (c : Completion) (node : Node Act) (usages : List (Usage Act)) : List Flag :=
  let sets := usages.map node.flagsFor ++ [node.flagsOnPath]
  distinctByName (sets.filterMap c.pendingIn) []

/-! ## Nodes -/

/-- What the node holds back is not offered to a source without permission. -/
def filters (c : Completion) (node : Node Act) : Bool :=
  c.config.filterSuggestionsByPermission && !node.ignoresPermission

/-- The usages of the node that may be offered. -/
def offered (c : Completion) (node : Node Act) : List (Usage Act) :=
  (node.effective.map EffectiveUsage.usage).filter fun usage =>
    !c.filters node || c.source.mayUse usage.permission

mutual

/-- Candidates of a node and of the subcommands that the finished tokens lead
to. A flag that waits for its value leaves room for nothing else. -/
def ofNode (c : Completion) : Node Act → List String
  | ⟨d, path, lead, scopeFlags, effective, effectiveDefault, children⟩ =>
    let node : Node Act := ⟨d, path, lead, scopeFlags, effective, effectiveDefault, children⟩
    let usages := c.offered node
    match c.pending node usages with
    | [] => usages.flatMap (c.ofUsage node) ++ c.ofChildren (c.filters node) children
    | waiting => (waiting.filterMap Flag.type).flatMap c.ofType

/-- Candidates of subcommands: the word of one that comes next, and what lies
below one that the tokens have passed. -/
def ofChildren (c : Completion) (filter : Bool) : List (Node Act) → List String
  | [] => []
  | child :: children =>
    let positional := (TokenSplit.ofTokens child.flagsOnPath c.done).positional
    let here :=
      match child.literalSlot? with
      | none => []
      | some slot =>
        if filter && !c.source.mayUse child.permission then []
        else if !c.matcher.acceptsAll child.positionalLead positional then []
        else if positional.length = slot then child.names
        else if slot < positional.length then c.ofNode child
        else []
    here ++ c.ofChildren filter children

end

/-! ## The answer -/

/-- Candidates that begin like the unfinished token, each once, as many as the
settings allow. -/
def answer (c : Completion) (root : Node Act) : List String :=
  c.config.limit ((c.ofNode root).filter (Text.beginsFolded c.start)).eraseDups

end Completion

end Parlance
