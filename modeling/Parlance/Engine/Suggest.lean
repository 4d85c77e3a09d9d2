import Parlance.Completion
import Parlance.Engine.Registry

/-!
# Suggestions of an engine

Completions for labels, for the tokens behind a label, and for a whole line.
-/

set_option autoImplicit false

namespace Parlance

variable {Act : Type}

namespace Engine

/-- The root may be offered to the source. -/
def isVisible (engine : Engine Act) (source : Source) (root : Node Act) : Bool :=
  !engine.config.filterSuggestionsByPermission || root.ignoresPermission
    || source.mayUse root.permission

/-- The tokens but the last, and the last; the empty one if there are none. -/
def splitLast (tokens : List String) : List String × String :=
  (tokens.dropLast, tokens.getLast?.getD "")

/-- Completions for the last of the tokens behind a label. -/
def suggest (engine : Engine Act) (source : Source) (label : String) (tokens : List String) :
    List String :=
  match engine.command? label with
  | none => []
  | some root =>
    if engine.isVisible source root then
      let (done, start) := splitLast tokens
      let completion : Completion :=
        { matcher := engine.matcher, config := engine.config, source, done, start }
      completion.answer root
    else []

/-- Names and aliases of roots that begin like the label. -/
def suggestLabels (engine : Engine Act) (source : Source) (start : String) : List String :=
  let visible := engine.commands.filter (engine.isVisible source)
  engine.config.limit ((visible.flatMap fun root => root.names).filter (Text.beginsFolded start))

/-- Completions for the last word of a line; a blank at its end begins a new
word. -/
def completeLine (engine : Engine Act) (source : Source) (line : String) : List String :=
  let tokens := Text.words line ++ if Text.endsBlank line then [""] else []
  match tokens with
  | [] => []
  | [label] => engine.suggestLabels source label
  | label :: rest => engine.suggest source label rest

end Engine

end Parlance
