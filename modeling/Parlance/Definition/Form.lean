import Parlance.Definition
import Parlance.Document.View

/-!
# Definitions as documents

The form in which command definitions are kept in files, and how they are read
from it. Reading passes over fields that it does not know, takes most fields as
missing when they are, and refuses everything else that writing does not
produce.
-/

set_option autoImplicit false

namespace Parlance

open Document

/-! ## Writing -/

/-- A field for a value that is there. -/
def optionalField (name : String) (value : Option Document) : List (String × Document) :=
  match value with
  | some document => [(name, document)]
  | none => []

/-- The attachment as a document. -/
def Attachment.form : Attachment → Document
  | .direct => .text "direct"
  | .main => .text "main"

/-- The type as a document; a choice carries its words and a custom type its
key. -/
def ValueType.form (n : Notation) : ValueType → Document
  | .choice words => ofVariant n "choice" (ofTexts words)
  | .custom key => ofVariant n "custom" (.text key)
  | other => .text other.name

/-- The flag as a record. -/
def FlagDefinition.form (n : Notation) (d : FlagDefinition) : Document :=
  ofFields ([("name", .text d.name), ("aliases", ofTexts d.aliases)]
    ++ optionalField "type" (d.type.map (ValueType.form n))
    ++ optionalField "default" (d.fallback.map .text))

/-- The hints as a record. -/
def hintsForm (hints : NameMap (List String)) : Document :=
  ofFields (hints.entries.map fun (name, words) => (name, ofTexts words))

/-- The usage as a text, or as a record if anything belongs to it. -/
def UsageDefinition.form : UsageDefinition → Document
  | .bare compact => .text compact
  | .detailed compact permission description hints =>
    ofFields ([("syntax", .text compact)]
      ++ optionalField "permission" (permission.map .text)
      ++ optionalField "description" (description.map .text)
      ++ [("suggestions", hintsForm hints)])

mutual

/-- The command as a record. -/
def CommandDefinition.form (n : Notation) : CommandDefinition → Document
  | ⟨name, aliases, description, permission, usages, flags, subcommands, attachment,
      ignoresPermission⟩ =>
    ofFields ([("name", .text name), ("aliases", ofTexts aliases)]
      ++ optionalField "description" (description.map .text)
      ++ optionalField "permission" (permission.map .text)
      ++ [("usages", .list (usages.map UsageDefinition.form)),
        ("flags", .list (flags.map (FlagDefinition.form n))),
        ("subcommands", .list (CommandDefinition.forms n subcommands)),
        ("attachment", attachment.form),
        ("suggestions_ignore_permission", .bool ignoresPermission)])

/-- The commands, each as a record. -/
def CommandDefinition.forms (n : Notation) : List CommandDefinition → List Document
  | [] => []
  | d :: ds => d.form n :: CommandDefinition.forms n ds

end

/-- The tree as a record. -/
def TreeDefinition.form (n : Notation) (tree : TreeDefinition) : Document :=
  ofFields [("commands", .list (CommandDefinition.forms n tree.commands))]

/-! ## Reading -/

/-- The case without data that a document names. -/
def unitCase? {α : Type} (value : α) : Option Document → Option α
  | none => some value
  | some inner => if inner.isNothing then some value else none

/-- The attachment that a document names. -/
def Attachment.ofDocument? (n : Notation) (document : Document) : Option Attachment :=
  match document.variant? n with
  | some ("direct", inner) => unitCase? .direct inner
  | some ("main", inner) => unitCase? .main inner
  | _ => none

/-- The type that a document names. -/
def ValueType.ofDocument? (n : Notation) (document : Document) : Option ValueType :=
  match document.variant? n with
  | some ("string", inner) => unitCase? .string inner
  | some ("word", inner) => unitCase? .word inner
  | some ("integer", inner) => unitCase? .integer inner
  | some ("float", inner) => unitCase? .float inner
  | some ("boolean", inner) => unitCase? .boolean inner
  | some ("duration", inner) => unitCase? .duration inner
  | some ("choice", some inner) => inner.texts?.map .choice
  | some ("custom", some inner) => inner.text?.map .custom
  | _ => none

/-- The names of a flag's fields. -/
def flagFields : List String := ["name", "aliases", "type", "default"]

/-- The flag that a document describes. -/
def FlagDefinition.ofDocument? (n : Notation) (document : Document) : Option FlagDefinition :=
  match document.fields? flagFields with
  | some [some name, aliases, type, fallback] => do
    let name ← name.text?
    let aliases ← orDefault? texts? [] aliases
    let type ← optional? (ValueType.ofDocument? n) type
    let fallback ← optional? text? fallback
    return { name, aliases, type, fallback }
  | _ => none

/-- The hints that a record holds. -/
def hintsOfDocument? : Document → Option (NameMap (List String))
  | .record entries => do
    let pairs ← collectEntries? entries
    return .ofList pairs
  | _ => none
where
  /-- Names and words of the entries. -/
  collectEntries? : List (Document × Document) → Option (List (String × List String))
    | [] => some []
    | (key, value) :: entries => do
      let name ← key.text?
      let words ← value.texts?
      return (name, words) :: (← collectEntries? entries)

/-- The names of a detailed usage's fields. -/
def usageFields : List String := ["syntax", "permission", "description", "suggestions"]

/-- The usage that a record describes, all plain scalars settled. -/
def UsageDefinition.ofEntries? (entries : List (Document × Document)) : Option UsageDefinition :=
  match (Document.record entries).fields? usageFields with
  | some [some compact, permission, description, hints] => do
    let compact ← compact.text?
    let permission ← optional? text? permission
    let description ← optional? text? description
    let hints ← orDefault? hintsOfDocument? {} hints
    return .detailed compact permission description hints
  | _ => none

/-- The usage that a document describes: a text, or a record. Here a plain
scalar is a text only if it stands for one. -/
def UsageDefinition.ofDocument? (document : Document) : Option UsageDefinition :=
  match document.settled? with
  | some (.text compact) => some (.bare compact)
  | some (.record entries) => UsageDefinition.ofEntries? entries
  | _ => none

/-- The names of a command's fields. -/
def commandFields : List String :=
  ["name", "aliases", "description", "permission", "usages", "flags", "subcommands",
    "attachment", "suggestions_ignore_permission"]

/-- A list of documents that each describe something. -/
def listOf? {α : Type} (f : Document → Option α) (document : Document) : Option (List α) :=
  document.items?.bind (collect? f)

/-- The command that a document describes, with at most so many levels of
subcommands. -/
def CommandDefinition.ofDocument? (n : Notation) :
    Nat → Document → Option CommandDefinition
  | 0, _ => none
  | levels + 1, document =>
    match document.fields? commandFields with
    | some [some name, aliases, description, permission, usages, flags, subcommands, attachment,
        ignoresPermission] => do
      let name ← name.text?
      let aliases ← orDefault? texts? [] aliases
      let description ← optional? text? description
      let permission ← optional? text? permission
      let usages ← orDefault? (listOf? UsageDefinition.ofDocument?) [] usages
      let flags ← orDefault? (listOf? (FlagDefinition.ofDocument? n)) [] flags
      let subcommands ← orDefault? (listOf? (CommandDefinition.ofDocument? n levels)) [] subcommands
      let attachment ← orDefault? (Attachment.ofDocument? n) .direct attachment
      let ignoresPermission ← orDefault? bool? false ignoresPermission
      return {
        name, aliases, description, permission, usages, flags, subcommands, attachment,
        ignoresPermission }
    | _ => none

/-- The tree that a document describes. -/
def TreeDefinition.ofDocument? (n : Notation) (document : Document) : Option TreeDefinition :=
  match document.fields? ["commands"] with
  | some [commands] =>
    let levels := document.depth + 1
    (orDefault? (listOf? (CommandDefinition.ofDocument? n levels)) [] commands).map
      fun commands => { commands }
  | _ => none

end Parlance
