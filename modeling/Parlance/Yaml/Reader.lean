import Parlance.Document
import Parlance.Yaml.Token

/-!
# Reading YAML

The document that a YAML text writes, from its tokens. A text holds one
document; one without any content is a plain scalar without text.
-/

set_option autoImplicit false

namespace Parlance.Yaml

/-- What is left of the tokens, and the documents that have been given names. -/
structure Reading where
  tokens : List Token
  named : List (String × Document) := []
  deriving Inhabited

/-- A document that is not written out. -/
def nothing : Document := .plain ""

/-- Anchor and tag in front of a document, in either order, and the tokens
behind them. -/
def properties : List Token → Option String × Option String × List Token
  | .anchor a :: .tag t :: rest => (some a, some t, rest)
  | .tag t :: .anchor a :: rest => (some a, some t, rest)
  | .anchor a :: rest => (some a, none, rest)
  | .tag t :: rest => (none, some t, rest)
  | rest => (none, none, rest)

/-- The document with its tag; a standard tag adds nothing. -/
def withTag (tag : Option String) (document : Document) : Document :=
  match tag with
  | some name => if name.startsWith "!" then document else .tagged name document
  | none => document

/-- Gives a document the name of its anchor. -/
def Reading.naming (r : Reading) (anchor : Option String) (document : Document) : Reading :=
  match anchor with
  | some name => { r with named := (name, document) :: r.named }
  | none => r

/-- A scalar as a document. -/
def ofScalar (isPlain : Bool) (text : String) : Document :=
  if isPlain then .plain text else .text text

/-- A document without content ends before such a token. -/
def endsBlock : Token → Bool
  | .key => true
  | .value => true
  | .blockEnd => true
  | _ => false

mutual

/-- Reads a document. Blocks are allowed if `block`, and a list whose dashes
stand under its key if `loose`. Each step uses up some fuel. -/
def readNode : Nat → (block loose : Bool) → Reading → Option (Document × Reading)
  | 0, _, _, _ => none
  | fuel + 1, block, loose, r =>
    match r.tokens with
    | .alias name :: rest =>
      (r.named.lookup name).map fun document => (document, { r with tokens := rest })
    | tokens =>
      let (anchor, tag, rest) := properties tokens
      let r := { r with tokens := rest }
      let finish (result : Option (Document × Reading)) : Option (Document × Reading) :=
        result.map fun (document, r) =>
          let document := withTag tag document
          (document, r.naming anchor document)
      match rest with
      | .item :: _ =>
        if loose then finish ((readLoose fuel r).map fun (items, r) => (.list items, r))
        else if anchor.isSome || tag.isSome then finish (some (nothing, r))
        else none
      | .scalar isPlain text :: rest =>
        finish (some (ofScalar isPlain text, { r with tokens := rest }))
      | .listOpen :: rest =>
        finish ((readFlowItems fuel true { r with tokens := rest }).map fun (items, r) =>
          (.list items, r))
      | .recordOpen :: rest =>
        finish ((readFlowEntries fuel true { r with tokens := rest }).map fun (entries, r) =>
          (.record entries, r))
      | .blockList :: rest =>
        if block then
          finish ((readItems fuel { r with tokens := rest }).map fun (items, r) => (.list items, r))
        else if anchor.isSome || tag.isSome then finish (some (nothing, r))
        else none
      | .blockRecord :: rest =>
        if block then
          finish ((readEntries fuel { r with tokens := rest }).map fun (entries, r) =>
            (.record entries, r))
        else if anchor.isSome || tag.isSome then finish (some (nothing, r))
        else none
      | _ => if anchor.isSome || tag.isSome then finish (some (nothing, r)) else none

/-- Reads the items of a list that is a block. -/
def readItems : Nat → Reading → Option (List Document × Reading)
  | 0, _ => none
  | fuel + 1, r =>
    match r.tokens with
    | .blockEnd :: rest => some ([], { r with tokens := rest })
    | .item :: rest => do
      let r := { r with tokens := rest }
      let (item, r) ←
        match rest with
        | .item :: _ => some (nothing, r)
        | .blockEnd :: _ => some (nothing, r)
        | _ => readNode fuel true false r
      let (items, r) ← readItems fuel r
      return (item :: items, r)
    | _ => none

/-- Reads the items of a list whose dashes stand under its key. -/
def readLoose : Nat → Reading → Option (List Document × Reading)
  | 0, _ => none
  | fuel + 1, r =>
    match r.tokens with
    | .item :: rest => do
      let r := { r with tokens := rest }
      let (item, r) ←
        match rest with
        | .item :: _ => some (nothing, r)
        | token :: _ => if endsBlock token then some (nothing, r) else readNode fuel true false r
        | [] => none
      let (items, r) ← readLoose fuel r
      return (item :: items, r)
    | _ => some ([], r)

/-- Reads the entries of a record that is a block. -/
def readEntries : Nat → Reading → Option (List (Document × Document) × Reading)
  | 0, _ => none
  | fuel + 1, r =>
    match r.tokens with
    | .blockEnd :: rest => some ([], { r with tokens := rest })
    | .key :: rest => do
      let r := { r with tokens := rest }
      let (key, r) ←
        match rest with
        | token :: _ => if endsBlock token then some (nothing, r) else readNode fuel true true r
        | [] => none
      let (value, r) ←
        match r.tokens with
        | .value :: rest =>
          let r := { r with tokens := rest }
          match rest with
          | token :: _ => if endsBlock token then some (nothing, r) else readNode fuel true true r
          | [] => none
        | _ => some (nothing, r)
      let (entries, r) ← readEntries fuel r
      return ((key, value) :: entries, r)
    | _ => none

/-- Reads the items of a list on one line. -/
def readFlowItems : Nat → (first : Bool) → Reading → Option (List Document × Reading)
  | 0, _, _ => none
  | fuel + 1, first, r =>
    match r.tokens with
    | .listClose :: rest => some ([], { r with tokens := rest })
    | tokens => do
      let rest ←
        if first then some tokens
        else
          match tokens with
          | .comma :: rest => some rest
          | _ => none
      match rest with
      | .listClose :: rest => return ([], { r with tokens := rest })
      | .key :: rest =>
        let (entry, r) ← readFlowEntry fuel .listClose { r with tokens := rest }
        let (items, r) ← readFlowItems fuel false r
        return (.record [entry] :: items, r)
      | rest =>
        let (item, r) ← readNode fuel false false { r with tokens := rest }
        let (items, r) ← readFlowItems fuel false r
        return (item :: items, r)

/-- Reads the entries of a record on one line. -/
def readFlowEntries : Nat → (first : Bool) → Reading → Option (List (Document × Document) × Reading)
  | 0, _, _ => none
  | fuel + 1, first, r =>
    match r.tokens with
    | .recordClose :: rest => some ([], { r with tokens := rest })
    | tokens => do
      let rest ←
        if first then some tokens
        else
          match tokens with
          | .comma :: rest => some rest
          | _ => none
      match rest with
      | .recordClose :: rest => return ([], { r with tokens := rest })
      | .key :: rest =>
        let (entry, r) ← readFlowEntry fuel .recordClose { r with tokens := rest }
        let (entries, r) ← readFlowEntries fuel false r
        return (entry :: entries, r)
      | rest =>
        let (key, r) ← readNode fuel false false { r with tokens := rest }
        let (entries, r) ← readFlowEntries fuel false r
        return ((key, nothing) :: entries, r)

/-- Reads an entry behind the mark of its key, up to a comma or `close`. -/
def readFlowEntry : Nat → (close : Token) → Reading → Option ((Document × Document) × Reading)
  | 0, _, _ => none
  | fuel + 1, close, r => do
    let ends (token : Token) : Bool := token == .comma || token == close
    let (key, r) ←
      match r.tokens with
      | token :: _ =>
        if token == .value || ends token then some (nothing, r) else readNode fuel false false r
      | [] => none
    let (value, r) ←
      match r.tokens with
      | .value :: rest =>
        let r := { r with tokens := rest }
        match rest with
        | token :: _ => if ends token then some (nothing, r) else readNode fuel false false r
        | [] => none
      | _ => some (nothing, r)
    return ((key, value), r)

end

/-- The tokens behind marks for the end of a document. -/
def skipEnds (tokens : List Token) : List Token :=
  tokens.dropWhile (· == .documentEnd)

/-- The document that the tokens of a text write. -/
def ofTokens? (tokens : List Token) : Option Document :=
  let (explicit, content) :=
    match skipEnds tokens with
    | .documentStart :: rest => (true, rest)
    | rest => (false, rest)
  match content with
  | [] => some nothing
  | first :: _ =>
    if explicit && (first == .documentStart || first == .documentEnd) then
      if (skipEnds content).isEmpty then some nothing else none
    else
      match readNode (2 * content.length + 2) true false { tokens := content } with
      | some (document, r) => if (skipEnds r.tokens).isEmpty then some document else none
      | none => none

/-- The document of a YAML text. -/
def read? (text : String) : Option Document :=
  (tokens? text).bind ofTokens?

end Parlance.Yaml
