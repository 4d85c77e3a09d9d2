import Parlance.Yaml.Scalar

/-!
# Tokens of YAML text

A text becomes a row of tokens in which the depth of lines shows as the begin
and end of blocks. That a scalar is the key of a record is known only from the
colon behind it; until then its place in the row is kept, so that the tokens
that open a record can be put in front of it.
-/

set_option autoImplicit false

namespace Parlance.Yaml

/-- A token. -/
inductive Token where
  | documentStart
  | documentEnd
  | blockList
  | blockRecord
  | blockEnd
  | listOpen
  | listClose
  | recordOpen
  | recordClose
  /-- A dash in front of an item. -/
  | item
  /-- A comma within a line. -/
  | comma
  /-- What follows is a key. -/
  | key
  /-- What follows is a value. -/
  | value
  | anchor (name : String)
  | alias (name : String)
  | tag (name : String)
  | scalar (isPlain : Bool) (text : String)
  deriving DecidableEq, Repr, Inhabited

/-! ## The scanner -/

/-- A place in the row of tokens where a key may have begun. -/
structure KeyPlace where
  /-- Nothing but a key can stand there. -/
  required : Bool
  /-- Number of tokens in front of it. -/
  token : Nat
  cursor : Cursor
  deriving Repr, Inhabited

/-- What is known while tokens are taken from a text. -/
structure Scanner where
  rest : List Char
  cursor : Cursor := {}
  tokens : Array Token := #[]
  /-- Column of the innermost block, less than zero outside of all. -/
  indent : Int := -1
  /-- Columns of the blocks around it, the innermost first. -/
  outer : List Int := []
  /-- For each list or record on one line that is open, and for the blocks, the
  place where a key may have begun; the innermost first. -/
  places : List (Option KeyPlace) := [none]
  /-- A key may begin here. -/
  keyAllowed : Bool := true
  deriving Inhabited

namespace Scanner

/-- A list or record on one line is open. -/
def inFlow (s : Scanner) : Bool :=
  1 < s.places.length

/-- The column of what comes next. -/
def column (s : Scanner) : Int :=
  s.cursor.column

/-- Adds a token. -/
def emit (s : Scanner) (token : Token) : Scanner :=
  { s with tokens := s.tokens.push token }

/-- Puts a token in front of those from a place on. -/
def emitAt (s : Scanner) (place : Nat) (token : Token) : Scanner :=
  { s with tokens := s.tokens.insertIdxIfInBounds place token }

/-- Passes over characters. -/
def skip (s : Scanner) (count : Nat) : Scanner :=
  { s with
    rest := s.rest.drop count
    cursor := s.cursor.pastAll (s.rest.take count) }

/-- Goes on behind a scalar. -/
def behind (s : Scanner) (scanned : Scanned) : Scanner :=
  { s with rest := scanned.rest, cursor := scanned.cursor }

/-! ### Keys -/

/-- Replaces the innermost place of a key. -/
def setPlace (s : Scanner) (place : Option KeyPlace) : Scanner :=
  { s with places := place :: s.places.drop 1 }

/-- Forgets the innermost place of a key; none if it had to become one. -/
def dropPlace (s : Scanner) : Option Scanner :=
  match s.places.head?.join with
  | some place => if place.required then none else some (s.setPlace none)
  | none => some s

/-- Notes that a key may begin here. -/
def savePlace (s : Scanner) : Option Scanner :=
  if s.keyAllowed then
    s.dropPlace.map fun s =>
      s.setPlace (some {
        required := !s.inFlow && s.indent == s.column
        token := s.tokens.size
        cursor := s.cursor })
  else some s

/-- A key must lie on one line and be no longer than 1024 characters. -/
def isStale (s : Scanner) (place : KeyPlace) : Bool :=
  place.cursor.line < s.cursor.line || place.cursor.index + 1024 < s.cursor.index

/-- Forgets all places that no longer can become keys. -/
def dropStale (s : Scanner) : Option Scanner :=
  let isDue := s.places.any fun place => place.any fun p => s.isStale p && p.required
  if isDue then none
  else some { s with places := s.places.map fun place => place.filter fun p => !s.isStale p }

/-! ### Blocks -/

/-- Opens a block at a column that lies deeper than the innermost one. The
token goes to a place in the row, or to its end. -/
def openBlock (s : Scanner) (column : Int) (place : Option Nat) (token : Token) : Scanner :=
  if s.inFlow || column ≤ s.indent then s
  else
    let s := { s with outer := s.indent :: s.outer, indent := column }
    match place with
    | some place => s.emitAt place token
    | none => s.emit token

/-- Closes blocks that lie deeper than a column, out of the given ones. -/
def closeBlocksFrom (column : Int) : List Int → Scanner → Scanner
  | [], s => s
  | around :: rest, s =>
    if column < s.indent then
      closeBlocksFrom column rest { s.emit .blockEnd with indent := around, outer := rest }
    else s

/-- Closes the blocks that lie deeper than a column. -/
def closeBlocks (s : Scanner) (column : Int) : Scanner :=
  if s.inFlow then s else closeBlocksFrom column s.outer s

/-! ### Between tokens -/

/-- Passes over spaces, comments and breaks. A tab is not passed over where a
key may begin. -/
def skipBlanks : Nat → Scanner → Scanner
  | 0, s => s
  | fuel + 1, s =>
    let mayTab := s.inFlow || !s.keyAllowed
    let isGap (c : Char) : Bool := c = ' ' || (mayTab && c = '\t')
    let s := if s.cursor.column = 0 && s.rest.head? = some (Char.ofNat 0xFEFF) then s.skip 1 else s
    let s := s.skip (s.rest.takeWhile isGap).length
    let s :=
      if s.rest.head? = some '#' then s.skip (s.rest.takeWhile (!isBreak ·)).length else s
    match s.rest with
    | c :: _ =>
      if isBreak c then
        let s := s.skip 1
        skipBlanks fuel (if s.inFlow then s else { s with keyAllowed := true })
      else s
    | [] => s

/-! ### Single tokens -/

/-- A mark at the begin or end of a document. -/
def documentMark (s : Scanner) (token : Token) : Option Scanner :=
  (s.closeBlocks (-1)).dropPlace.map fun s => ({ s with keyAllowed := false }.skip 3).emit token

/-- Opens a list or record on one line. -/
def openFlow (s : Scanner) (token : Token) : Option Scanner :=
  s.savePlace.map fun s =>
    ({ s with places := none :: s.places, keyAllowed := true }.skip 1).emit token

/-- Closes a list or record on one line. -/
def closeFlow (s : Scanner) (token : Token) : Option Scanner :=
  s.dropPlace.map fun s =>
    let places := if s.inFlow then s.places.drop 1 else s.places
    ({ s with places, keyAllowed := false }.skip 1).emit token

/-- A comma. -/
def flowComma (s : Scanner) : Option Scanner :=
  s.dropPlace.map fun s => ({ s with keyAllowed := true }.skip 1).emit .comma

/-- A dash in front of an item. -/
def blockItem (s : Scanner) : Option Scanner :=
  if !s.inFlow && !s.keyAllowed then none
  else
    (s.openBlock s.column none .blockList).dropPlace.map fun s =>
      ({ s with keyAllowed := true }.skip 1).emit .item

/-- A question mark in front of a key. -/
def explicitKey (s : Scanner) : Option Scanner :=
  if !s.inFlow && !s.keyAllowed then none
  else
    (s.openBlock s.column none .blockRecord).dropPlace.map fun s =>
      ({ s with keyAllowed := !s.inFlow }.skip 1).emit .key

/-- A colon in front of a value. What stands at the place of a key becomes one. -/
def valueMark (s : Scanner) : Option Scanner :=
  match s.places.head?.join with
  | some place =>
    let s := (s.emitAt place.token .key).openBlock place.cursor.column (some place.token)
      .blockRecord
    some (({ s.setPlace none with keyAllowed := false }.skip 1).emit .value)
  | none =>
    if !s.inFlow && !s.keyAllowed then none
    else
      let s := s.openBlock s.column none .blockRecord
      some (({ s with keyAllowed := !s.inFlow }.skip 1).emit .value)

/-- A character of the name of an anchor. -/
def isNameCharacter (c : Char) : Bool :=
  c.isAlphanum || c = '-' || c = '_'

/-- An anchor or alias behind its mark. -/
def anchorMark (s : Scanner) (token : String → Token) : Option Scanner :=
  s.savePlace.bind fun s =>
    let name := (s.rest.drop 1).takeWhile isNameCharacter
    let after := (s.rest.drop 1).dropWhile isNameCharacter
    let ends := atSpaceOrEnd after
      || after.head?.any fun c => "?:,]\x7d%@`".toList.contains c
    if name.isEmpty || !ends then none
    else
      some (({ s with keyAllowed := false }.skip (name.length + 1)).emit
        (token (String.ofList name)))

/-- The name that a tag gives, and its length in the text. The name of a
standard tag, which has two marks, keeps one of them. -/
def tagName? (cs : List Char) : Option (String × Nat) :=
  let word := cs.takeWhile fun c => !isSpaceOrBreak c && !isFlowMark c
  match word with
  | '!' :: '<' :: more =>
    match more.getLast? with
    | some '>' => some (String.ofList more.dropLast, word.length)
    | _ => none
  | '!' :: '!' :: more => some (String.ofList ('!' :: more), word.length)
  | '!' :: more => if more.contains '!' then none else some (String.ofList more, word.length)
  | _ => none

/-- A tag. -/
def tagMark (s : Scanner) : Option Scanner :=
  s.savePlace.bind fun s =>
    (tagName? s.rest).bind fun (name, length) =>
      let after := s.rest.drop length
      if atSpaceOrEnd after || (s.inFlow && after.head? = some ',') then
        some (({ s with keyAllowed := false }.skip length).emit (.tag name))
      else none

/-- A block of lines. -/
def blockScalar (s : Scanner) (literal : Bool) : Option Scanner :=
  s.dropPlace.bind fun s =>
    (readBlock literal s.indent (s.cursor.past '|') (s.rest.drop 1)).map fun scanned =>
      ({ s with keyAllowed := true }.behind scanned).emit
        (.scalar false (String.ofList scanned.text))

/-- A scalar in quotes. -/
def quotedScalar (s : Scanner) (read : Cursor → List Char → Option Scanned) : Option Scanner :=
  s.savePlace.bind fun s =>
    (read (s.cursor.past '"') (s.rest.drop 1)).map fun scanned =>
      ({ s with keyAllowed := false }.behind scanned).emit
        (.scalar false (String.ofList scanned.text))

/-- A scalar without quotes. -/
def plainScalar (s : Scanner) : Option Scanner :=
  s.savePlace.bind fun s =>
    (readPlain s.inFlow (s.indent + 1) s.cursor s.rest).map fun scanned =>
      ({ s with keyAllowed := scanned.broken }.behind scanned).emit
        (.scalar true (String.ofList scanned.text))

/-- A character that cannot begin a scalar without quotes by itself. -/
def isIndicator (c : Char) : Bool :=
  "-?:,[]\x7b\x7d#&*!|>'\"%@`".toList.contains c

/-- A scalar without quotes may begin here. -/
def beginsPlain (s : Scanner) (c : Char) (cs : List Char) : Bool :=
  !(isSpaceOrBreak c || isIndicator c)
    || (c = '-' && !cs.head?.any isSpace)
    || (!s.inFlow && (c = '?' || c = ':') && !atSpaceOrEnd cs)

/-- Takes the token that begins with a character. -/
def takeToken (s : Scanner) (c : Char) (cs : List Char) : Option Scanner :=
  if s.cursor.column = 0 && c = '%' then none
  else if s.cursor.column = 0 && c = '-' && isDocumentMark s.rest then
    s.documentMark .documentStart
  else if s.cursor.column = 0 && c = '.' && isDocumentMark s.rest then
    s.documentMark .documentEnd
  else if c = '[' then s.openFlow .listOpen
  else if c = '\x7b' then s.openFlow .recordOpen
  else if c = ']' then s.closeFlow .listClose
  else if c = '\x7d' then s.closeFlow .recordClose
  else if c = ',' then s.flowComma
  else if c = '-' && atSpaceOrEnd cs then s.blockItem
  else if c = '?' && (s.inFlow || atSpaceOrEnd cs) then s.explicitKey
  else if c = ':' && (s.inFlow || atSpaceOrEnd cs) then s.valueMark
  else if c = '*' then s.anchorMark .alias
  else if c = '&' then s.anchorMark .anchor
  else if c = '!' then s.tagMark
  else if c = '|' && !s.inFlow then s.blockScalar true
  else if c = '>' && !s.inFlow then s.blockScalar false
  else if c = '\'' then s.quotedScalar (singleFrom [] .empty)
  else if c = '"' then s.quotedScalar (doubleFrom [] .empty none)
  else if s.beginsPlain c cs then s.plainScalar
  else none

/-- Takes all tokens. Each step uses up some fuel. -/
def run : Nat → Scanner → Option (Array Token)
  | 0, _ => none
  | fuel + 1, s =>
    let s := skipBlanks (s.rest.length + 1) s
    s.dropStale.bind fun s =>
      let s := s.closeBlocks s.column
      match s.rest with
      | [] => (s.closeBlocks (-1)).dropPlace.map Scanner.tokens
      | c :: cs => (s.takeToken c cs).bind (run fuel)

end Scanner

/-! ## Texts -/

/-- Line ends of all kinds as one character. -/
def unifyBreaks : List Char → List Char
  | '\r' :: '\n' :: cs => '\n' :: unifyBreaks cs
  | c :: cs => (if c = '\r' || c.toNat = 0x85 then '\n' else c) :: unifyBreaks cs
  | [] => []

/-- A character that may stand in a text. -/
def isAllowed (c : Char) : Bool :=
  let n := c.toNat
  n = 9 || n = 10 || n = 13 || (0x20 ≤ n && n ≤ 0x7E) || n = 0x85 || (0xA0 ≤ n && n ≤ 0xD7FF)
    || (0xE000 ≤ n && n ≤ 0xFFFD) || 0x10000 ≤ n

/-- The tokens of a text. -/
def tokens? (text : String) : Option (List Token) :=
  if text.toList.all isAllowed then
    let cs := unifyBreaks text.toList
    (Scanner.run (cs.length + 2) { rest := cs }).map Array.toList
  else none

end Parlance.Yaml
