/-!
# Scalars in YAML text

The three ways in which a scalar is written: without quotes, in quotes of one
kind or the other, and as a block of lines. Lines within a scalar are folded: a
single break becomes a blank, and of several breaks the first is dropped.
-/

set_option autoImplicit false

namespace Parlance.Yaml

/-! ## Breaks -/

/-- The end of a line. -/
def isBreak (c : Char) : Bool :=
  c = '\n' || c = '\r' || c.toNat = 0x85 || c.toNat = 0x2028 || c.toNat = 0x2029

/-! ## Positions -/

/-- A place in a text. -/
structure Cursor where
  line : Nat := 0
  column : Nat := 0
  index : Nat := 0
  deriving DecidableEq, Repr, Inhabited

/-- The place behind a character. -/
def Cursor.past (cursor : Cursor) (c : Char) : Cursor :=
  if isBreak c then { line := cursor.line + 1, column := 0, index := cursor.index + 1 }
  else { cursor with column := cursor.column + 1, index := cursor.index + 1 }

/-- The place behind some characters. -/
def Cursor.pastAll (cursor : Cursor) (cs : List Char) : Cursor :=
  cs.foldl Cursor.past cursor

/-- A scalar that was read: its text, where it ended, what follows, and whether
a line was broken behind its last character. -/
structure Scanned where
  text : List Char
  cursor : Cursor
  rest : List Char
  broken : Bool := false
  deriving Repr, Inhabited

/-! ## Character classes -/

/-- A space or a tab. -/
def isSpace (c : Char) : Bool :=
  c = ' ' || c = '\t'

/-- A space, a tab, or the end of a line. -/
def isSpaceOrBreak (c : Char) : Bool :=
  isSpace c || isBreak c

/-- The text is at its end, or a space or a break comes next. -/
def atSpaceOrEnd : List Char → Bool
  | [] => true
  | c :: _ => isSpaceOrBreak c

/-- A mark that has a meaning of its own within lists and records on one line. -/
def isFlowMark (c : Char) : Bool :=
  c = ',' || c = '[' || c = ']' || c = '\x7b' || c = '\x7d'

/-- A mark that begins or ends a document. -/
def isDocumentMark : List Char → Bool
  | '-' :: '-' :: '-' :: rest => atSpaceOrEnd rest
  | '.' :: '.' :: '.' :: rest => atSpaceOrEnd rest
  | _ => false

/-! ## Folding -/

/-- Spaces and breaks met since the last character of a scalar. -/
inductive Gap where
  /-- Spaces on one line, the last first. -/
  | spaces (reversed : List Char)
  /-- Breaks, the last first; at least one. -/
  | breaks (reversed : List Char)
  /-- A break that is hidden by a backslash, and the breaks behind it, the last
  first. -/
  | hidden (reversed : List Char)
  deriving Repr, Inhabited

namespace Gap

/-- Nothing since the last character. -/
def empty : Gap := .spaces []

/-- A line has been broken. -/
def isBroken : Gap → Bool
  | spaces _ => false
  | breaks _ => true
  | hidden _ => true

/-- The gap with one more space or break. -/
def add (gap : Gap) (c : Char) : Gap :=
  match gap with
  | spaces reversed => if isBreak c then breaks [c] else spaces (c :: reversed)
  | breaks reversed => breaks (if isBreak c then c :: reversed else reversed)
  | hidden reversed => hidden (if isBreak c then c :: reversed else reversed)

/-- What the gap contributes to the text, the last character first. -/
def folded : Gap → List Char
  | spaces reversed => reversed
  | breaks ['\n'] => [' ']
  | breaks reversed =>
    if reversed.getLast? = some '\n' then reversed.dropLast else reversed
  | hidden reversed => reversed

end Gap

/-! ## Scalars without quotes -/

/-- A scalar without quotes ends here: at a colon that ends a key, and within a
line of a list or record at one of its marks. -/
def endsPlain (flow : Bool) (c : Char) (behind : List Char) : Bool :=
  (c = ':' && atSpaceOrEnd behind) || (flow && isFlowMark c)

/-- Reads on in a scalar without quotes, of which `text` is known, last
character first. Lines that go on must be indented by `indent` at least. -/
def plainFrom (flow : Bool) (indent : Int) (text : List Char) (gap : Gap) (fresh : Bool)
    (cursor : Cursor) : List Char → Option Scanned
  | [] => some { text := text.reverse, cursor, rest := [], broken := gap.isBroken }
  | c :: cs =>
    let stop : Option Scanned :=
      some { text := text.reverse, cursor, rest := c :: cs, broken := gap.isBroken }
    if isSpaceOrBreak c then
      if c = '\t' && gap.isBroken && (cursor.column : Int) < indent then none
      else plainFrom flow indent text (gap.add c) true (cursor.past c) cs
    else if fresh && !flow && gap.isBroken && (cursor.column : Int) < indent then stop
    else if fresh && cursor.column = 0 && isDocumentMark (c :: cs) then stop
    else if fresh && c = '#' then stop
    else if flow && c = ':' && cs.head?.any isFlowMark then none
    else if endsPlain flow c cs then stop
    else plainFrom flow indent (c :: (gap.folded ++ text)) .empty false (cursor.past c) cs

/-- Reads a scalar without quotes. -/
def readPlain (flow : Bool) (indent : Int) (cursor : Cursor) (cs : List Char) : Option Scanned :=
  plainFrom flow indent [] .empty true cursor cs

/-! ## Scalars in quotes -/

/-- Reads on between single quotes; a quote is written twice. -/
def singleFrom (text : List Char) (gap : Gap) (cursor : Cursor) : List Char → Option Scanned
  | [] => none
  | '\'' :: '\'' :: cs =>
    singleFrom ('\'' :: (gap.folded ++ text)) .empty ((cursor.past '\'').past '\'') cs
  | '\'' :: cs =>
    some { text := (gap.folded ++ text).reverse, cursor := cursor.past '\'', rest := cs }
  | c :: cs =>
    if cursor.column = 0 && isDocumentMark (c :: cs) then none
    else if isSpaceOrBreak c then singleFrom text (gap.add c) (cursor.past c) cs
    else singleFrom (c :: (gap.folded ++ text)) .empty (cursor.past c) cs

/-- The character of an escape by one letter. -/
def escapedLetter? : Char → Option Char
  | '0' => some (Char.ofNat 0)
  | 'a' => some (Char.ofNat 7)
  | 'b' => some (Char.ofNat 8)
  | 't' => some '\t'
  | '\t' => some '\t'
  | 'n' => some '\n'
  | 'v' => some (Char.ofNat 11)
  | 'f' => some (Char.ofNat 12)
  | 'r' => some '\r'
  | 'e' => some (Char.ofNat 27)
  | ' ' => some ' '
  | '"' => some '"'
  | '/' => some '/'
  | '\\' => some '\\'
  | 'N' => some (Char.ofNat 0x85)
  | '_' => some (Char.ofNat 0xA0)
  | 'L' => some (Char.ofNat 0x2028)
  | 'P' => some (Char.ofNat 0x2029)
  | _ => none

/-- Number of digits behind the letter of a numeric escape. -/
def escapeWidth? : Char → Option Nat
  | 'x' => some 2
  | 'u' => some 4
  | 'U' => some 8
  | _ => none

/-- The value of a digit in base sixteen. -/
def hexValue? (c : Char) : Option Nat :=
  let n := c.toNat
  if 48 ≤ n && n ≤ 57 then some (n - 48)
  else if 65 ≤ n && n ≤ 70 then some (n - 55)
  else if 97 ≤ n && n ≤ 102 then some (n - 87)
  else none

/-- Reads on between double quotes. In the middle of a numeric escape, `digits`
are still to come and `value` is what they are added to. -/
def doubleFrom (text : List Char) (gap : Gap) (escape : Option (Nat × Nat)) (cursor : Cursor) :
    List Char → Option Scanned
  | [] => none
  | c :: cs =>
    match escape with
    | some (digits, value) =>
      match hexValue? c with
      | none => none
      | some d =>
        let value := 16 * value + d
        if digits ≤ 1 then
          if value.isValidChar then
            doubleFrom (Char.ofNat value :: text) .empty none (cursor.past c) cs
          else none
        else doubleFrom text .empty (some (digits - 1, value)) (cursor.past c) cs
    | none =>
      if cursor.column = 0 && isDocumentMark (c :: cs) then none
      else if isSpaceOrBreak c then doubleFrom text (gap.add c) none (cursor.past c) cs
      else if c = '"' then
        some { text := (gap.folded ++ text).reverse, cursor := cursor.past c, rest := cs }
      else if c = '\\' then
        match cs with
        | [] => none
        | e :: rest =>
          let text := gap.folded ++ text
          let after := (cursor.past c).past e
          if isBreak e then doubleFrom text (.hidden []) none after rest
          else
            match escapedLetter? e, escapeWidth? e with
            | some letter, _ => doubleFrom (letter :: text) .empty none after rest
            | none, some width => doubleFrom text .empty (some (width, 0)) after rest
            | none, none => none
      else doubleFrom (c :: (gap.folded ++ text)) .empty none (cursor.past c) cs

/-! ## Blocks of lines -/

/-- What becomes of the breaks at the end of a block. -/
inductive Chomp where
  | strip
  | clip
  | keep
  deriving DecidableEq, Repr, Inhabited

/-- The head of a block: how its end is treated, and its indentation if given. -/
structure BlockHead where
  chomp : Chomp := .clip
  indent : Option Nat := none
  deriving Repr, Inhabited

/-- The sign that says how the end is treated. -/
def chompSign? : Char → Option Chomp
  | '-' => some .strip
  | '+' => some .keep
  | _ => none

/-- The digit that gives the indentation. -/
def indentDigit? (c : Char) : Option Nat :=
  if c.isDigit && c ≠ '0' then some (c.toNat - 48) else none

/-- Reads the sign and the digit, in either order, if they are there. -/
def readHead (cs : List Char) : BlockHead × Nat :=
  match cs with
  | a :: b :: _ =>
    match chompSign? a, indentDigit? b, indentDigit? a, chompSign? b with
    | some chomp, some indent, _, _ => ({ chomp, indent := some indent }, 2)
    | some chomp, none, _, _ => ({ chomp }, 1)
    | none, _, some indent, some chomp => ({ chomp, indent := some indent }, 2)
    | none, _, some indent, none => ({ indent := some indent }, 1)
    | none, _, none, _ => ({}, 0)
  | [a] =>
    match chompSign? a, indentDigit? a with
    | some chomp, _ => ({ chomp }, 1)
    | none, some indent => ({ indent := some indent }, 1)
    | none, none => ({}, 0)
  | [] => ({}, 0)

/-- Empty lines before the next line with content, up to the indentation: the
breaks, the last first, the greatest column seen, and the place behind them;
none if a tab stands in the indentation. -/
def skipBreaks (indent : Option Nat) (breaks : List Char) (deepest : Nat) (cursor : Cursor) :
    List Char → Option (List Char × Nat × Cursor × List Char)
  | [] => some (breaks, max deepest cursor.column, cursor, [])
  | c :: cs =>
    let inside := indent.all (cursor.column < ·)
    if c = ' ' && inside then skipBreaks indent breaks deepest (cursor.past c) cs
    else if c = '\t' && inside then none
    else if isBreak c then
      skipBreaks indent (c :: breaks) (max deepest cursor.column) (cursor.past c) cs
    else some (breaks, max deepest cursor.column, cursor, c :: cs)

/-- Reads the lines of a block. `text` is known, last character first; a break
may be `pending` behind the last line, which began with a space if `spaced`, and
the breaks of empty lines follow it, the last first. -/
def blockLines (literal : Bool) (chomp : Chomp) (indent : Nat) :
    Nat → List Char → (pending : Option Char) → (spaced : Bool) → (breaks : List Char) →
      Cursor → List Char → Option Scanned
  | 0, _, _, _, _, _, _ => none
  | fuel + 1, text, pending, spaced, breaks, cursor, cs =>
    if cs.isEmpty || cursor.column ≠ indent then
      let tail :=
        match chomp with
        | .strip => []
        | .clip => pending.toList
        | .keep => breaks ++ pending.toList
      some { text := (tail ++ text).reverse, cursor, rest := cs }
    else
      let isSpaced := cs.head?.any isSpace
      let joint :=
        if !literal && pending = some '\n' && !spaced && !isSpaced then
          if breaks.isEmpty then [' '] else []
        else pending.toList
      let line := cs.takeWhile (!isBreak ·)
      let text := line.reverse ++ (breaks ++ (joint ++ text))
      match cs.dropWhile (!isBreak ·) with
      | [] => blockLines literal chomp indent fuel text none isSpaced [] (cursor.pastAll line) []
      | c :: rest =>
        match skipBreaks (some indent) [] 0 ((cursor.pastAll line).past c) rest with
        | none => none
        | some (breaks, _, cursor, rest) =>
          blockLines literal chomp indent fuel text (some c) isSpaced breaks cursor rest

/-- Reads a block behind its mark, within lines indented by `outer`. -/
def readBlock (literal : Bool) (outer : Int) (cursor : Cursor) (cs : List Char) :
    Option Scanned :=
  let (head, width) := readHead cs
  let behind := cs.drop width
  let spaces := behind.takeWhile isSpace
  let rest := behind.dropWhile isSpace
  let comment := if rest.head? = some '#' then rest.takeWhile (!isBreak ·) else []
  let cursor := cursor.pastAll (cs.take width ++ spaces ++ comment)
  let start : Option (Cursor × List Char) :=
    match rest.drop comment.length with
    | [] => some (cursor, [])
    | c :: lines => if isBreak c then some (cursor.past c, lines) else none
  start.bind fun (cursor, lines) =>
    let given := head.indent.map fun n => (max outer 0).toNat + n
    (skipBreaks given [] 0 cursor lines).bind fun (breaks, deepest, cursor, rest) =>
      let indent := given.getD (max deepest (max (outer + 1).toNat 1))
      blockLines literal head.chomp indent (lines.length + 1) [] none false breaks cursor rest

end Parlance.Yaml
