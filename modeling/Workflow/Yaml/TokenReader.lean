import Workflow.Yaml.Naming
import Workflow.Yaml.ScalarText

/-!
# Reading tokens

Cuts document text into tokens. Two things make this more than a walk over the characters. Indentation opens and closes
blocks, and the key of a mapping is recognised only by the colon behind it, so a token that may begin a key is held back
until it is known whether it does. What is read is therefore the list of tokens that can be given out, in order, and the
problem that ends it, if there is one.
-/

namespace Workflow

namespace Yaml

/-- The offset of the first unreadable character, and how many characters can be read before it is noticed. A text is
taken in by stretches of octets, and a stretch with an unreadable character is refused as a whole. -/
structure Unreadable where
  offset : Nat
  limit : Nat

/-- How many octets a stretch holds. -/
def stretchSize : Nat := 16384

/-- The first unreadable character of a text. `offset` and `index` count what lies before the text, and `stretch` and
`limit` say where the current stretch began; a character that does not fit begins the next one. -/
def findUnreadable (offset index stretch limit : Nat) : List Char → Option Unreadable
  | [] => none
  | c :: rest =>
    let size := c.utf8Size
    let fits := offset + size ≤ stretch + stretchSize
    let stretch := if fits then stretch else offset
    let limit := if fits then limit else index
    if isReadable c then findUnreadable (offset + size) (index + 1) stretch limit rest else some ⟨offset, limit⟩

/-- A place where a key may have begun: in how many flow collections it stands, whether it has to turn out to be a key,
how many tokens lie before it, and where it is. -/
structure SimpleKey where
  depth : Nat
  required : Bool
  number : Nat
  mark : Mark

/-- The state of reading tokens: where the text goes on, the tokens that wait to be given out and how many were given
before, in how many flow collections the text goes on, the places where a key may have begun, at most one for each flow
collection and the innermost first, and the indentation of the open blocks. -/
structure TokenReader where
  cursor : Cursor
  queue : List Token
  given : Nat
  depth : Nat
  keys : List SimpleKey
  indent : Int
  outerIndents : List Int
  keyAllowed : Bool

namespace TokenReader

/-- Before the first character. -/
def ofText (chars : List Char) : TokenReader where
  cursor := .ofText chars
  queue := [⟨.streamStart, .start, .start⟩]
  given := 0
  depth := 0
  keys := []
  indent := -1
  outerIndents := []
  keyAllowed := true

/-- Whether a flow collection is open. -/
def inFlow (r : TokenReader) : Bool := r.depth != 0

/-- The position of the next character. -/
def mark (r : TokenReader) : Mark := r.cursor.mark

/-- The column of the next character. -/
def column (r : TokenReader) : Int := r.mark.column

/-- A problem at the next character that no activity explains. -/
def fail {α : Type} (r : TokenReader) (fault : Fault) : Except Problem α :=
  .error { fault := fault, mark := r.mark }

/-- The problem of a key without its colon. -/
def keyProblem (r : TokenReader) (key : SimpleKey) : Problem :=
  r.cursor.problem .missingColon .simpleKey key.mark

/-- The reader with a token at the end of the queue. -/
def push (r : TokenReader) (kind : TokenKind) (start stop : Mark) : TokenReader :=
  { r with queue := r.queue ++ [⟨kind, start, stop⟩] }

/-- The reader with a token put into the queue before the token of a given number. -/
def insert (r : TokenReader) (number : Nat) (kind : TokenKind) (mark : Mark) : TokenReader :=
  let k := number - r.given
  { r with queue := r.queue.take k ++ ⟨kind, mark, mark⟩ :: r.queue.drop k }

/-- The reader with the given character as a token of its own. -/
def pushMark (r : TokenReader) (kind : TokenKind) (count : Nat) : TokenReader :=
  let after := r.cursor.skip count
  { r.push kind r.mark after.mark with cursor := after }

/-- How many octets a key takes at most. -/
def longestKey : Nat := 1024

/-- Whether what began at a place can no longer be a key, which stays on its line and is not too long. -/
def isStale (r : TokenReader) (key : SimpleKey) : Bool :=
  decide (key.mark.line < r.mark.line) || decide (key.mark.offset + longestKey < r.mark.offset)

/-- Gives up the keys that can no longer be ones. -/
def dropStale (r : TokenReader) : Except Problem TokenReader :=
  match r.keys.find? fun key => r.isStale key && key.required with
  | some key => .error (r.keyProblem key)
  | none => .ok { r with keys := r.keys.filter (!r.isStale ·) }

/-- Whether the first token of the queue may yet turn out to begin a key. -/
def awaitsKey (r : TokenReader) : Bool :=
  r.keys.any (·.number == r.given)

/-- The place in the innermost collection where a key may have begun, with the places around it. -/
def currentKey? (r : TokenReader) : Option (SimpleKey × List SimpleKey) :=
  match r.keys with
  | key :: rest => if key.depth = r.depth then some (key, rest) else none
  | [] => none

/-- Gives up the key of the innermost collection. -/
def removeKey (r : TokenReader) : Except Problem TokenReader :=
  match r.currentKey? with
  | some (key, rest) => if key.required then .error (r.keyProblem key) else .ok { r with keys := rest }
  | none => .ok r

/-- Remembers that a key may begin here. In a block it has to be one if it stands at the indentation of the block. -/
def saveKey (r : TokenReader) : Except Problem TokenReader :=
  if r.keyAllowed then do
    let key : SimpleKey := ⟨r.depth, !r.inFlow && r.indent == r.column, r.given + r.queue.length, r.mark⟩
    let r ← r.removeKey
    return { r with keys := key :: r.keys }
  else return r

/-- Opens a block at a column, unless one as deep is open or a flow collection is. -/
def openBlock (r : TokenReader) (column : Int) (add : TokenReader → TokenReader) : TokenReader :=
  if r.inFlow then r
  else if r.indent < column then
    add { r with indent := column, outerIndents := r.indent :: r.outerIndents }
  else r

/-- Closes the blocks that are deeper than a column, outermost last. The list holds the indentations around the current
block. -/
def closeBlocksFrom (column : Int) : List Int → TokenReader → TokenReader
  | [], r => r
  | outer :: rest, r =>
    if column < r.indent then
      closeBlocksFrom column rest { r.push .blockEnd r.mark r.mark with indent := outer, outerIndents := rest }
    else r

/-- Closes the blocks that are deeper than a column. -/
def closeBlocks (r : TokenReader) (column : Int) : TokenReader :=
  if r.inFlow then r else closeBlocksFrom column r.outerIndents r

/-- Past everything between two tokens: gaps, comments and breaks, and a mark of byte order that begins a line. A tab
counts as a gap where no key may begin. After a break a key may begin again. -/
def skipBetween (inFlow : Bool) : Nat → Bool → Cursor → Bool × Cursor
  | 0, allowed, c => (allowed, c)
  | steps + 1, allowed, c =>
    match c.next with
    | none => (allowed, c)
    | some char =>
      if char.toNat == 0xFEFF && c.mark.column == 0 then skipBetween inFlow steps allowed (c.skip 1)
      else if char == ' ' || (char == '\t' && (inFlow || !allowed)) then skipBetween inFlow steps allowed (c.skip 1)
      else if char == '#' then skipBetween inFlow steps allowed c.skipComment
      else if isBreak char then skipBetween inFlow steps (allowed || !inFlow) c.skipBreak
      else (allowed, c)

/-- The end of the text. An unfinished line counts as a line. -/
def readEnd (r : TokenReader) : Except Problem TokenReader := do
  let mark := if r.mark.column == 0 then r.mark else { r.mark with line := r.mark.line + 1, column := 0 }
  let r := { r with cursor := { r.cursor with mark := mark } }
  let r ← (r.closeBlocks (-1)).removeKey
  return { r with keyAllowed := false }.push .streamEnd r.mark r.mark

/-- A directive. -/
def readDirective (r : TokenReader) : Except Problem TokenReader := do
  let r ← (r.closeBlocks (-1)).removeKey
  let (kind, stop, after) ← directiveToken r.cursor
  return { r.push kind r.mark stop.mark with keyAllowed := false, cursor := after }

/-- A line that begins or ends a document. -/
def readDocumentLine (r : TokenReader) (kind : TokenKind) : Except Problem TokenReader := do
  let r ← (r.closeBlocks (-1)).removeKey
  return { r with keyAllowed := false }.pushMark kind 3

/-- The beginning of a flow collection, which may be a key as a whole. -/
def readFlowStart (r : TokenReader) (kind : TokenKind) : Except Problem TokenReader := do
  let r ← r.saveKey
  return { r with depth := r.depth + 1, keyAllowed := true }.pushMark kind 1

/-- The end of a flow collection. -/
def readFlowEnd (r : TokenReader) (kind : TokenKind) : Except Problem TokenReader := do
  let r ← r.removeKey
  return { r with depth := r.depth - 1, keyAllowed := false }.pushMark kind 1

/-- A comma in a flow collection. -/
def readFlowEntry (r : TokenReader) : Except Problem TokenReader := do
  let r ← r.removeKey
  return { r with keyAllowed := true }.pushMark .flowEntry 1

/-- Opens a block of some kind here, where blocks may begin. -/
def openHere (r : TokenReader) (kind : TokenKind) (fault : Fault) : Except Problem TokenReader :=
  if r.inFlow then .ok r
  else if r.keyAllowed then .ok (r.openBlock r.column fun r => r.push kind r.mark r.mark)
  else r.fail fault

/-- The dash before an item of a sequence. -/
def readBlockEntry (r : TokenReader) : Except Problem TokenReader := do
  let r ← (← r.openHere .blockSequenceStart .sequenceNotAllowed).removeKey
  return { r with keyAllowed := true }.pushMark .blockEntry 1

/-- The question mark before a key. -/
def readKey (r : TokenReader) : Except Problem TokenReader := do
  let r ← (← r.openHere .blockMappingStart .keyNotAllowed).removeKey
  return { r with keyAllowed := !r.inFlow }.pushMark .key 1

/-- The colon before a value. What began at the place of a possible key was one: its token, and that of the block it
opens, go before it. -/
def readValue (r : TokenReader) : Except Problem TokenReader := do
  let r ←
    match r.currentKey? with
    | some (key, rest) =>
      let r := r.insert key.number .key key.mark
      let r := r.openBlock key.mark.column fun r => r.insert key.number .blockMappingStart key.mark
      pure { r with keys := rest, keyAllowed := false }
    | none => do
      let r ← r.openHere .blockMappingStart .valueNotAllowed
      pure { r with keyAllowed := !r.inFlow }
  return r.pushMark .value 1

/-- An anchor or an alias, either of which may begin a key. -/
def readAnchor (r : TokenReader) (activity : Activity) (kind : String → TokenKind) : Except Problem TokenReader := do
  let r ← r.saveKey
  let (name, after) ← anchorName activity r.cursor
  return { r.push (kind name) r.mark after.mark with keyAllowed := false, cursor := after }

/-- A tag, which may begin a key. -/
def readTag (r : TokenReader) : Except Problem TokenReader := do
  let r ← r.saveKey
  let (kind, after) ← tagToken r.inFlow r.cursor
  return { r.push kind r.mark after.mark with keyAllowed := false, cursor := after }

/-- A block scalar. -/
def readBlockScalar (r : TokenReader) (folded : Bool) : Except Problem TokenReader := do
  let r ← r.removeKey
  let scalar ← blockScalar folded r.indent r.cursor
  let style := if folded then ScalarStyle.folded else .literal
  return { r.push (.scalar scalar.text style) r.mark scalar.stop with keyAllowed := true, cursor := scalar.cursor }

/-- A scalar between quotes, which may be a key. -/
def readQuotedScalar (r : TokenReader) (single : Bool) : Except Problem TokenReader := do
  let r ← r.saveKey
  let (text, after) ← quotedScalar single r.cursor
  let style := if single then ScalarStyle.singleQuoted else .doubleQuoted
  return { r.push (.scalar text style) r.mark after.mark with keyAllowed := false, cursor := after }

/-- A plain scalar, which may be a key. After it a key may begin only on a new line. -/
def readPlainScalar (r : TokenReader) : Except Problem TokenReader := do
  let r ← r.saveKey
  let scalar ← plainScalar r.inFlow r.indent r.cursor
  return { r.push (.scalar (String.ofList scalar.reversed.reverse) .plain) r.mark scalar.stop with
    keyAllowed := scalar.lineEnded
    cursor := scalar.cursor }

/-- The characters that cannot begin a plain scalar, those aside that do so only before a gap. -/
def indicators : List Char :=
  [',', '[', ']', '\x7b', '\x7d', '#', '&', '*', '!', '|', '>', '\x27', '\x22', '%', '@', '\x60']

/-- Whether a plain scalar may begin with a character that another follows. -/
def beginsPlain (inFlow : Bool) (char : Char) (following : Option Char) : Bool :=
  if isGap char || isBreak char then false
  else if char == '-' then !(following.elim false isGap)
  else if char == '?' || char == ':' then !inFlow && !endsWord following
  else !indicators.contains char

/-- The token that the next character begins. -/
def readToken (r : TokenReader) : Except Problem TokenReader :=
  match r.cursor.next with
  | none => r.readEnd
  | some char =>
    let following := r.cursor.ahead 1
    let alone := endsWord following
    if r.mark.column == 0 && char == '%' then r.readDirective
    else if r.cursor.atDocumentLine then r.readDocumentLine (if char == '-' then .documentStart else .documentEnd)
    else if char == '[' then r.readFlowStart .flowSequenceStart
    else if char == '\x7b' then r.readFlowStart .flowMappingStart
    else if char == ']' then r.readFlowEnd .flowSequenceEnd
    else if char == '\x7d' then r.readFlowEnd .flowMappingEnd
    else if char == ',' then r.readFlowEntry
    else if char == '-' && alone then r.readBlockEntry
    else if char == '?' && (r.inFlow || alone) then r.readKey
    else if char == ':' && (r.inFlow || alone) then r.readValue
    else if char == '*' then r.readAnchor .reference .reference
    else if char == '&' then r.readAnchor .anchor .anchor
    else if char == '!' then r.readTag
    else if char == '|' && !r.inFlow then r.readBlockScalar false
    else if char == '>' && !r.inFlow then r.readBlockScalar true
    else if char == '\x27' then r.readQuotedScalar true
    else if char == '\x22' then r.readQuotedScalar false
    else if beginsPlain r.inFlow char following then r.readPlainScalar
    else .error (r.cursor.problem .noToken .nextToken r.mark)

/-- The problem of an unreadable character, if reading up to a position notices one. -/
def noticed (unreadable : Option Unreadable) (index : Nat) : Option Problem :=
  match unreadable with
  | none => none
  | some u =>
    if u.limit < index then some { fault := .controlCharacter, mark := .start, offset := u.offset } else none

/-- Reads on up to the end of the next token. Four characters are looked at before it is known what token begins. -/
def advance (unreadable : Option Unreadable) (r : TokenReader) : Except Problem TokenReader :=
  let (allowed, cursor) := skipBetween r.inFlow (r.cursor.room + 1) r.keyAllowed r.cursor
  let r := { r with keyAllowed := allowed, cursor := cursor }
  match noticed unreadable (r.mark.index + 1) with
  | some p => .error p
  | none => do
    let r ← r.dropStale
    match noticed unreadable (r.mark.index + 4) with
    | some p => .error p
    | none =>
      match (r.closeBlocks r.column).readToken with
      | .ok after =>
        match noticed unreadable (after.mark.index + 1) with
        | some p => .error p
        | none => .ok after
      | .error p => .error ((noticed unreadable (p.mark.index + 1)).getD p)

/-- Gives out tokens, reading on where the next one is not certain yet. `given` holds those given before, the last one
first. -/
def run (unreadable : Option Unreadable) : Nat → TokenReader → List Token → List Token × Option Problem
  | 0, _, given => (given.reverse, none)
  | steps + 1, r, given =>
    match r.queue with
    | [] =>
      match r.advance unreadable with
      | .error p => (given.reverse, some p)
      | .ok r => run unreadable steps r given
    | t :: rest =>
      match r.dropStale with
      | .error p => (given.reverse, some p)
      | .ok r =>
        if r.awaitsKey then
          match r.advance unreadable with
          | .error p => (given.reverse, some p)
          | .ok r => run unreadable steps r given
        else if t.kind = .streamEnd then ((t :: given).reverse, none)
        else run unreadable steps { r with queue := rest, given := r.given + 1 } (t :: given)

end TokenReader

/-- The tokens of a text, and the problem that ends them. A token is read from at least one character, and at most four
more tokens come with it, so the steps suffice. -/
def tokens (text : String) : List Token × Option Problem :=
  let chars := text.toList
  (TokenReader.ofText chars).run (findUnreadable 0 0 0 0 chars) (8 * chars.length + 32) []

end Yaml

end Workflow
