import Workflow.Yaml.Token

/-!
# The text of scalars

Scalars as they stand in a text: plain, between quotes, or as a block of lines. Line breaks inside them are folded: a
single one becomes a space, and of several the first is dropped.
-/

namespace Workflow

namespace Yaml

/-- The gaps and breaks between two parts of a scalar: gaps within a line, or, once a line has ended, its break and the
breaks after it. Of the lists that grow, the last character comes first. -/
structure Spacing where
  gaps : List Char := []
  lineEnded : Bool := false
  firstBreak : List Char := []
  moreBreaks : List Char := []

namespace Spacing

/-- What the spacing contributes to the text between two parts. -/
def joined (s : Spacing) : List Char :=
  if s.lineEnded then
    if s.firstBreak == ['\n'] then (if s.moreBreaks.isEmpty then [' '] else s.moreBreaks.reverse)
    else s.firstBreak ++ s.moreBreaks.reverse
  else s.gaps.reverse

/-- The spacing with one more gap. After the end of a line gaps do not count. -/
def addGap (s : Spacing) (gap : Char) : Spacing :=
  if s.lineEnded then s else { s with gaps := gap :: s.gaps }

/-- The spacing with one more break. -/
def addBreak (s : Spacing) (text : List Char) : Spacing :=
  if s.lineEnded then { s with moreBreaks := text.reverse ++ s.moreBreaks }
  else { gaps := [], lineEnded := true, firstBreak := text, moreBreaks := [] }

end Spacing

/-- The spacing at a place between quotes, and the cursor after it. Each step goes over a character. -/
def quotedSpacing : Nat → Cursor → Spacing → Spacing × Cursor
  | 0, c, s => (s, c)
  | steps + 1, c, s =>
    match c.next with
    | none => (s, c)
    | some char =>
      if isGap char then quotedSpacing steps (c.skip 1) (s.addGap char)
      else if isBreak char then quotedSpacing steps c.skipBreak (s.addBreak c.breakText)
      else (s, c)

/-- The character that a letter stands for after a backslash. -/
def escapedChar? : Char → Option Char
  | '0' => some '\x00'
  | 'a' => some '\x07'
  | 'b' => some '\x08'
  | 't' => some '\t'
  | '\t' => some '\t'
  | 'n' => some '\n'
  | 'v' => some '\x0b'
  | 'f' => some '\x0c'
  | 'r' => some '\r'
  | 'e' => some '\x1b'
  | ' ' => some ' '
  | '\x22' => some '\x22'
  | '/' => some '/'
  | '\\' => some '\\'
  | 'N' => some (Char.ofNat 0x85)
  | '_' => some (Char.ofNat 0xA0)
  | 'L' => some (Char.ofNat 0x2028)
  | 'P' => some (Char.ofNat 0x2029)
  | _ => none

/-- How many digits follow a letter after a backslash that announces a character by its number. -/
def escapeDigits? : Char → Option Nat
  | 'x' => some 2
  | 'u' => some 4
  | 'U' => some 8
  | _ => none

/-- The number that a given count of hexadecimal digits spells, if they all are such digits. -/
def hexNumber? (digits : List Char) (count : Nat) : Option Nat := do
  guard (digits.length == count)
  digits.foldlM (fun n d => do return 16 * n + (← hexValue? d)) 0

/-- The character that is escaped at the cursor, which stands before the backslash. -/
def escapedCharacter (start : Mark) (c : Cursor) : Except Problem (Char × Cursor) :=
  let unknown := Except.error (c.problem .unknownEscape .escapeInQuotes start)
  match c.ahead 1 with
  | none => unknown
  | some letter =>
    match escapedChar? letter, escapeDigits? letter with
    | some char, _ => .ok (char, c.skip 2)
    | none, none => unknown
    | none, some count =>
      let c := c.skip 2
      match hexNumber? (c.rest.take count) count with
      | none => .error (c.problem .missingHexDigit .escapeInQuotes start)
      | some n =>
        if h : n.isValidChar then .ok (Char.ofNatAux n h, c.skip count)
        else .error (c.problem .badCodePoint .escapeInQuotes start)

/-- The text between quotes from a cursor on, its characters in reverse, and the cursor before the closing quote. Each
step goes over a character. -/
def quotedText (single : Bool) (start : Mark) : Nat → Cursor → List Char → Except Problem (List Char × Cursor)
  | 0, c, _ => .error (c.problem .endInQuotes .quotedScalar start)
  | steps + 1, c, text =>
    if c.atDocumentLine then .error (c.problem .documentInQuotes .quotedScalar start)
    else
      match c.next with
      | none => .error (c.problem .endInQuotes .quotedScalar start)
      | some char =>
        if single && char == '\x27' && c.ahead 1 == some '\x27' then
          quotedText single start steps (c.skip 2) ('\x27' :: text)
        else if char == (if single then '\x27' else '\x22') then .ok (text, c)
        else if !single && char == '\\' && (c.ahead 1).elim false isBreak then
          let (spacing, c) := quotedSpacing c.room (c.skip 1).skipBreak { lineEnded := true }
          quotedText single start steps c (spacing.joined.reverse ++ text)
        else if !single && char == '\\' then do
          let (char, c) ← escapedCharacter start c
          quotedText single start steps c (char :: text)
        else if isGap char || isBreak char then
          let (spacing, c) := quotedSpacing c.room c {}
          quotedText single start steps c (spacing.joined.reverse ++ text)
        else quotedText single start steps (c.skip 1) (char :: text)

/-- A scalar between quotes. -/
def quotedScalar (single : Bool) (c : Cursor) : Except Problem (String × Cursor) := do
  let (text, after) ← quotedText single c.mark c.room (c.skip 1) []
  return (String.ofList text.reverse, after.skip 1)

/-- Whether a plain scalar ends before the next character: at a colon that stands before a gap, and in a flow collection
at its commas and brackets. -/
def endsPlain (inFlow : Bool) (c : Cursor) : Bool :=
  match c.next with
  | none => true
  | some char =>
    (char == ':' && endsWord (c.ahead 1)) || (inFlow && [',', '[', ']', '\x7b', '\x7d'].contains char)

/-- Whether a colon stands where a flow collection has no use for it. -/
def strayColon (inFlow : Bool) (c : Cursor) : Bool :=
  inFlow && c.at? ':' &&
    match c.ahead 1 with
    | some char => [',', '?', '[', ']', '\x7b', '\x7d'].contains char
    | none => false

/-- A part of a plain scalar without gaps, its characters in reverse, and the cursor after it. Each step goes over a
character. -/
def plainPart (inFlow : Bool) (start : Mark) : Nat → Cursor → List Char → Except Problem (List Char × Cursor)
  | 0, c, text => .ok (text, c)
  | steps + 1, c, text =>
    match c.next with
    | none => .ok (text, c)
    | some char =>
      if isGap char || isBreak char then .ok (text, c)
      else if strayColon inFlow c then .error (c.problem .colonInFlow .plainScalar start)
      else if endsPlain inFlow c then .ok (text, c)
      else plainPart inFlow start steps (c.skip 1) (char :: text)

/-- The spacing after a part of a plain scalar, and the cursor after it. A tab may not stand for the indentation that the
scalar needs. Each step goes over a character. -/
def plainSpacing (indent : Int) (start : Mark) : Nat → Cursor → Spacing → Except Problem (Spacing × Cursor)
  | 0, c, s => .ok (s, c)
  | steps + 1, c, s =>
    match c.next with
    | none => .ok (s, c)
    | some char =>
      if isGap char then
        if s.lineEnded && decide ((c.mark.column : Int) < indent) && char == '\t' then
          .error (c.problem .tabInIndent .plainScalar start)
        else plainSpacing indent start steps (c.skip 1) (s.addGap char)
      else if isBreak char then plainSpacing indent start steps c.skipBreak (s.addBreak c.breakText)
      else .ok (s, c)

/-- A plain scalar as it was read: its characters in reverse, where it ends, the cursor after the spacing that follows
it, and whether that spacing ended a line. -/
structure PlainScalar where
  reversed : List Char
  stop : Mark
  cursor : Cursor
  lineEnded : Bool

/-- The parts of a plain scalar from a cursor on. `text` holds what was read before in reverse, `stop` where it ended,
and `spacing` what stands between it and the cursor. Each step but the last goes over a character. -/
def plainParts (inFlow : Bool) (indent : Int) (start : Mark) :
    Nat → Cursor → List Char → Mark → Spacing → Except Problem PlainScalar
  | 0, c, text, stop, spacing => .ok ⟨text, stop, c, spacing.lineEnded⟩
  | steps + 1, c, text, stop, spacing =>
    if c.atDocumentLine || c.at? '#' then .ok ⟨text, stop, c, spacing.lineEnded⟩
    else do
      let (part, after) ← plainPart inFlow start c.room c []
      let (text, stop, spacing) :=
        if part.isEmpty then (text, stop, spacing)
        else (part ++ spacing.joined.reverse ++ text, after.mark, ({} : Spacing))
      match after.next with
      | none => .ok ⟨text, stop, after, spacing.lineEnded⟩
      | some char =>
        if isGap char || isBreak char then do
          let (spacing, after) ← plainSpacing indent start after.room after spacing
          if !inFlow && decide ((after.mark.column : Int) < indent) then
            .ok ⟨text, stop, after, spacing.lineEnded⟩
          else plainParts inFlow indent start steps after text stop spacing
        else .ok ⟨text, stop, after, spacing.lineEnded⟩

/-- A plain scalar. In a block it has to be indented further than the block it stands in. -/
def plainScalar (inFlow : Bool) (blockIndent : Int) (c : Cursor) : Except Problem PlainScalar :=
  plainParts inFlow (blockIndent + 1) c.mark (c.room + 1) c [] c.mark {}

/-- What becomes of the breaks at the end of a block scalar. -/
inductive Chomping
  | clip
  | strip
  | keep
  deriving DecidableEq

/-- The chomping that a character announces. -/
def chomping? : Option Char → Option Chomping
  | some '-' => some .strip
  | some '+' => some .keep
  | _ => none

/-- The indentation that a digit announces, if a digit is next. -/
def indentDigit (start : Mark) (c : Cursor) : Except Problem (Option Nat × Cursor) :=
  match c.next with
  | some d =>
    if d == '0' then .error (c.problem .zeroIndent .blockScalar start)
    else if d.isDigit then .ok (some (d.toNat - '0'.toNat), c.skip 1)
    else .ok (none, c)
  | none => .ok (none, c)

/-- What the head of a block scalar announces, in either order: chomping and indentation. -/
def blockHead (start : Mark) (c : Cursor) : Except Problem (Chomping × Option Nat × Cursor) :=
  match chomping? c.next with
  | some chomping => do
    let (digit, c) ← indentDigit start (c.skip 1)
    return (chomping, digit, c)
  | none => do
    let (digit, c) ← indentDigit start c
    match digit, chomping? c.next with
    | some _, some chomping => return (chomping, digit, c.skip 1)
    | _, _ => return (.clip, digit, c)

/-- The empty lines of a block scalar: their breaks in reverse, where they end, the cursor after them and the
indentation there, and the deepest column that one of them reaches. -/
structure EmptyLines where
  breaks : List Char
  stop : Mark
  cursor : Cursor
  deepest : Nat

/-- The empty lines at a cursor. `indent` is the indentation of the block, none while it is not known; then the deepest
column that an empty line reaches is remembered. Each step goes over a character. -/
def emptyLines (indent : Option Int) (start : Mark) : Nat → Cursor → EmptyLines → Except Problem EmptyLines
  | 0, c, found => .ok { found with cursor := c }
  | steps + 1, c, found =>
    let inIndent := indent.elim true fun i => decide ((c.mark.column : Int) < i)
    if inIndent && c.at? ' ' then emptyLines indent start steps (c.skip 1) found
    else
      let found := { found with deepest := max found.deepest c.mark.column, cursor := c }
      if inIndent && c.at? '\t' then .error (c.problem .tabForIndent .blockScalar start)
      else if c.next.elim false isBreak then
        let after := c.skipBreak
        emptyLines indent start steps after { found with breaks := c.breakText.reverse ++ found.breaks, stop := after.mark }
      else .ok found

/-- The lines of a block scalar from a cursor on. `text` holds what was read before in reverse, `pending` the break that
ended the last line, `breaks` those of the empty lines after it in reverse, and `wasIndented` tells whether the last line began with
a gap. Each step goes over a line. -/
def blockLines (folded : Bool) (indent : Int) (start : Mark) :
    Nat → Cursor → List Char → List Char → List Char → Bool → Mark →
      Except Problem (List Char × List Char × List Char × Mark × Cursor)
  | 0, c, text, pending, breaks, _, stop => .ok (text, pending, breaks, stop, c)
  | steps + 1, c, text, pending, breaks, wasIndented, stop =>
    match c.next with
    | none => .ok (text, pending, breaks, stop, c)
    | some char =>
      if (c.mark.column : Int) != indent then .ok (text, pending, breaks, stop, c)
      else do
        let indented := isGap char
        let separator :=
          if folded && pending == ['\n'] && !wasIndented && !indented then (if breaks.isEmpty then [' '] else [])
          else pending
        let (line, after) := c.takeWhile (!isBreak ·)
        let text := line.reverse ++ breaks ++ separator.reverse ++ text
        let next := after.skipBreak
        let found ← emptyLines (some indent) start (next.room + 1) next ⟨[], next.mark, next, 0⟩
        blockLines folded indent start steps found.cursor text after.breakText found.breaks indented found.stop

/-- A block scalar as it was read. -/
structure BlockScalar where
  text : String
  stop : Mark
  cursor : Cursor

/-- A block scalar, folded or not, in a block of a given indentation. Without an announced indentation it is that of the
first line with text, and at least one more than that of the block around it. -/
def blockScalar (folded : Bool) (blockIndent : Int) (c : Cursor) : Except Problem BlockScalar := do
  let start := c.mark
  let (chomping, digit, c) ← blockHead start (c.skip 1)
  let c := c.skipGaps.skipComment
  if !endsLine c.next then .error (c.problem .missingHeaderEnd .blockScalar start)
  else do
    let c := c.skipBreak
    let announced := digit.map fun (d : Nat) => if 0 ≤ blockIndent then blockIndent + d else (d : Int)
    let found ← emptyLines announced start (c.room + 1) c ⟨[], c.mark, c, 0⟩
    let indent := announced.getD (max (found.deepest : Int) (max (blockIndent + 1) 1))
    let (text, pending, breaks, stop, c) ←
      blockLines folded indent start (c.room + 1) found.cursor [] [] found.breaks false found.stop
    let ending :=
      match chomping with
      | .strip => []
      | .clip => pending
      | .keep => pending ++ breaks.reverse
    return ⟨String.ofList (text.reverse ++ ending), stop, c⟩

end Yaml

end Workflow
