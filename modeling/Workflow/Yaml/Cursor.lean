import Workflow.Yaml.Problem

/-!
# Going through document text

The characters that matter to the structure of a text, and a cursor that knows the rest of the text and its own
position. Five kinds of line break are known; a carriage return and a line feed together are one.
-/

namespace Workflow

namespace Yaml

/-- The characters that may stand in a text. -/
def isReadable (c : Char) : Bool :=
  let n := c.toNat
  n == 0x09 || n == 0x0A || n == 0x0D || (0x20 ≤ n && n ≤ 0x7E) || n == 0x85 || (0xA0 ≤ n && n ≤ 0xD7FF) ||
    (0xE000 ≤ n && n ≤ 0xFFFD) || 0x10000 ≤ n

/-- The characters that end a line. -/
def isBreak (c : Char) : Bool :=
  c == '\n' || c == '\r' || c.toNat == 0x85 || c.toNat == 0x2028 || c.toNat == 0x2029

/-- The characters that part words within a line. -/
def isGap (c : Char) : Bool := c == ' ' || c == '\t'

/-- The characters of names: letters, digits, `_` and `-` of the basic alphabet. -/
def isNameChar (c : Char) : Bool := c.isAlphanum || c == '_' || c == '-'

/-- A break, or the end of the text. -/
def endsLine : Option Char → Bool
  | none => true
  | some c => isBreak c

/-- A gap, a break, or the end of the text. -/
def endsWord : Option Char → Bool
  | none => true
  | some c => isGap c || isBreak c

/-- The value of a hexadecimal digit. -/
def hexValue? (c : Char) : Option Nat :=
  if c.isDigit then some (c.toNat - '0'.toNat)
  else if 'a' ≤ c && c ≤ 'f' then some (c.toNat - 'a'.toNat + 10)
  else if 'A' ≤ c && c ≤ 'F' then some (c.toNat - 'A'.toNat + 10)
  else none

/-- A place in a text: what follows it, and its position. `room` is at least the number of characters that follow; it
bounds the steps of whatever goes through them. -/
structure Cursor where
  rest : List Char
  mark : Mark
  room : Nat

namespace Cursor

/-- The beginning of a text. -/
def ofText (chars : List Char) : Cursor := ⟨chars, .start, chars.length⟩

/-- The next character. -/
def next (c : Cursor) : Option Char := c.rest.head?

/-- The character that stands `n` places after the next one. -/
def ahead (c : Cursor) (n : Nat) : Option Char := c.rest[n]?

/-- Whether the next character is a given one. -/
def at? (c : Cursor) (char : Char) : Bool := c.next == some char

/-- Whether the text goes on with given characters. -/
def startsWith (c : Cursor) (chars : List Char) : Bool := chars.isPrefixOf c.rest

/-- Past characters, none of which ends a line; `rest` is what follows them. -/
def pass (c : Cursor) (chars rest : List Char) : Cursor :=
  let count := chars.length
  { c with
    rest := rest
    mark :=
      { index := c.mark.index + count
        offset := chars.foldl (fun n char => n + char.utf8Size) c.mark.offset
        line := c.mark.line
        column := c.mark.column + count } }

/-- Past some characters, none of which ends a line. -/
def skip (c : Cursor) (n : Nat) : Cursor := c.pass (c.rest.take n) (c.rest.drop n)

/-- Past a break of so many characters and octets. -/
def newLine (c : Cursor) (rest : List Char) (characters octets : Nat) : Cursor :=
  { c with rest := rest, mark := ⟨c.mark.index + characters, c.mark.offset + octets, c.mark.line + 1, 0⟩ }

/-- Past a line break, if one is next. -/
def skipBreak (c : Cursor) : Cursor :=
  match c.rest with
  | '\r' :: '\n' :: rest => c.newLine rest 2 2
  | char :: rest => if isBreak char then c.newLine rest 1 char.utf8Size else c
  | [] => c

/-- The text of the line break that is next: a line feed for all but the two separators of Unicode, which stay as they
are. -/
def breakText (c : Cursor) : List Char :=
  match c.next with
  | some char =>
    if char.toNat == 0x2028 || char.toNat == 0x2029 then [char] else if isBreak char then ['\n'] else []
  | none => []

/-- The characters up to the first that fails a test, none of which ends a line, and the cursor after them. -/
def takeWhile (c : Cursor) (p : Char → Bool) : List Char × Cursor :=
  let chars := c.rest.takeWhile p
  (chars, c.pass chars (c.rest.dropWhile p))

/-- Past all characters up to the first that fails a test, none of which ends a line. -/
def skipWhile (c : Cursor) (p : Char → Bool) : Cursor := (c.takeWhile p).2

/-- Past the gaps. -/
def skipGaps (c : Cursor) : Cursor := c.skipWhile isGap

/-- Past a comment, if one is next. -/
def skipComment (c : Cursor) : Cursor :=
  if c.at? '#' then c.skipWhile (!isBreak ·) else c

/-- Whether a line that separates documents begins here: three dashes or three points alone. -/
def atDocumentLine (c : Cursor) : Bool :=
  c.mark.column == 0 && (c.startsWith ['-', '-', '-'] || c.startsWith ['.', '.', '.']) && endsWord (c.ahead 3)

/-- A problem at this place. -/
def problem (c : Cursor) (fault : Fault) (activity : Activity) (since : Mark) : Problem :=
  { fault := fault, mark := c.mark, activity := some (activity, since) }

end Cursor

end Yaml

end Workflow
