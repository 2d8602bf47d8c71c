import Workflow.Yaml.Token

/-!
# Anchors, tags and directives

The tokens that name something: anchors and aliases, tags, and the directives that stand before a document.
-/

namespace Workflow

namespace Yaml

/-- The name of an anchor, or of an alias to one. A name ends at a gap, at the end of a line, or before a mark of the
structure. -/
def anchorName (activity : Activity) (c : Cursor) : Except Problem (String × Cursor) :=
  let start := c.mark
  let (name, c) := (c.skip 1).takeWhile isNameChar
  let ends :=
    endsWord c.next ||
      match c.next with
      | some char => ['?', ':', ',', ']', '\x7d', '%', '@', '\x60'].contains char
      | none => true
  if name.isEmpty || !ends then .error (c.problem .badAnchorName activity start)
  else .ok (String.ofList name, c)

/-- The characters of a tag. Between angle brackets three more are allowed. -/
def isTagChar (verbatim : Bool) (c : Char) : Bool :=
  isNameChar c || [';', '/', '?', ':', '@', '&', '=', '+', '$', '.', '!', '~', '*', '\x27', '(', ')', '%'].contains c ||
    (verbatim && [',', '[', ']'].contains c)

/-- The octet that is written in hexadecimal at the cursor. -/
def octetAt? (c : Cursor) : Option Nat := do
  guard (c.at? '%')
  let high ← (← c.ahead 1 |> Option.map hexValue?)
  let low ← (← c.ahead 2 |> Option.map hexValue?)
  return 16 * high + low

/-- How many octets spell the character that an octet begins; none for an octet that begins no character. -/
def octetsOfCharacter (leading : Nat) : Nat :=
  if leading < 0x80 then 1
  else if 0xC0 ≤ leading && leading < 0xE0 then 2
  else if 0xE0 ≤ leading && leading < 0xF0 then 3
  else if 0xF0 ≤ leading && leading < 0xF8 then 4
  else 0

/-- The further octets of a character. -/
def trailingOctets (activity : Activity) (start : Mark) : Nat → Cursor → Except Problem (Octets × Cursor)
  | 0, c => .ok ([], c)
  | count + 1, c =>
    match octetAt? c with
    | none => .error (c.problem .missingOctet activity start)
    | some octet =>
      if 0x80 ≤ octet && octet < 0xC0 then do
        let (octets, c) ← trailingOctets activity start count (c.skip 3)
        return (octet.toUInt8 :: octets, c)
      else .error (c.problem .badTrailingOctet activity start)

/-- The octets of an escaped character of a tag. -/
def escapedOctets (activity : Activity) (start : Mark) (c : Cursor) : Except Problem (Octets × Cursor) :=
  match octetAt? c with
  | none => .error (c.problem .missingOctet activity start)
  | some octet =>
    match octetsOfCharacter octet with
    | 0 => .error (c.problem .badLeadingOctet activity start)
    | width + 1 => do
      let (octets, c) ← trailingOctets activity start width (c.skip 3)
      return (octet.toUInt8 :: octets, c)

/-- The octets of a tag up to the first character that cannot stand in one. Each step goes over at least one character,
so a step for each character left is enough. -/
def tagOctets (verbatim : Bool) (activity : Activity) (start : Mark) :
    Nat → Cursor → Except Problem (Octets × Cursor)
  | 0, c => .ok ([], c)
  | steps + 1, c =>
    match c.next with
    | none => .ok ([], c)
    | some char =>
      if char == '%' then do
        let (octets, c) ← escapedOctets activity start c
        let (more, c) ← tagOctets verbatim activity start steps c
        return (octets ++ more, c)
      else if isTagChar verbatim char then do
        let (more, c) ← tagOctets verbatim activity start steps (c.skip 1)
        return (octetsOf [char] ++ more, c)
      else .ok ([], c)

/-- The octets of a tag, of which there has to be at least one. -/
def someTagOctets (verbatim : Bool) (activity : Activity) (start : Mark) (c : Cursor) :
    Except Problem (Octets × Cursor) := do
  let (octets, after) ← tagOctets verbatim activity start c.room c
  if octets.isEmpty then .error (after.problem .missingTagText activity start) else return (octets, after)

/-- The handle that begins a tag: `!`, `!!`, or `!name!`. A name without the second mark is given back as well, unless a
directive is being read. -/
def tagHandle (inDirective : Bool) (start : Mark) (c : Cursor) : Except Problem (List Char × Cursor) :=
  if !c.at? '!' then
    .error (c.problem .missingHandleMark (if inDirective then .tagOfDirective else .tag) start)
  else
    let (name, c) := (c.skip 1).takeWhile isNameChar
    if c.at? '!' then .ok (('!' :: name) ++ ['!'], c.skip 1)
    else if inDirective && !name.isEmpty then .error (c.problem .missingHandleMark .handleOfDirective start)
    else .ok ('!' :: name, c)

/-- What a tag consists of, a zero octet ending it. -/
def tagKind (handle : List Char) (suffix : Octets) : TokenKind :=
  .tag (String.ofList handle) (suffix.takeWhile (· != 0))

/-- A tag, whose handle is empty if it is written in full. -/
def tagToken (inFlow : Bool) (c : Cursor) : Except Problem (TokenKind × Cursor) := do
  let start := c.mark
  let (kind, c) ←
    if c.ahead 1 == some '<' then do
      let (suffix, c) ← someTagOctets true .tagText start (c.skip 2)
      if c.at? '>' then pure (tagKind [] suffix, c.skip 1) else .error (c.problem .missingTagEnd .tag start)
    else do
      let (handle, c) ← tagHandle false start c
      if 1 < handle.length && handle.getLast? == some '!' then do
        let (suffix, c) ← someTagOctets false .tagText start c
        pure (tagKind handle suffix, c)
      else do
        let (more, c) ← tagOctets false .tagText start c.room c
        let suffix := (octetsOf (handle.drop 1) ++ more).takeWhile (· != 0)
        pure (if suffix.isEmpty then tagKind [] (octetsOf ['!']) else tagKind ['!'] suffix, c)
  if endsWord c.next || (inFlow && c.at? ',') then return (kind, c)
  else .error (c.problem .missingBlankOrBreak .tag start)

/-- A number of a version, of at most nine digits. -/
def versionNumber (start : Mark) (c : Cursor) : Except Problem (Nat × Cursor) :=
  let (digits, after) := c.takeWhile Char.isDigit
  if 9 < digits.length then .error ((c.skip 9).problem .longVersion .versionDirective start)
  else if digits.isEmpty then .error (c.problem .missingVersion .versionDirective start)
  else .ok (digits.foldl (fun n d => 10 * n + (d.toNat - '0'.toNat)) 0, after)

/-- The version that a document declares. -/
def versionToken (start : Mark) (c : Cursor) : Except Problem (TokenKind × Cursor) := do
  let (major, c) ← versionNumber start c.skipGaps
  if !c.at? '.' then .error (c.problem .missingVersionPoint .versionDirective start)
  else do
    let (minor, c) ← versionNumber start (c.skip 1)
    return (.version major minor, c)

/-- The shorthand for tags that a document declares. -/
def shorthandToken (start : Mark) (c : Cursor) : Except Problem (TokenKind × Cursor) := do
  let (handle, c) ← tagHandle true start c.skipGaps
  if !(c.next.elim false isGap) then .error (c.problem .missingBlank .tagDirective start)
  else do
    let (expansion, c) ← someTagOctets true .prefixOfDirective start c.skipGaps
    if endsWord c.next then return (.tagShorthand (String.ofList handle) (expansion.takeWhile (· != 0)), c)
    else .error (c.problem .missingBlankOrBreak .tagDirective start)

/-- A directive, with the cursor after what it says and the cursor after its line. -/
def directiveToken (c : Cursor) : Except Problem (TokenKind × Cursor × Cursor) := do
  let start := c.mark
  let (name, c) := (c.skip 1).takeWhile isNameChar
  if name.isEmpty then .error (c.problem .missingDirectiveName .directive start)
  else if !endsWord c.next then .error (c.problem .badDirectiveName .directive start)
  else do
    let (kind, c) ←
      if name == ['Y', 'A', 'M', 'L'] then versionToken start c
      else if name == ['T', 'A', 'G'] then shorthandToken start c
      else .error (c.problem .unknownDirective .directive start)
    let ending := c.skipGaps.skipComment
    if endsLine ending.next then return (kind, c, ending.skipBreak)
    else .error (ending.problem .missingDirectiveEnd .directive start)

end Yaml

end Workflow
