import Workflow.Text.Quoted

/-!
# Problems in document text

Everything that can be wrong with document text, where it was noticed, and how it is said. A problem may name the
construct that was being read when it was noticed, with the place where that construct began.
-/

namespace Workflow

namespace Yaml

/-- A position in a text: how many characters and how many octets lie before it, and its line and column, which count
from zero. -/
structure Mark where
  index : Nat
  offset : Nat
  line : Nat
  column : Nat
  deriving DecidableEq, Inhabited

namespace Mark

/-- The position before the first character. -/
def start : Mark := ⟨0, 0, 0, 0⟩

/-- Whether the mark stands at the very beginning of a text. Such a position is never written out. -/
def isOrigin (m : Mark) : Bool := m.line == 0 && m.column == 0

/-- The mark for a reader, who counts from one. -/
def text (m : Mark) : String :=
  "line " ++ toString (m.line + 1) ++ " column " ++ toString (m.column + 1)

/-- The mark after a preposition, or nothing at the very beginning of a text. -/
def atText (m : Mark) : String := if m.isOrigin then "" else " at " ++ m.text

end Mark

/-- What is wrong with the characters or the structure of a text. -/
inductive Fault
  | controlCharacter
  | missingColon
  | sequenceNotAllowed
  | keyNotAllowed
  | valueNotAllowed
  | noToken
  | missingDirectiveName
  | badDirectiveName
  | unknownDirective
  | missingDirectiveEnd
  | missingVersionPoint
  | longVersion
  | missingVersion
  | missingBlank
  | missingBlankOrBreak
  | missingHandleMark
  | missingTagEnd
  | missingTagText
  | missingOctet
  | badLeadingOctet
  | badTrailingOctet
  | badAnchorName
  | zeroIndent
  | missingHeaderEnd
  | tabForIndent
  | documentInQuotes
  | endInQuotes
  | unknownEscape
  | missingHexDigit
  | badCodePoint
  | colonInFlow
  | tabInIndent
  | missingDocumentStart
  | duplicateVersion
  | incompatibleVersion
  | duplicateTagDirective
  | undefinedHandle
  | missingContent
  | missingDash
  | missingKey
  | missingCommaOrBracket
  | missingCommaOrBrace
  deriving DecidableEq

/-- The wording of a fault. -/
def Fault.text : Fault → String
  | controlCharacter => "control characters are not allowed"
  | missingColon => "could not find expected ':'"
  | sequenceNotAllowed => "block sequence entries are not allowed in this context"
  | keyNotAllowed => "mapping keys are not allowed in this context"
  | valueNotAllowed => "mapping values are not allowed in this context"
  | noToken => "found character that cannot start any token"
  | missingDirectiveName => "could not find expected directive name"
  | badDirectiveName => "found unexpected non-alphabetical character"
  | unknownDirective => "found unknown directive name"
  | missingDirectiveEnd => "did not find expected comment or line break"
  | missingVersionPoint => "did not find expected digit or '.' character"
  | longVersion => "found extremely long version number"
  | missingVersion => "did not find expected version number"
  | missingBlank => "did not find expected whitespace"
  | missingBlankOrBreak => "did not find expected whitespace or line break"
  | missingHandleMark => "did not find expected '!'"
  | missingTagEnd => "did not find the expected '>'"
  | missingTagText => "did not find expected tag URI"
  | missingOctet => "did not find URI escaped octet"
  | badLeadingOctet => "found an incorrect leading UTF-8 octet"
  | badTrailingOctet => "found an incorrect trailing UTF-8 octet"
  | badAnchorName => "did not find expected alphabetic or numeric character"
  | zeroIndent => "found an indentation indicator equal to 0"
  | missingHeaderEnd => "did not find expected comment or line break"
  | tabForIndent => "found a tab character where an indentation space is expected"
  | documentInQuotes => "found unexpected document indicator"
  | endInQuotes => "found unexpected end of stream"
  | unknownEscape => "found unknown escape character"
  | missingHexDigit => "did not find expected hexadecimal number"
  | badCodePoint => "found invalid Unicode character escape code"
  | colonInFlow => "found unexpected ':'"
  | tabInIndent => "found a tab character that violates indentation"
  | missingDocumentStart => "did not find expected <document start>"
  | duplicateVersion => "found duplicate %YAML directive"
  | incompatibleVersion => "found incompatible YAML document"
  | duplicateTagDirective => "found duplicate %TAG directive"
  | undefinedHandle => "found undefined tag handle"
  | missingContent => "did not find expected node content"
  | missingDash => "did not find expected '-' indicator"
  | missingKey => "did not find expected key"
  | missingCommaOrBracket => "did not find expected ',' or ']'"
  | missingCommaOrBrace => "did not find expected ',' or '\x7d'"

/-- What was being read when a fault was noticed. -/
inductive Activity
  | simpleKey
  | nextToken
  | directive
  | versionDirective
  | tagDirective
  | tagOfDirective
  | handleOfDirective
  | prefixOfDirective
  | tag
  | tagText
  | anchor
  | reference
  | blockScalar
  | quotedScalar
  | escapeInQuotes
  | plainScalar
  | node
  | blockNode
  | flowNode
  | blockSequence
  | blockMapping
  | flowSequence
  | flowMapping
  deriving DecidableEq

/-- The wording of an activity. -/
def Activity.text : Activity → String
  | simpleKey => "while scanning a simple key"
  | nextToken => "while scanning for the next token"
  | directive => "while scanning a directive"
  | versionDirective => "while scanning a %YAML directive"
  | tagDirective => "while scanning a %TAG directive"
  | tagOfDirective => "while scanning a tag directive"
  | handleOfDirective => "while parsing a tag directive"
  | prefixOfDirective => "while parsing a %TAG directive"
  | tag => "while scanning a tag"
  | tagText => "while parsing a tag"
  | anchor => "while scanning an anchor"
  | reference => "while scanning an alias"
  | blockScalar => "while scanning a block scalar"
  | quotedScalar => "while scanning a quoted scalar"
  | escapeInQuotes => "while parsing a quoted scalar"
  | plainScalar => "while scanning a plain scalar"
  | node => "while parsing a node"
  | blockNode => "while parsing a block node"
  | flowNode => "while parsing a flow node"
  | blockSequence => "while parsing a block collection"
  | blockMapping => "while parsing a block mapping"
  | flowSequence => "while parsing a flow sequence"
  | flowMapping => "while parsing a flow mapping"

/-- A fault with the position where it was noticed, the offset in bytes of a character that may not stand in a text at
all, and what was being read since where. -/
structure Problem where
  fault : Fault
  mark : Mark
  offset : Nat := 0
  activity : Option (Activity × Mark) := none
  deriving DecidableEq

namespace Problem

/-- What was being read, with its beginning if that is not where the fault is. -/
def activityText (p : Problem) : String :=
  match p.activity with
  | none => ""
  | some (activity, since) =>
    ", " ++ activity.text ++
      (if since.line == p.mark.line && since.column == p.mark.column then "" else since.atText)

/-- The problem in words. -/
def text (p : Problem) : String :=
  p.fault.text ++
    (if p.mark.isOrigin then (if p.offset == 0 then "" else " at position " ++ toString p.offset) else p.mark.atText) ++
    p.activityText

end Problem

/-- Why no tree could be made of a text. The faults of values name the place of the value, written as a path. -/
inductive LoadError
  | malformed (p : Problem)
  | value (path message : String) (mark : Mark)
  | unknownAnchor (mark : Mark)
  | tooDeep (mark : Mark)
  | tooManyRepetitions
  | endOfStream
  | severalDocuments
  deriving DecidableEq

namespace LoadError

/-- The position of an error, if it has one. -/
def mark? : LoadError → Option Mark
  | malformed p => some p.mark
  | value _ _ mark => some mark
  | unknownAnchor mark => some mark
  | tooDeep mark => some mark
  | tooManyRepetitions | endOfStream | severalDocuments => none

/-- The error in words, without the position that stands before them. -/
def detail : LoadError → String
  | malformed p => p.text
  | value path message mark => (if path == "." then "" else path ++ ": ") ++ message ++ mark.atText
  | unknownAnchor mark => "unknown anchor" ++ mark.atText
  | tooDeep mark => "recursion limit exceeded" ++ mark.atText
  | tooManyRepetitions => "repetition limit exceeded"
  | endOfStream => "EOF while parsing a value"
  | severalDocuments => "deserializing from YAML containing more than one document is not supported"

/-- The error as it is reported. -/
def message (e : LoadError) : String :=
  match e.mark? with
  | some m =>
    "YAML syntax error at line " ++ toString (m.line + 1) ++ ", column " ++ toString (m.column + 1) ++ ": " ++ e.detail
  | none => "YAML syntax error: " ++ e.detail

end LoadError

end Yaml

end Workflow
