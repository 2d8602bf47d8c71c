import Workflow.Yaml.Cursor

/-!
# Tokens

The pieces of document text that its structure is made of. Tags are kept as octets, for their escapes may spell any.
-/

namespace Workflow

namespace Yaml

/-- The octets of a tag. -/
abbrev Octets := List UInt8

/-- The octets of a text. -/
def octetsOf (chars : List Char) : Octets := (String.ofList chars).toUTF8.toList

/-- The text that octets spell, if they spell one. -/
def textOfOctets? (octets : Octets) : Option String := String.fromUTF8? ⟨octets.toArray⟩

/-- The ways to write a scalar. -/
inductive ScalarStyle
  | plain
  | singleQuoted
  | doubleQuoted
  | literal
  | folded
  deriving DecidableEq

/-- The kinds of token, with what they carry. -/
inductive TokenKind
  | streamStart
  | streamEnd
  | version (major minor : Nat)
  | tagShorthand (handle : String) (expansion : Octets)
  | documentStart
  | documentEnd
  | blockSequenceStart
  | blockMappingStart
  | blockEnd
  | flowSequenceStart
  | flowSequenceEnd
  | flowMappingStart
  | flowMappingEnd
  | blockEntry
  | flowEntry
  | key
  | value
  | reference (name : String)
  | anchor (name : String)
  | tag (handle : String) (suffix : Octets)
  | scalar (text : String) (style : ScalarStyle)
  deriving DecidableEq

/-- A token with the positions where it begins and ends. -/
structure Token where
  kind : TokenKind
  start : Mark
  stop : Mark

end Yaml

end Workflow
