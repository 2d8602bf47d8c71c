import Workflow.Number
import Workflow.Text.Keyed
import Workflow.Text.Quoted

/-!
# Configuration values

The values that node configurations and reports are made of, with their two written forms: compact on one line, and
spread over lines with two spaces for each level.
-/

namespace Workflow

/-- A configuration value. The entries of an object stand in the order in which they are written. -/
inductive Json
  | null
  | bool (b : Bool)
  | int (n : Int)
  | real (x : Finite)
  | str (s : String)
  | arr (items : List Json)
  | obj (entries : List (String × Json))
  deriving Inhabited

namespace Json

/-- An object with its keys in order. -/
def record (entries : List (String × Json)) : Json :=
  .obj (Keyed.ofList entries)

/-- A text, or null where there is none. -/
def optional : Option String → Json
  | none => .null
  | some s => .str s

/-- A number as a configuration value. What is not finite has no form there and becomes null. -/
def ofDouble : Double → Json
  | .finite x => .real x
  | _ => .null

/-- A number of a document as a configuration value. -/
def ofNumber : Number → Json
  | .int n => .int n
  | .real x => ofDouble x

/-- How a character stands inside a text. -/
def escapedChar (c : Char) : String :=
  if c = '"' then "\\\""
  else if c = '\\' then "\\\\"
  else if c = '\n' then "\\n"
  else if c = '\r' then "\\r"
  else if c = '\t' then "\\t"
  else if c.toNat = 8 then "\\b"
  else if c.toNat = 12 then "\\f"
  else if c.toNat < 0x20 then "\\u00" ++ (if c.toNat < 16 then "0" else "") ++ hexText c.toNat
  else c.toString

/-- A text between quotes. -/
def textLiteral (s : String) : String :=
  "\"" ++ String.join (s.toList.map escapedChar) ++ "\""

mutual

/-- The value on one line, without spaces. -/
def compact : Json → String
  | .null => "null"
  | .bool b => if b then "true" else "false"
  | .int n => toString n
  | .real x => Double.finiteText .json x
  | .str s => textLiteral s
  | .arr items => "[" ++ ",".intercalate (compactItems items) ++ "]"
  | .obj entries => "\x7b" ++ ",".intercalate (compactEntries entries) ++ "\x7d"

/-- The values of an array, each on one line. -/
def compactItems : List Json → List String
  | [] => []
  | v :: rest => v.compact :: compactItems rest

/-- The entries of an object, each on one line. -/
def compactEntries : List (String × Json) → List String
  | [] => []
  | (k, v) :: rest => (textLiteral k ++ ":" ++ v.compact) :: compactEntries rest

end

/-- The spaces of a level. -/
def levelSpaces (level : Nat) : String :=
  String.ofList (List.replicate (2 * level) ' ')

mutual

/-- The value over several lines, its first line continuing a line of the given level. -/
def pretty (level : Nat) : Json → String
  | .arr [] => "[]"
  | .arr items =>
    "[\n" ++ ",\n".intercalate (prettyItems (level + 1) items) ++ "\n" ++ levelSpaces level ++ "]"
  | .obj [] => "\x7b\x7d"
  | .obj entries =>
    "\x7b\n" ++ ",\n".intercalate (prettyEntries (level + 1) entries) ++ "\n" ++ levelSpaces level ++ "\x7d"
  | v => v.compact

/-- The values of an array, each beginning on a line of the given level. -/
def prettyItems (level : Nat) : List Json → List String
  | [] => []
  | v :: rest => (levelSpaces level ++ v.pretty level) :: prettyItems level rest

/-- The entries of an object, each beginning on a line of the given level. -/
def prettyEntries (level : Nat) : List (String × Json) → List String
  | [] => []
  | (k, v) :: rest => (levelSpaces level ++ textLiteral k ++ ": " ++ v.pretty level) :: prettyEntries level rest

end

mutual

/-- The value with the keys of every object in order. -/
def sorted : Json → Json
  | .arr items => .arr (sortedItems items)
  | .obj entries => .record (sortedEntries entries)
  | v => v

/-- The values of an array, each with its keys in order. -/
def sortedItems : List Json → List Json
  | [] => []
  | v :: rest => v.sorted :: sortedItems rest

/-- The entries of an object, each value with its keys in order. -/
def sortedEntries : List (String × Json) → List (String × Json)
  | [] => []
  | (k, v) :: rest => (k, v.sorted) :: sortedEntries rest

end

end Json

end Workflow
