import Workflow.Json

/-!
# Literals

Texts and configuration values as literals of the generated language. A literal of a container spreads over lines, one
element on each, with a comma after the last one too.
-/

namespace Workflow

/-- The spaces of one level. -/
def indent : String := "    "

/-- The spaces of several levels. -/
def indentation (depth : Nat) : String :=
  String.join (List.replicate depth indent)

/-- The last two digits of a number in lower-case hexadecimal. -/
def hexPair (n : Nat) : String :=
  String.ofList [Nat.digitChar (n / 16 % 16), Nat.digitChar (n % 16)]

/-- How a character stands inside a literal of a text. -/
def literalChar (c : Char) : String :=
  if c = '"' then "\\\""
  else if c = '\\' then "\\\\"
  else if c = '\n' then "\\n"
  else if c = '\r' then "\\r"
  else if c = '\t' then "\\t"
  else if c.toNat < 0x20 || c.toNat == 0x7F then "\\x" ++ hexPair c.toNat
  else c.toString

/-- The literal of a text. -/
def stringLiteral (s : String) : String :=
  "\"" ++ String.join (s.toList.map literalChar) ++ "\""

/-- The lines of the elements of a container at some depth, each with its comma. -/
def elementLines (depth : Nat) (elements : List String) : String :=
  String.join (elements.map fun e => indentation (depth + 1) ++ e ++ ",\n")

mutual

/-- The literal of a configuration value that begins on a line of the given depth. -/
def literal (depth : Nat) : Json → String
  | .null => "None"
  | .bool b => if b then "True" else "False"
  | .int n => toString n
  | .real x => Double.finiteText .json x
  | .str s => stringLiteral s
  | .arr [] => "[]"
  | .arr items => "[\n" ++ elementLines depth (literalItems (depth + 1) items) ++ indentation depth ++ "]"
  | .obj [] => "\x7b\x7d"
  | .obj entries =>
    "\x7b\n" ++ elementLines depth (literalEntries (depth + 1) entries) ++ indentation depth ++ "\x7d"

/-- The literals of the values of an array. -/
def literalItems (depth : Nat) : List Json → List String
  | [] => []
  | v :: rest => literal depth v :: literalItems depth rest

/-- The literals of the entries of an object. -/
def literalEntries (depth : Nat) : List (String × Json) → List String
  | [] => []
  | (k, v) :: rest => (stringLiteral k ++ ": " ++ literal depth v) :: literalEntries depth rest

end

end Workflow
