import Workflow.Text.Printable

/-!
# Quoted text in diagnostics

A text named in a diagnostic stands between double quotes. Quotes and backslashes inside it take a backslash, the common
controls have letters of their own, and whatever cannot be shown is written by its number in hexadecimal.
-/

namespace Workflow

/-- A number in lower-case hexadecimal digits. -/
def hexText (n : Nat) : String :=
  String.ofList (Nat.toDigits 16 n)

/-- How a character stands inside quotes. -/
def quotedChar (c : Char) : String :=
  if c = '"' then "\\\""
  else if c = '\\' then "\\\\"
  else if c = '\t' then "\\t"
  else if c = '\n' then "\\n"
  else if c = '\r' then "\\r"
  else if c.toNat = 0 then "\\0"
  else if isPrintable c then c.toString
  else "\\u\x7b" ++ hexText c.toNat ++ "\x7d"

/-- The text between double quotes, with whatever cannot stand there written in escapes. -/
def quoted (s : String) : String :=
  "\"" ++ String.join (s.toList.map quotedChar) ++ "\""

end Workflow
