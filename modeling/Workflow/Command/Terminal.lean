import Workflow.Report

/-!
# What a reader at a terminal sees

How pieces of output are set off by colour, how an issue is shown, and what a run of a command leaves behind: two texts
and a status.
-/

namespace Workflow

/-- Why a piece of output is set off. -/
inductive Emphasis
  | failure
  | caution
  | place
  | valid
  | invalid
  deriving DecidableEq

namespace Emphasis

/-- The graphic rendition of a piece: failures in bold red, cautions in bold yellow, places in cyan, and verdicts in
green or red. -/
def rendition : Emphasis → String
  | failure => "1;31"
  | caution => "1;33"
  | place => "36"
  | valid => "32"
  | invalid => "31"

/-- The sequence that begins a rendition. -/
def start (e : Emphasis) : String := "\x1b[" ++ e.rendition ++ "m"

/-- The sequence that ends every rendition. -/
def reset : String := "\x1b[0m"

/-- A piece of output, in colour or plain. Where the piece itself ends a rendition, its own begins anew. -/
def paint (e : Emphasis) (coloured : Bool) (piece : String) : String :=
  if coloured then e.start ++ piece.replace reset (reset ++ e.start) ++ reset else piece

end Emphasis

/-- The emphasis of a severity. -/
def Severity.emphasis : Severity → Emphasis
  | .error => .failure
  | .warning => .caution

/-- An issue on a line of its own, set in under the file that it is about. -/
def Issue.shown (coloured : Bool) (i : Issue) : String :=
  "  " ++ i.severity.emphasis.paint coloured (i.severity.text ++ "[" ++ i.code.text ++ "]") ++ " " ++
    Emphasis.place.paint coloured i.place.text ++ ": " ++ i.message ++ "\n"

/-- The issues of a report. -/
def Report.shown (coloured : Bool) (r : Report) : String :=
  String.join (r.issues.map (·.shown coloured))

/-- An error on a line of its own. -/
def errorLine (coloured : Bool) (message : String) : String :=
  Emphasis.failure.paint coloured "Error:" ++ " " ++ message ++ "\n"

/-- How a run of a command ends. -/
inductive ExitStatus
  | success
  | rejected
  | badInput
  | internal
  deriving DecidableEq

/-- The number of a status. The worse the end, the greater the number. -/
def ExitStatus.code : ExitStatus → Nat
  | success => 0
  | rejected => 1
  | badInput => 2
  | internal => 3

/-- What a run of a command leaves behind: what it prints, what it reports beside that, and how it ends. -/
structure Outcome where
  output : String := ""
  report : String := ""
  status : ExitStatus
  deriving DecidableEq

end Workflow
