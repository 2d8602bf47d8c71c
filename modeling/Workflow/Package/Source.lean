import Workflow.Package.Literal
import Workflow.Text.Parts

/-!
# Source text

A source text is a list of lines, each with a depth of indentation. A line whose text holds line feeds counts as several
lines of the same depth, and an empty line takes no indentation.
-/

namespace Workflow

/-- A line of source at some depth. -/
structure Line where
  depth : Nat
  text : String

/-- The lines that a line stands for, with their indentation. -/
def Line.physical (l : Line) : List String :=
  (partsBetween '\n' l.text.toList).map fun part =>
    if part.isEmpty then "" else indentation l.depth ++ String.ofList part

/-- The text of a source, every line ended by a line feed. -/
def renderLines (lines : List Line) : String :=
  String.join ((lines.flatMap Line.physical).map (· ++ "\n"))

/-- A line at the outermost depth. -/
def top (text : String) : Line := ⟨0, text⟩

/-- A line one level in. -/
def inner (text : String) : Line := ⟨1, text⟩

/-- A line two levels in. -/
def inner2 (text : String) : Line := ⟨2, text⟩

/-- An empty line. -/
def blankLine : Line := ⟨0, ""⟩

end Workflow
