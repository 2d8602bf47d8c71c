import Workflow.Text.Parts

/-!
# Paths

A path as it is written, cut at its slashes. Empty parts and single points say nothing about where a path leads, except
at its ends, so they are kept: an empty first part makes a path absolute, and an empty last one asks for a directory.
-/

namespace Workflow

/-- The parts of a path between its slashes. -/
abbrev Path := List String

namespace Path

/-- The path that a text writes. -/
def ofText (s : String) : Path :=
  (partsBetween '/' s.toList).map String.ofList

/-- The text of a path. -/
def text (p : Path) : String :=
  "/".intercalate p

/-- Whether a path is written without a character. -/
def isNone (p : Path) : Bool := p.text.isEmpty

/-- Whether a path begins at the top. -/
def isAbsolute (p : Path) : Bool := decide (1 < p.length) && p.head? == some ""

/-- The path inside a directory. -/
def join (dir inside : Path) : Path :=
  if inside.isAbsolute || dir.isNone then inside
  else if dir.getLast? == some "" then dir.dropLast ++ inside
  else dir ++ inside

/-- A part that leads nowhere. -/
def isIdle (part : String) : Bool := part == "" || part == "."

/-- The path without the idle parts at its end. The first part stays. -/
def trimEnd : Path → Path
  | [] => []
  | first :: rest => first :: (rest.reverse.dropWhile isIdle).reverse

/-- The directory that a path stands in, as the text before its last name. A path that is only the top has none. -/
def parent? (p : Path) : Option Path :=
  match p.trimEnd with
  | [] => none
  | [""] => none
  | [_] => some [""]
  | first :: rest =>
    let before := trimEnd (first :: rest.dropLast)
    some (if before = [""] then ["", ""] else before)

/-- The names of a path, if it does nothing but lead down from where it starts. A point that begins the path is no name,
and neither is a step to the directory above. -/
def names? (p : Path) : Option (List String) :=
  let names := p.filter (!isIdle ·)
  if p.isAbsolute || p.head? == some "." || names.contains ".." then none else some names

end Path

end Workflow
