/-!
# Parts of a text

The parts of a text between the occurrences of one character. There is always one part more than there are occurrences.
-/

namespace Workflow

/-- The parts of a text between the occurrences of a character. -/
def partsBetween (separator : Char) : List Char → List (List Char)
  | [] => [[]]
  | c :: rest =>
    match partsBetween separator rest with
    | [] => [[c]]
    | part :: parts => if c = separator then [] :: part :: parts else (c :: part) :: parts

end Workflow
