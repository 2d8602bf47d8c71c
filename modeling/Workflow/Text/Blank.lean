/-!
# Blank text

Which characters count as blank space, and the three things done with them: a text is trimmed, found blank, or folded
onto one line.
-/

namespace Workflow

/-- The blank characters of Unicode, those with the property White_Space. -/
def isBlank (c : Char) : Bool :=
  let n := c.toNat
  (9 ≤ n && n ≤ 13) || n == 0x20 || n == 0x85 || n == 0xA0 || n == 0x1680 || (0x2000 ≤ n && n ≤ 0x200A) ||
    n == 0x2028 || n == 0x2029 || n == 0x202F || n == 0x205F || n == 0x3000

/-- The characters without the blank ones at both ends. -/
def trimBlankChars (cs : List Char) : List Char :=
  ((cs.dropWhile isBlank).reverse.dropWhile isBlank).reverse

/-- The text without the blank characters at both ends. -/
def trimBlank (s : String) : String :=
  String.ofList (trimBlankChars s.toList)

/-- A text is blank when it holds nothing but blank characters. -/
def isBlankText (s : String) : Bool :=
  s.toList.all isBlank

/-- The maximal runs of characters that are not blank, in order. -/
def wordsOf : List Char → List (List Char)
  | [] => []
  | c :: rest =>
    if isBlank c then wordsOf rest
    else
      match rest with
      | [] => [[c]]
      | d :: _ =>
        if isBlank d then [c] :: wordsOf rest
        else
          match wordsOf rest with
          | [] => [[c]]
          | word :: words => (c :: word) :: words

/-- The words of a text on one line, one space between two of them. -/
def foldBlank (s : String) : String :=
  " ".intercalate ((wordsOf s.toList).map String.ofList)

end Workflow
