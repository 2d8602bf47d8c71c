/-!
# Names in a package

How names of a workflow, which may hold any character, become identifiers of a generated package, and how several
identifiers are kept apart.
-/

namespace Workflow

/-- The words that are no identifiers of a generated package. -/
def keywords : List String :=
  ["False", "None", "True", "and", "as", "assert", "async", "await", "break", "class", "continue", "def", "del", "elif",
   "else", "except", "finally", "for", "from", "global", "if", "import", "in", "is", "lambda", "nonlocal", "not", "or",
   "pass", "raise", "return", "try", "while", "with", "yield", "match", "case", "type"]

/-- Whether a new word begins between two neighbouring letters or digits: at an upper-case letter that follows a
lower-case one or a digit. -/
def startsWord (before after : Char) : Bool :=
  (before.isLower || before.isDigit) && after.isUpper

/-- The words of a name: its runs of letters and digits of the basic alphabet, cut where a new word begins. -/
def nameWords : List Char → List (List Char)
  | [] => []
  | c :: rest =>
    if c.isAlphanum then
      match rest with
      | [] => [[c]]
      | d :: _ =>
        if !d.isAlphanum || startsWord c d then [c] :: nameWords rest
        else
          match nameWords rest with
          | [] => [[c]]
          | word :: words => (c :: word) :: words
    else nameWords rest

/-- The words of a name in lower case. -/
def lowerWords (name : String) : List (List Char) :=
  (nameWords name.toList).map fun word => word.map Char.toLower

/-- The words of a name in lower case, joined by `_`. -/
def snakeCase (name : String) : String :=
  "_".intercalate ((lowerWords name).map String.ofList)

/-- A word with its first letter in upper case. -/
def capitalized : List Char → List Char
  | [] => []
  | c :: rest => c.toUpper :: rest

/-- The words of a name, each capitalized, without anything between them. -/
def pascalCase (name : String) : String :=
  String.ofList ((lowerWords name).flatMap capitalized)

/-- Whether a text begins with a digit. -/
def startsWithDigit (s : String) : Bool :=
  match s.toList with
  | c :: _ => c.isDigit
  | [] => false

/-- The identifier of a name. A name without letters and digits gives way to the fallback, a digit at the beginning is
kept behind `n_`, and a keyword gets `_` at its end. -/
def identifierOf (name fallback : String) : String :=
  let words := snakeCase name
  let words := if words.isEmpty then fallback else words
  let words := if startsWithDigit words then "n_" ++ words else words
  if words ∈ keywords then words ++ "_" else words

/-- Whether a name is an identifier as it stands. -/
def isIdentifier (name : String) : Bool :=
  match name.toList with
  | [] => false
  | c :: rest => (c == '_' || c.isAlpha) && rest.all (fun d => d == '_' || d.isAlphanum) && !(name ∈ keywords)

/-- A name followed by a number. -/
def numbered (base : String) (n : Nat) : String := base ++ "_" ++ toString n

/-- The first of the names `base_n`, `base_(n+1)`, … that is not taken. As many tries as there are taken names are
enough. -/
def firstNumbered (taken : List String) (base : String) : Nat → Nat → String
  | 0, n => numbered base n
  | tries + 1, n => if numbered base n ∈ taken then firstNumbered taken base tries (n + 1) else numbered base n

/-- A name that is not taken: the wanted one, or else that one with the least number from two on. -/
def freshName (taken : List String) (wanted : String) : String :=
  if wanted ∈ taken then firstNumbered taken wanted taken.length 2 else wanted

/-- The names given out for a list of wanted ones, each different from those before it. -/
def freshNames (wanted : List String) : List String :=
  wanted.foldl (fun taken name => taken ++ [freshName taken name]) []

end Workflow
