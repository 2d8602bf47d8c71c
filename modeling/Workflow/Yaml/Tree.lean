import Workflow.Number

/-!
# Document trees

The tree that document text stands for: scalars, sequences, mappings in the order of their entries, and values under a
tag. Looking up a key, reading a text and asking for null see through tags; nothing else does.
-/

namespace Workflow

/-- A value of a document tree. The tag of a tagged value is kept without its leading mark; a tag that consists of the
mark alone is kept as `!`. -/
inductive Tree
  | null
  | bool (b : Bool)
  | num (n : Number)
  | str (s : String)
  | seq (items : List Tree)
  | map (entries : List (Tree × Tree))
  | tagged (tag : String) (value : Tree)
  deriving Inhabited

namespace Tree

/-- The name of a value's type in diagnostics. -/
def typeName : Tree → String
  | .null => "null"
  | .bool _ => "boolean"
  | .num _ => "number"
  | .str _ => "string"
  | .seq _ => "sequence"
  | .map _ => "mapping"
  | .tagged .. => "tagged value"

/-- The value without the tags around it. -/
def untagged : Tree → Tree
  | .tagged _ value => value.untagged
  | t => t

/-- The text of a value, tagged or not. -/
def text? (t : Tree) : Option String :=
  match t.untagged with
  | .str s => some s
  | _ => none

/-- Whether a value is null, tagged or not. -/
def isNull (t : Tree) : Bool :=
  match t.untagged with
  | .null => true
  | _ => false

/-- The entry under a text key of a mapping. Only an untagged text is such a key. -/
def field? (key : String) : List (Tree × Tree) → Option Tree
  | [] => none
  | (.str k, value) :: rest => if k = key then some value else field? key rest
  | _ :: rest => field? key rest

/-- The entry under a text key of a value, if the value is a mapping, tagged or not. -/
def get? (t : Tree) (key : String) : Option Tree :=
  match t.untagged with
  | .map entries => field? key entries
  | _ => none

mutual

/-- Whether two values name the same value where values serve as keys. The order of a mapping's entries does not
count. -/
def sameValue : Tree → Tree → Bool
  | .null, .null => true
  | .bool a, .bool b => a == b
  | .num a, .num b => a.sameValue b
  | .str a, .str b => a == b
  | .seq xs, .seq ys => sameItems xs ys
  | .map xs, .map ys => xs.length == ys.length && entriesIn xs ys
  | .tagged s x, .tagged t y => s == t && sameValue x y
  | _, _ => false

/-- Whether two lists hold the same values in the same order. -/
def sameItems : List Tree → List Tree → Bool
  | [], [] => true
  | x :: xs, y :: ys => sameValue x y && sameItems xs ys
  | _, _ => false

/-- Whether each entry of the first list is one of the second. -/
def entriesIn : List (Tree × Tree) → List (Tree × Tree) → Bool
  | [], _ => true
  | (k, v) :: rest, ys => ys.any (fun e => sameValue k e.1 && sameValue v e.2) && entriesIn rest ys

end

end Tree

end Workflow
