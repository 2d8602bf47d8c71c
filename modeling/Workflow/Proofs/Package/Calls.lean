import Mathlib
import Workflow.Package.Assembly
import Workflow.Proofs.Package.Lexeme

/-!
# The calls of a source read back

The body of the function that builds a graph, found in the text of its file and read statement by statement: which calls it
makes on the builder, in order, with their texts decoded.
-/

namespace Workflow

/-- A call on the builder of a graph. Each version of the framework has its own way to declare the entry and the ends; what they
declare is the same. -/
inductive Call
  | addNode (id : String) (runner : List String)
  | entry (id : String)
  | addEdge (source target : String)
  | addBranch (id routing : String) (routes : List (String × String))
  | finish (id : String)
  deriving DecidableEq

namespace Call

/-- How deep in brackets a source is after some lexemes. -/
def nesting (depth : Nat) (ls : List Lexeme) : Nat :=
  ls.foldl (fun depth l =>
    match l with
    | .mark '(' | .mark '[' | .mark '\x7b' => depth + 1
    | .mark ')' | .mark ']' | .mark '\x7d' => depth - 1
    | _ => depth) depth

/-- The entries of a table up to its closing bracket, and what follows it. -/
def routes? : List Lexeme → Option (List (String × String) × List Lexeme)
  | .mark '\x7d' :: rest => some ([], rest)
  | .text label :: .mark ':' :: .text target :: .mark ',' :: rest =>
    (routes? rest).map fun (routes, rest) => ((label, target) :: routes, rest)
  | _ => none

/-- The call of a method of the builder, given what follows the opening bracket. -/
def ofMethod? : String → List Lexeme → Option Call
  | "add_node", [.text id, .mark ',', .name package, .mark '.', .name module, .mark '.', .name function, .mark ')'] =>
    some (.addNode id [package, module, function])
  | "set_entry_point", [.text id, .mark ')'] => some (.entry id)
  | "add_edge", [.name "START", .mark ',', .text id, .mark ')'] => some (.entry id)
  | "add_edge", [.text source, .mark ',', .text target, .mark ')'] => some (.addEdge source target)
  | "add_conditional_edges", .text id :: .mark ',' :: .name routing :: .mark ',' :: .mark '\x7b' :: rest =>
    match routes? rest with
    | some (routes, [.mark ',', .mark ')']) => some (.addBranch id routing routes)
    | _ => none
  | "set_finish_point", [.text id, .mark ')'] => some (.finish id)
  | "add_edge", [.text id, .mark ',', .name "END", .mark ')'] => some (.finish id)
  | _, _ => none

/-- The call that a statement makes on the builder, if it makes one. A call that is not understood is an error. -/
def ofStatement? : List Lexeme → Option (List Call)
  | .name "builder" :: .mark '.' :: .name method :: .mark '(' :: rest => (ofMethod? method rest).map fun call => [call]
  | _ => some []

/-- The calls of some lines, given the lexemes of a statement that has begun on the lines before: a statement goes on while a
bracket is open. -/
def read? : List Lexeme → List (List Char) → Option (List Call)
  | begun, [] => if begun.isEmpty then some [] else none
  | begun, line :: rest =>
    match lexemes? line with
    | none => none
    | some ls =>
      if nesting 0 (begun ++ ls) = 0 then
        match ofStatement? (begun ++ ls) with
        | none => none
        | some calls => (read? [] rest).map (calls ++ ·)
      else read? (begun ++ ls) rest

/-- The line that the function which builds the graph begins with. -/
def heading : String := "def build_graph() -> StateGraph:"

/-- Whether a line may belong to the body of a function: it is empty or indented. -/
def isBodyLine (line : List Char) : Bool := line.isEmpty || line.head? == some ' '

/-- The lines of the body of the function which builds the graph: those below its heading, as long as they may belong to it. -/
def bodyLines (text : String) : List (List Char) :=
  ((linesOf text).dropWhile (· != heading.toList)).tail.takeWhile isBodyLine

/-- The calls on the builder in the text of a file. -/
def ofText? (text : String) : Option (List Call) := read? [] (bodyLines text)

end Call

end Workflow
