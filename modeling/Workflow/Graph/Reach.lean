/-!
# Reachability

Which positions of a finite directed graph can be reached from a given one, and which positions reach each other. The
graph is given by a table of the positions next to each position.
-/

namespace Workflow

/-- Goes through the positions to do, from the first on, and puts those next to it that were not seen before at the end
of both lists. Every position is to do at most once, so a step for each position of the graph is enough. -/
def visit (next : Array (List Nat)) : Nat → List Nat → List Nat → List Nat
  | 0, _, seen => seen
  | _ + 1, [], seen => seen
  | steps + 1, i :: todo, seen =>
    let fresh := ((next[i]?.getD []).filter (· ∉ seen)).eraseDups
    visit next steps (todo ++ fresh) (seen ++ fresh)

/-- The positions reached from a root, the root among them. -/
def reach (next : Array (List Nat)) (root : Nat) : List Nat :=
  visit next next.size [root] [root]

/-- Each of the given positions with those reached from it. -/
def reachTable (next : Array (List Nat)) (positions : List Nat) : List (Nat × List Nat) :=
  positions.map fun i => (i, reach next i)

/-- The positions of a table that a row reaches and that reach it in turn, in the order of the table. -/
def component (table : List (Nat × List Nat)) (row : Nat × List Nat) : List Nat :=
  (table.filter fun other => other.1 ∈ row.2 && row.1 ∈ other.2).map (·.1)

end Workflow
