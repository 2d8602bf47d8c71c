import Workflow.Document

/-!
# Workflow graphs

The graph of a workflow: its nodes and edges in the order of their declaration, with ids replaced by positions, the
entry, the end nodes, and for each branching node the table of where its outcomes lead.
-/

namespace Workflow

/-- An edge between two positions. `position` is its own place in the edge list of the document. -/
structure Edge where
  source : Nat
  target : Nat
  condition : Option String
  position : Nat
  deriving DecidableEq

/-- Where the outcomes of a branching node lead, in the order of its edges. -/
structure BranchTable where
  node : Nat
  routes : List (String × Nat)
  deriving DecidableEq

/-- The labels of a table. -/
def BranchTable.labels (t : BranchTable) : List String := t.routes.map (·.1)

/-- The graph of a workflow. `departures` are for each node the places at which the edges that leave it stand in the list of
edges. -/
structure Graph where
  name : String
  description : Option String
  nodes : List Node
  edges : List Edge
  departures : List (List Nat)
  entry : Nat
  terminals : List Nat
  branchTables : List BranchTable

/-- The last position at which an id stands in a list. -/
def lastIndexOf? (ids : List String) (id : String) : Option Nat :=
  match ids with
  | [] => none
  | x :: rest =>
    match lastIndexOf? rest id with
    | some i => some (i + 1)
    | none => if x = id then some 0 else none

/-- One more node of a kind among counts: its kind is counted once more, at the end if it has no count so far. -/
def countKind (k : NodeKind) : List (NodeKind × Nat) → List (NodeKind × Nat)
  | [] => [(k, 1)]
  | c :: counts => if c.1 = k then (k, c.2 + 1) :: counts else c :: countKind k counts

/-- Whether two counts stand in order: by their kinds first, and then by the numbers. -/
def countsInOrder (a b : NodeKind × Nat) : Bool :=
  a.1.rank < b.1.rank || a.1.rank == b.1.rank && a.2 ≤ b.2

/-- The id at a position; there is an empty one where there is no node. -/
def idAt (nodes : List Node) (i : Nat) : String :=
  (nodes[i]?.map (·.id)).getD ""

namespace Graph

/-- The id of the node at a position. -/
def idAt (g : Graph) (i : Nat) : String := Workflow.idAt g.nodes i

/-- The position of the node with an id. -/
def indexOf? (g : Graph) (id : String) : Option Nat := lastIndexOf? (g.nodes.map (·.id)) id

/-- The edges that leave a position, in order. -/
def outgoing (g : Graph) (i : Nat) : List Edge := (g.departures[i]?.getD []).filterMap (g.edges[·]?)

/-- The branch table of a position. -/
def branchTable? (g : Graph) (i : Nat) : Option BranchTable := g.branchTables.find? (·.node == i)

/-- How many nodes there are of each kind that occurs, in the order of the kinds. -/
def kindCounts (g : Graph) : List (NodeKind × Nat) :=
  (g.nodes.foldl (fun counts n => countKind n.kind counts) []).mergeSort countsInOrder

end Graph

/-- An overview of a graph. -/
structure Summary where
  name : String
  entry : String
  terminals : List String
  nodes : Nat
  edges : Nat
  conditionalNodes : Nat
  kinds : List (NodeKind × Nat)
  deriving DecidableEq

/-- The overview of a graph. -/
def Graph.summary (g : Graph) : Summary where
  name := g.name
  entry := g.idAt g.entry
  terminals := g.terminals.map g.idAt
  nodes := g.nodes.length
  edges := g.edges.length
  conditionalNodes := g.branchTables.length
  kinds := g.kindCounts

end Workflow
