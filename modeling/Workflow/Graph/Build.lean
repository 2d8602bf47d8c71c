import Workflow.Graph
import Workflow.Graph.Reach
import Workflow.Report

/-!
# Building the graph of a document

Edges and the entry are matched with nodes, and every defect of the structure becomes an issue. A graph is built only of
a document without defects. Cycles are no defect as long as the entry reaches them.
-/

namespace Workflow

namespace Build

/-- The place of a node. -/
def nodePlace (i : Nat) : Place := (Place.root.key "nodes").item i

/-- The place of an edge. -/
def edgePlace (i : Nat) : Place := (Place.root.key "edges").item i

/-- A text between single quotes. -/
def named (s : String) : String := "'" ++ s ++ "'"

/-- Ids between single quotes, with commas between them. -/
def namedList (ids : List String) : String := ", ".intercalate (ids.map named)

/-- The node ids of a document, in order. -/
def ids (d : Document) : List String := d.nodes.map (·.id)

/-- The position of the node that an id names. -/
def indexOf? (d : Document) (id : String) : Option Nat := lastIndexOf? (ids d) id

/-- The names of all state keys of a document. -/
def stateKeys (d : Document) : List String :=
  d.nodes.flatMap fun n => n.spec.stateFields.map (·.name)

/-- The issues of nodes whose id is a state key too. -/
def collisionIssues (d : Document) : List Issue :=
  let keys := stateKeys d
  d.nodes.zipIdx.filterMap fun (n, i) =>
    if n.id ∈ keys then
      some ⟨.stateKeyCollision, (nodePlace i).key "id",
        "node id '" ++ n.id ++ "' is also a state key; rename the node or the key"⟩
    else none

/-- The issue of a reference to a node that does not exist. -/
def danglingIssue (d : Document) (place : Place) (what id : String) : List Issue :=
  match indexOf? d id with
  | some _ => []
  | none => [⟨.danglingReference, place, what ++ " references unknown node '" ++ id ++ "'"⟩]

/-- The issues of edges with an end that names no node. -/
def edgeIssues (d : Document) : List Issue :=
  d.edges.zipIdx.flatMap fun (e, i) =>
    danglingIssue d ((edgePlace i).key "source") "edge source" e.source ++
      danglingIssue d ((edgePlace i).key "target") "edge target" e.target

/-- The edges whose two ends name nodes, in order. -/
def resolvedEdges (d : Document) : List Edge :=
  d.edges.zipIdx.filterMap fun (e, i) => do
    return { source := ← indexOf? d e.source, target := ← indexOf? d e.target, condition := e.condition, position := i }

/-- For each node the places of the edges that leave it, noted edge by edge. -/
def departures (size : Nat) (edges : List Edge) : List (List Nat) :=
  edges.zipIdx.foldl (fun table e => table.modify e.1.source (· ++ [e.2])) (List.replicate size [])

/-- The positions that the edges name as their sources, whatever their targets. -/
def declaredSources (d : Document) : List (Option Nat) :=
  d.edges.map fun e => indexOf? d e.source

/-- The positions of the start nodes. -/
def starts (d : Document) : List Nat :=
  (d.nodes.zipIdx.filter (·.1.kind == .start)).map (·.2)

/-- The issues of the entry: it has to name the only start node. -/
def entryIssues (d : Document) : List Issue :=
  danglingIssue d (Place.root.key "entry") "entry" d.entry ++
    match starts d with
    | [] => [⟨.missingEntry, Place.root.key "nodes", "workflow has no start node"⟩]
    | [start] =>
      match indexOf? d d.entry with
      | none => []
      | some declared =>
        if declared = start then []
        else
          [⟨.entryMismatch, Place.root.key "entry",
            "entry names '" ++ idAt d.nodes declared ++ "' (" ++ ((d.nodes[declared]?.map (·.kind.text)).getD "") ++
              ") but the start node is '" ++ idAt d.nodes start ++ "'"⟩]
    | several =>
      [⟨.multipleEntries, Place.root.key "nodes",
        "workflow has " ++ toString several.length ++ " start nodes (" ++ namedList (several.map (idAt d.nodes)) ++
          "), exactly one is allowed"⟩]

/-- The entry: the only start node, if the document names it. -/
def agreedStart? (d : Document) : Option Nat :=
  match starts d with
  | [start] => if indexOf? d d.entry = some start then some start else none
  | _ => none

/-- Where to begin the walk over the graph: at the entry, else at the first start node, else at the node that is named as
entry. -/
def root? (d : Document) : Option Nat :=
  (agreedStart? d).or ((starts d).head?.or (indexOf? d d.entry))

/-- For each position of a graph the targets of the edges that leave it. -/
def targets (size : Nat) (edges : List Edge) : Array (List Nat) :=
  ((List.range size).map fun i => (edges.filter (·.source == i)).map (·.target)).toArray

/-- The issue of a component that is not reached, told at its first position: a cycle as a whole, a lone node as itself.
`next` are the positions next to the one at hand. -/
def islandIssues (d : Document) (next : List Nat) (rootId : String) (i : Nat) (members : List Nat) : List Issue :=
  if members.length > 1 || i ∈ next then
    if members.head? = some i then
      [⟨.isolatedCycle, nodePlace i,
        "nodes " ++ namedList (members.map (idAt d.nodes)) ++ " form a cycle that is not reachable from entry '" ++
          rootId ++ "'"⟩]
    else []
  else
    [⟨.unreachableNode, nodePlace i,
      "node '" ++ idAt d.nodes i ++ "' is not reachable from entry '" ++ rootId ++ "'"⟩]

/-- The issues of nodes that the root does not reach. -/
def reachIssues (d : Document) : List Issue :=
  match root? d with
  | none => []
  | some root =>
    let size := d.nodes.length
    let next := targets size (resolvedEdges d)
    let reached := reach next root
    let table := reachTable next ((List.range size).filter (· ∉ reached))
    table.flatMap fun row => islandIssues d (next[row.1]?.getD []) (idAt d.nodes root) row.1 (component table row)

/-- The issue of a conditional edge that leaves a node of a kind that does not branch. -/
def plainEdgeIssue (d : Document) (n : Node) (e : Edge) : Option Issue :=
  e.condition.map fun label =>
    ⟨.conditionOnPlainNode, (edgePlace e.position).key "condition",
      "edge '" ++ idAt d.nodes e.source ++ "' -> '" ++ idAt d.nodes e.target ++ "' has condition '" ++ label ++
        "' but '" ++ n.id ++ "' is a " ++ n.kind.text ++ " node, not a conditional-branch"⟩

/-- The issue of an edge that leaves a branching node, given the labels of the edges before it. An edge without issue is
the first with a declared label. -/
def branchEdgeIssue (d : Document) (n : Node) (declared earlier : List String) (e : Edge) : Option Issue :=
  match e.condition with
  | none =>
    some ⟨.unconditionalFromBranch, edgePlace e.position,
      "conditional-branch node '" ++ n.id ++ "' has an unconditional edge to '" ++ idAt d.nodes e.target ++ "'"⟩
  | some label =>
    if label ∉ declared then
      some ⟨.branchUnexpected, (edgePlace e.position).key "condition",
        "branch label '" ++ label ++ "' on edge to '" ++ idAt d.nodes e.target ++ "' is not declared by node '" ++
          n.id ++ "' (declared: " ++ ", ".intercalate declared ++ ")"⟩
    else if label ∈ earlier then
      some ⟨.duplicateBranch, (edgePlace e.position).key "condition",
        "branch label '" ++ label ++ "' of node '" ++ n.id ++ "' is used by more than one edge"⟩
    else none

/-- Each edge of a list with the labels of the edges before it. -/
def withEarlierLabels (edges : List Edge) : List (Edge × List String) :=
  edges.zipIdx.map fun (e, k) => (e, (edges.take k).filterMap (·.condition))

/-- The issue of a branching node some of whose labels no edge carries. -/
def missingLabelIssue (i : Nat) (n : Node) (declared : List String) (edges : List Edge) : List Issue :=
  let missing := declared.filter (· ∉ edges.filterMap (·.condition))
  if missing.isEmpty then []
  else
    [⟨.branchMissing, ((nodePlace i).key "config").key "branches",
      "conditional-branch node '" ++ n.id ++ "' has no edge for declared label(s): " ++ ", ".intercalate missing⟩]

/-- The edges of a list that leave a position. -/
def leaving (edges : List Edge) (i : Nat) : List Edge := edges.filter (·.source == i)

/-- The issues of the conditions on the edges that leave a node. -/
def branchIssues (d : Document) (edges : List Edge) (n : Node) (i : Nat) : List Issue :=
  let out := leaving edges i
  match n.spec.branchLabels? with
  | none => out.filterMap (plainEdgeIssue d n)
  | some declared =>
    ((withEarlierLabels out).filterMap fun (e, earlier) => branchEdgeIssue d n declared earlier e) ++
      missingLabelIssue i n declared out

/-- The branch table of a node, if it is a branching node without branch issues. -/
def branchTable? (d : Document) (edges : List Edge) (n : Node) (i : Nat) : Option BranchTable :=
  match n.spec.branchLabels? with
  | none => none
  | some _ =>
    if (branchIssues d edges n i).isEmpty then
      some { node := i
             routes := (leaving edges i).filterMap fun e => e.condition.map fun label => (label, e.target) }
    else none

/-- The issue of a node that ends the workflow and goes on, or that does neither. `sources` are the positions that the
edges name as their sources. -/
def terminalIssues (sources : List (Option Nat)) (n : Node) (i : Nat) : List Issue :=
  let out := sources.count (some i)
  if n.kind.isTerminal then
    if out = 0 then []
    else
      [⟨.terminalHasSuccessor, nodePlace i,
        "end node '" ++ n.id ++ "' has " ++ toString out ++ " outgoing edge(s); end nodes must be terminal"⟩]
  else if out = 0 then
    [⟨.deadEnd, nodePlace i,
      "dead end: " ++ n.kind.text ++ " node '" ++ n.id ++ "' has no outgoing edges and is not an end node"⟩]
  else []

/-- The positions of the end nodes. -/
def terminals (d : Document) : List Nat :=
  (d.nodes.zipIdx.filter (·.1.kind.isTerminal)).map (·.2)

/-- The issue of a workflow without an end. -/
def noTerminalIssues (d : Document) : List Issue :=
  if (terminals d).isEmpty && !d.nodes.isEmpty then
    [⟨.noTerminal, Place.root.key "nodes", "workflow has no end node"⟩]
  else []

/-- All issues of the structure of a document. -/
def issues (d : Document) : List Issue :=
  let edges := resolvedEdges d
  let sources := declaredSources d
  collisionIssues d ++ edgeIssues d ++ entryIssues d ++ reachIssues d ++
    (d.nodes.zipIdx.flatMap fun (n, i) => branchIssues d edges n i) ++
    (d.nodes.zipIdx.flatMap fun (n, i) => terminalIssues sources n i) ++ noTerminalIssues d

end Build

/-- The graph of a document, or the report on why it has none. -/
def Graph.build (d : Document) : Except Report Graph :=
  let found := Build.issues d
  match found, Build.agreedStart? d with
  | [], some entry =>
    let edges := Build.resolvedEdges d
    .ok { name := d.name
          description := d.description
          nodes := d.nodes
          edges := edges
          departures := Build.departures d.nodes.length edges
          entry := entry
          terminals := Build.terminals d
          branchTables := d.nodes.zipIdx.filterMap fun (n, i) => Build.branchTable? d edges n i }
  | _, _ => .error { issues := found, strict := false }

end Workflow
