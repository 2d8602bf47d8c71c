import Workflow.Package.Files

/-!
# The file that assembles the graph

The calls that add the nodes, the entry, the edges and the ends of a workflow to a graph of the framework, and a routing
function for each branching node.
-/

namespace Workflow

namespace Package

/-- The name of the routing function of a node. -/
def routeFunction (slug : String) : String := "route_" ++ slug

/-- The labels of a table as literals in a row. -/
def labelRow (t : BranchTable) : String := ", ".intercalate (t.labels.map stringLiteral)

/-- The routing function of a branching node: the value of its state key, if that is one of the labels. -/
def routeLines (l : Layout) (n : Node) (on : String) (t : BranchTable) : List Line :=
  [blankLine, blankLine,
   top ("def " ++ routeFunction (l.slug t.node) ++ "(state: " ++ l.stateClass ++ ") -> Literal[" ++ labelRow t ++ "]:"),
   inner ("value = state.get(" ++ stringLiteral on ++ ")"),
   inner ("if value in (" ++ labelRow t ++ "):"),
   inner2 "return value",
   inner ("raise ValueError(" ++ stringLiteral ("no branch of node '" ++ n.id ++ "' matches ") ++ " + repr(value))")]

/-- The routing function of a table, which belongs to a branching node. -/
def tableLines (g : Graph) (l : Layout) (t : BranchTable) : List Line :=
  match g.nodes[t.node]? with
  | some n =>
    match n.spec with
    | .conditionalBranch b => routeLines l n b.on t
    | _ => []
  | none => []

/-- The call that adds a node. -/
def addNodeLines (l : Layout) (options : Options) (n : Node) (i : Nat) : List Line :=
  nodeComment n options 1 ++
    [inner ("builder.add_node(" ++ stringLiteral n.id ++ ", nodes." ++ l.slug i ++ ".run)")]

/-- The call that declares the entry. -/
def entryLine (g : Graph) (framework : FrameworkVersion) : Line :=
  let id := stringLiteral (g.idAt g.entry)
  match framework with
  | .newer => inner ("builder.add_edge(START, " ++ id ++ ")")
  | .older => inner ("builder.set_entry_point(" ++ id ++ ")")

/-- The call that adds all conditional edges of a branching node. -/
def conditionalLines (g : Graph) (l : Layout) (t : BranchTable) : List Line :=
  [inner "builder.add_conditional_edges(", inner2 (stringLiteral (g.idAt t.node) ++ ","),
   inner2 (routeFunction (l.slug t.node) ++ ","), inner2 "\x7b"] ++
    (t.routes.map fun (label, target) => ⟨3, stringLiteral label ++ ": " ++ stringLiteral (g.idAt target) ++ ","⟩) ++
    [inner2 "\x7d,", inner ")"]

/-- The calls of an edge, given the edges before it. The conditional edges of a node are added together, where the first
of them stands. -/
def edgeLines (g : Graph) (l : Layout) (earlier : List Edge) (e : Edge) : List Line :=
  match e.condition with
  | none =>
    [inner ("builder.add_edge(" ++ stringLiteral (g.idAt e.source) ++ ", " ++ stringLiteral (g.idAt e.target) ++ ")")]
  | some _ =>
    if earlier.any fun f => f.source == e.source && f.condition.isSome then []
    else
      match g.branchTable? e.source with
      | some t => conditionalLines g l t
      | none => []

/-- The call that declares an end. -/
def finishLine (g : Graph) (framework : FrameworkVersion) (i : Nat) : Line :=
  let id := stringLiteral (g.idAt i)
  match framework with
  | .newer => inner ("builder.add_edge(" ++ id ++ ", END)")
  | .older => inner ("builder.set_finish_point(" ++ id ++ ")")

/-- The imports of the file. -/
def assemblyImports (g : Graph) (l : Layout) (options : Options) : List Line :=
  (if g.branchTables.isEmpty then [] else [top "from typing import Literal", blankLine]) ++
    [top (match options.framework with
      | .newer => "from langgraph.graph import END, START, StateGraph"
      | .older => "from langgraph.graph import StateGraph"),
     blankLine,
     top "from . import nodes",
     top ("from .state import " ++ l.stateClass)]

/-- The body of the function that builds the graph. -/
def buildLines (g : Graph) (l : Layout) (options : Options) : List Line :=
  [inner ("builder = StateGraph(" ++ l.stateClass ++ ")")] ++
    (g.nodes.zipIdx.flatMap fun (n, i) => addNodeLines l options n i) ++
    [blankLine, entryLine g options.framework] ++
    (g.edges.zipIdx.flatMap fun (e, k) => edgeLines g l (g.edges.take k) e) ++
    g.terminals.map (finishLine g options.framework) ++
    [inner "return builder"]

/-- The file that assembles the graph. -/
def assemblyLines (g : Graph) (l : Layout) (options : Options) : List Line :=
  header g options "Graph assembly" ++ assemblyImports g l options ++ g.branchTables.flatMap (tableLines g l) ++
    [blankLine, blankLine, top "def build_graph() -> StateGraph:"] ++ buildLines g l options ++
    [blankLine, blankLine, top "graph = build_graph().compile()"]

end Package

end Workflow
