import Workflow.Package.Assembly

/-!
# Generating a package

The files of the package of a graph, in their order. Before any file is written out, the graph is looked at once more
for what the files rely on.
-/

namespace Workflow

/-- A file of a package, its path relative to the directory that the package is put into. -/
structure Artifact where
  path : String
  contents : String
  deriving DecidableEq

/-- What a graph may lack that the files of its package rely on. -/
inductive GraphDefect
  | entryNotStart (id : String)
  | branchTableMismatch (id : String) (declared found : List String)
  | terminalHasSuccessor (id : String)
  | danglingNode (id : String)
  deriving DecidableEq

/-- The wording of a defect. -/
def GraphDefect.message : GraphDefect → String
  | .entryNotStart id => "internal error: entry node '" ++ id ++ "' is not a start node"
  | .branchTableMismatch id declared found =>
    "internal error: branch table of node '" ++ id ++ "' covers [" ++ ", ".intercalate found ++
      "] but the node declares [" ++ ", ".intercalate declared ++ "]"
  | .terminalHasSuccessor id => "internal error: terminal node '" ++ id ++ "' has outgoing edges"
  | .danglingNode id => "internal error: node '" ++ id ++ "' has no outgoing edges and is not terminal"

namespace Package

/-- Whether the labels of a table are the declared ones: as many, and every declared one among them. -/
def covers (declared found : List String) : Bool :=
  found.length == declared.length && declared.all (· ∈ found)

/-- The defect of a node, if it has one. -/
def nodeDefect? (g : Graph) (n : Node) (i : Nat) : Option GraphDefect :=
  let found := ((g.branchTable? i).map (·.labels)).getD []
  let mismatch : Option GraphDefect :=
    match n.spec.branchLabels? with
    | some declared => if covers declared found then none else some (.branchTableMismatch n.id declared found)
    | none => none
  mismatch.or <|
    if n.kind.isTerminal then
      if (g.outgoing i).isEmpty then none else some (.terminalHasSuccessor n.id)
    else if (g.outgoing i).isEmpty then some (.danglingNode n.id) else none

/-- The defect of the entry, if it is not a start node. -/
def entryDefect? (g : Graph) : Option GraphDefect :=
  match g.nodes[g.entry]? with
  | some n => if n.kind = .start then none else some (.entryNotStart n.id)
  | none => some (.entryNotStart "")

/-- The first defect of a graph. -/
def defect? (g : Graph) : Option GraphDefect :=
  (entryDefect? g).or (g.nodes.zipIdx.findSome? fun (n, i) => nodeDefect? g n i)

/-- A file of a package from its lines. -/
def artifact (l : Layout) (parts : List String) (lines : List Line) : Artifact where
  path := l.file parts
  contents := renderLines lines

/-- The files of a package. -/
def artifacts (g : Graph) (options : Options) : List Artifact :=
  let l := Layout.ofGraph g options
  [artifact l ["__init__.py"] (packageLines g l options),
   artifact l ["state.py"] (stateLines g l options),
   artifact l ["runtime.py"] (runtimeLines g options),
   artifact l ["nodes", "__init__.py"] (nodeIndexLines g l options)] ++
    (g.nodes.zipIdx.map fun (n, i) => artifact l ["nodes", l.slug i ++ ".py"] (nodeLines g n l options)) ++
    [artifact l ["graph.py"] (assemblyLines g l options)]

end Package

/-- The package of a graph, or the defect that stands in its way. -/
def generate (g : Graph) (options : Options) : Except GraphDefect (List Artifact) :=
  match Package.defect? g with
  | some defect => .error defect
  | none => .ok (Package.artifacts g options)

end Workflow
