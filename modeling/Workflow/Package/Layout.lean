import Workflow.Graph
import Workflow.Package.Naming
import Workflow.Package.Options

/-!
# The layout of a package

The names that the files of a package share: the package itself, the class of its state, and one identifier for each
node.
-/

namespace Workflow

/-- The names of a package. The slugs stand in the order of the nodes. -/
structure Layout where
  module : String
  stateClass : String
  slugs : List String

namespace Layout

/-- The layout of a graph's package. -/
def ofGraph (g : Graph) (options : Options) : Layout :=
  let module := identifierOf (options.moduleName.getD g.name) "workflow"
  { module := module
    stateClass := pascalCase module ++ "State"
    slugs := freshNames (g.nodes.map fun n => identifierOf n.id "node") }

/-- The identifier of the node at a position. -/
def slug (l : Layout) (i : Nat) : String := l.slugs[i]?.getD ""

/-- The path of a file of the package. -/
def file (l : Layout) (parts : List String) : String :=
  "/".intercalate (l.module :: parts)

end Layout

end Workflow
