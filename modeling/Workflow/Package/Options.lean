/-!
# Options of a package

What may be chosen about a generated package: its name, whether it carries comments, and for which version of the graph
framework it is written.
-/

namespace Workflow

/-- A version of the graph framework. The older one declares where a graph begins and ends by calls of their own, the
newer one by edges from and to two fixed nodes. -/
inductive FrameworkVersion
  | older
  | newer
  deriving DecidableEq

namespace FrameworkVersion

/-- The number of a version. -/
def text : FrameworkVersion → String
  | older => "0.1"
  | newer => "0.2"

/-- The refusal of a text that names no version. -/
structure Unsupported where
  name : String

/-- The wording of the refusal. -/
def Unsupported.message (u : Unsupported) : String :=
  "unsupported framework version '" ++ u.name ++ "' (expected 0.1 or 0.2)"

/-- The version that a text names, any number of letters `v` before it left aside. -/
def ofText (s : String) : Except Unsupported FrameworkVersion :=
  match String.ofList (s.toList.dropWhile (· == 'v')) with
  | "0.1" => .ok older
  | "0.2" => .ok newer
  | other => .error ⟨other⟩

end FrameworkVersion

/-- The choices for a package. Without a module name the package is named after the workflow. -/
structure Options where
  moduleName : Option String := none
  includeComments : Bool := true
  framework : FrameworkVersion := .newer
  deriving DecidableEq

end Workflow
