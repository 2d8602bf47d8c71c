import Workflow.Json

/-!
# Workflow documents

A workflow is a list of nodes, each of one of six kinds, joined by edges that may carry a condition. This module holds
the document as its author means it, before edges are matched with nodes.
-/

namespace Workflow

/-- The kinds of node, in their fixed order. -/
inductive NodeKind
  | start
  | llmCall
  | toolCall
  | conditionalBranch
  | transform
  | finish
  deriving DecidableEq

namespace NodeKind

/-- All kinds, in order. -/
def all : List NodeKind := [start, llmCall, toolCall, conditionalBranch, transform, finish]

/-- The place of a kind in their order. -/
def rank (k : NodeKind) : Nat := all.idxOf k

/-- The name of a kind in a document. -/
def text : NodeKind → String
  | start => "start"
  | llmCall => "llm-call"
  | toolCall => "tool-call"
  | conditionalBranch => "conditional-branch"
  | transform => "transform"
  | finish => "end"

/-- The kind with a name, if it is one. -/
def ofText? (s : String) : Option NodeKind :=
  all.find? (·.text == s)

/-- The configuration keys that a kind understands. -/
def configKeys : NodeKind → List String
  | start => ["inputs"]
  | llmCall => ["prompt", "prompt_template", "system", "model", "temperature", "output_key"]
  | toolCall => ["tool", "arguments", "output_key"]
  | conditionalBranch => ["on", "branches"]
  | transform => ["assign"]
  | finish => ["outputs"]

/-- Whether a node of the kind ends the workflow. -/
def isTerminal : NodeKind → Bool
  | finish => true
  | _ => false

end NodeKind

/-- The declared type of a state key. -/
inductive FieldType
  | string
  | number
  | integer
  | boolean
  | list
  | object
  | any
  deriving DecidableEq

namespace FieldType

/-- All types, in their fixed order. -/
def all : List FieldType := [string, number, integer, boolean, list, object, any]

/-- The name of a type. -/
def text : FieldType → String
  | string => "string"
  | number => "number"
  | integer => "integer"
  | boolean => "boolean"
  | list => "list"
  | object => "object"
  | any => "any"

/-- The type with a name or with one of the accepted short names. -/
def ofText? : String → Option FieldType
  | "string" | "str" => some string
  | "number" | "float" => some number
  | "integer" | "int" => some integer
  | "boolean" | "bool" => some boolean
  | "list" | "array" => some list
  | "object" | "dict" => some object
  | "any" => some any
  | _ => none

/-- The annotation of a state key of the type in a generated package. -/
def annotation : FieldType → String
  | string => "str"
  | number => "float"
  | integer => "int"
  | boolean => "bool"
  | list => "list"
  | object => "dict"
  | any => "Any"

end FieldType

/-- A state key with its declared type. -/
structure StateField where
  name : String
  type : FieldType
  deriving DecidableEq

/-- What a node that calls a language model is told. -/
structure LlmCall where
  prompt : String
  system : Option String
  model : Option String
  temperature : Option Double
  outputKey : Option String

/-- What a node that calls a tool is told. -/
structure ToolCall where
  tool : String
  arguments : Keyed Json
  outputKey : Option String

/-- What a branching node is told: the state key it reads, and the outcomes it knows. -/
structure Branching where
  on : String
  branches : List String

/-- The configuration of a node, which holds what its kind needs and nothing else. -/
inductive NodeSpec
  | start (inputs : List StateField)
  | llmCall (call : LlmCall)
  | toolCall (call : ToolCall)
  | conditionalBranch (branching : Branching)
  | transform (assign : Keyed Json)
  | finish (outputs : List String)

namespace NodeSpec

/-- The kind of node that the configuration is for. -/
def kind : NodeSpec → NodeKind
  | .start _ => .start
  | .llmCall _ => .llmCall
  | .toolCall _ => .toolCall
  | .conditionalBranch _ => .conditionalBranch
  | .transform _ => .transform
  | .finish _ => .finish

/-- The declared outcomes of a branching node. -/
def branchLabels? : NodeSpec → Option (List String)
  | .conditionalBranch b => some b.branches
  | _ => none

/-- The state keys that a node reads or writes. A type is known for declared inputs and for the text that a language
model gives back. -/
def stateFields : NodeSpec → List StateField
  | .start inputs => inputs
  | .llmCall call => call.outputKey.toList.map fun k => ⟨k, .string⟩
  | .toolCall call => call.outputKey.toList.map fun k => ⟨k, .any⟩
  | .conditionalBranch b => [⟨b.on, .any⟩]
  | .transform assign => assign.keys.map fun k => ⟨k, .any⟩
  | .finish outputs => outputs.map fun k => ⟨k, .any⟩

/-- The temperature of a call as a value. -/
def temperatureJson (t : Option Double) : Json :=
  match t with
  | none => .null
  | some x => .ofDouble x

/-- The configuration that a generated node module carries. -/
def payload : NodeSpec → Json
  | .start inputs => .record [("inputs", .record (inputs.map fun f => (f.name, .str f.type.text)))]
  | .llmCall call =>
    .record [("prompt", .str call.prompt), ("system", .optional call.system), ("model", .optional call.model),
      ("temperature", temperatureJson call.temperature), ("output_key", .optional call.outputKey)]
  | .toolCall call =>
    .record [("tool", .str call.tool), ("arguments", .obj call.arguments), ("output_key", .optional call.outputKey)]
  | .conditionalBranch b => .record [("on", .str b.on), ("branches", .arr (b.branches.map .str))]
  | .transform assign => .record [("assign", .obj assign)]
  | .finish outputs => .record [("outputs", .arr (outputs.map .str))]

/-- The fields of a configuration in the order of their declaration. -/
def fieldsJson : NodeSpec → List (String × Json)
  | .start inputs =>
    [("inputs", .arr (inputs.map fun f => .obj [("name", .str f.name), ("ty", .str f.type.text)]))]
  | .llmCall call =>
    [("prompt", .str call.prompt), ("system", .optional call.system), ("model", .optional call.model),
     ("temperature", temperatureJson call.temperature), ("output_key", .optional call.outputKey)]
  | .toolCall call =>
    [("tool", .str call.tool), ("arguments", .obj call.arguments), ("output_key", .optional call.outputKey)]
  | .conditionalBranch b => [("on", .str b.on), ("branches", .arr (b.branches.map .str))]
  | .transform assign => [("assign", .obj assign)]
  | .finish outputs => [("outputs", .arr (outputs.map .str))]

/-- The configuration as a value: its kind, then its fields. -/
def toJson (spec : NodeSpec) : Json :=
  .obj (("kind", .str spec.kind.text) :: spec.fieldsJson)

end NodeSpec

/-- A node as declared. The display value is for drawing tools and means nothing to the workflow. -/
structure Node where
  id : String
  spec : NodeSpec
  display : Option Json

/-- The kind of a node. -/
def Node.kind (n : Node) : NodeKind := n.spec.kind

/-- An edge as declared, naming its ends by their ids. -/
structure EdgeDecl where
  source : String
  target : String
  condition : Option String
  deriving DecidableEq

/-- A workflow document. Whether its edges and its entry name nodes is not settled here. -/
structure Document where
  name : String
  description : Option String
  version : Option String
  entry : String
  nodes : List Node
  edges : List EdgeDecl

/-- The node ids that a running graph uses for its own two ends. -/
def reservedIds : List String := ["__start__", "__end__"]

end Workflow
