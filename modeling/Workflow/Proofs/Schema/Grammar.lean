import Mathlib.Data.List.Nodup
import Workflow.Document
import Workflow.Proofs.Number.Value
import Workflow.Schema.Value
import Workflow.Text.Blank

/-!
# The grammar of a workflow document

Which document trees are workflows, said on the tree alone: no order of looking, no issues, no warnings. Mappings, sequences,
texts and numbers are untagged ones; a key is a text through its tags. Nothing here looks at how a document is read.
-/

namespace Workflow

namespace Grammar

/-! ## Fields of a mapping -/

/-- Every key of a mapping is a text, tagged or not. -/
def TextKeys (entries : List (Tree × Tree)) : Prop := ∀ e ∈ entries, ∃ key, e.1.text? = some key

/-- A mapping whose keys are texts. -/
def IsMapping (t : Tree) : Prop := ∃ entries, t = .map entries ∧ TextKeys entries

/-- The field under a key is there and in form. -/
def Required (entries : List (Tree × Tree)) (key : String) (form : Tree → Prop) : Prop :=
  ∃ t, Tree.field? key entries = some t ∧ form t

/-- The field under a key is missing, null or in form. -/
def Optional (entries : List (Tree × Tree)) (key : String) (form : Tree → Prop) : Prop :=
  ∀ t, Tree.field? key entries = some t → t = .null ∨ form t

/-- The field under a key is in form, or the one under an outdated key if there is none under the key. -/
def Renamed (entries : List (Tree × Tree)) (key outdated : String) (form : Tree → Prop) : Prop :=
  ∃ t, (Tree.field? key entries).or (Tree.field? outdated entries) = some t ∧ form t

/-! ## Values -/

/-- A text with a character that is not blank. -/
def IsText (t : Tree) : Prop := ∃ s, t = .str s ∧ ∃ c ∈ s.toList, isBlank c = false

/-- A sequence of such texts. -/
def IsTextList (t : Tree) : Prop := ∃ ts, t = .seq ts ∧ ∀ u ∈ ts, IsText u

/-- A text that is not empty, has no blank at its ends and is not reserved. -/
def IsId (t : Tree) : Prop :=
  ∃ id, t = .str id ∧ id ≠ "" ∧ (∀ c ∈ id.toList.head?, isBlank c = false) ∧
    (∀ c ∈ id.toList.getLast?, isBlank c = false) ∧ id ≠ "__start__" ∧ id ≠ "__end__"

/-- A number from zero to two. -/
def IsTemperature (t : Tree) : Prop := ∃ n q, t = .num n ∧ n.value? = some q ∧ 0 ≤ q ∧ q ≤ 2

/-- A mapping whose keys are texts and whose values have a form as configuration values. -/
def IsObject (t : Tree) : Prop :=
  ∃ entries, t = .map entries ∧ TextKeys entries ∧ ∀ e ∈ entries, ∃ v, e.2.toJson = .ok v

/-- At least two texts, no two alike. -/
def IsLabels (t : Tree) : Prop := ∃ ts, t = .seq ts ∧ (∀ u ∈ ts, IsText u) ∧ 2 ≤ ts.length ∧ ts.Nodup

/-- The names of the types that an input may have, the short ones among them. -/
def typeNames : List String :=
  ["string", "str", "number", "float", "integer", "int", "boolean", "bool", "list", "array", "object", "dict", "any"]

/-- The inputs of a start node: under text keys the names of their types, null standing for any. -/
def IsInputs (t : Tree) : Prop :=
  ∃ entries, t = .map entries ∧ TextKeys entries ∧ ∀ e ∈ entries, e.2 = .null ∨ ∃ name ∈ typeNames, e.2 = .str name

/-! ## Nodes -/

/-- The configuration that a kind of node asks for. -/
def IsConfig : NodeKind → List (Tree × Tree) → Prop
  | .start, config => ∀ t, Tree.field? "inputs" config = some t → t.isNull = true ∨ IsInputs t
  | .llmCall, config =>
    Renamed config "prompt" "prompt_template" IsText ∧ Optional config "system" IsText ∧ Optional config "model" IsText ∧
      Optional config "temperature" IsTemperature ∧ Optional config "output_key" IsText
  | .toolCall, config =>
    Required config "tool" IsText ∧ Optional config "arguments" IsObject ∧ Optional config "output_key" IsText
  | .conditionalBranch, config => Required config "on" IsText ∧ Required config "branches" IsLabels
  | .transform, config => Required config "assign" fun t => IsObject t ∧ t ≠ .map []
  | .finish, config => Optional config "outputs" IsTextList

/-- The fields of a node. A configuration that is missing or null is an empty one. -/
structure IsNodeFields (entries : List (Tree × Tree)) : Prop where
  keys : TextKeys entries
  id : Required entries "id" IsId
  config : ∃ kind config, Renamed entries "kind" "type" (· = .str kind.text) ∧
    (Tree.field? "config" entries = some (.map config) ∨
      (Tree.field? "config" entries = none ∨ Tree.field? "config" entries = some .null) ∧ config = []) ∧
    TextKeys config ∧ IsConfig kind config
  display : Optional entries "display" fun t => IsMapping t ∧ ∃ v, t.toJson = .ok v

/-- A node. -/
def IsNode (t : Tree) : Prop := ∃ entries, t = .map entries ∧ IsNodeFields entries

/-- The id text of an item, whatever else the item is and under whatever tags. -/
def HasIdText (item : Tree) (id : String) : Prop := ∃ t, item.get? "id" = some t ∧ t.text? = some id

/-- The node list: no item has the id text of an earlier one. -/
def IsNodeList (t : Tree) : Prop :=
  ∃ ts, t = .seq ts ∧ (∀ u ∈ ts, IsNode u) ∧ ts.Pairwise fun earlier item => ∀ id, HasIdText item id → ¬HasIdText earlier id

/-! ## Edges and the document -/

/-- The fields of an edge. -/
structure IsEdgeFields (entries : List (Tree × Tree)) : Prop where
  keys : TextKeys entries
  source : Renamed entries "source" "from" IsText
  target : Renamed entries "target" "to" IsText
  condition : Optional entries "condition" IsText
  display : ∀ t, Tree.field? "display" entries = some t → t.isNull = true ∨ IsMapping t

/-- An edge. -/
def IsEdge (t : Tree) : Prop := ∃ entries, t = .map entries ∧ IsEdgeFields entries

/-- The edge list. -/
def IsEdgeList (t : Tree) : Prop := ∃ ts, t = .seq ts ∧ ∀ u ∈ ts, IsEdge u

/-- The fields of a workflow document. -/
structure IsWorkflowFields (entries : List (Tree × Tree)) : Prop where
  keys : TextKeys entries
  name : Required entries "name" IsText
  description : Optional entries "description" IsText
  version : Optional entries "version" fun t => IsText t ∨ ∃ n, t = .num n
  entry : Renamed entries "entry" "entry_point" IsText
  nodes : Required entries "nodes" IsNodeList
  edges : Required entries "edges" IsEdgeList

/-- A workflow document. -/
def IsWorkflow (t : Tree) : Prop := ∃ entries, t = .map entries ∧ IsWorkflowFields entries

end Grammar

end Workflow
