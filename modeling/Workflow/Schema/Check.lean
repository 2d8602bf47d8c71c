import Workflow.Schema.Node

/-!
# Checking a document against the schema

Reads a document tree into a workflow document, with every issue of the schema in the order in which its fields are
looked at. A tree without errors gives a document; warnings are left to the verdict of the report.
-/

namespace Workflow

namespace Schema

/-- The keys of a document. -/
def documentKeys : List String := ["name", "description", "version", "entry", "entry_point", "nodes", "edges"]

/-- The keys of an edge. -/
def edgeKeys : List String := ["id", "source", "target", "from", "to", "condition", "display"]

/-- One end of an edge, under its key or under the outdated one. -/
def endpoint (entries : List (Tree × Tree)) (key outdated : String) (place : Place) : Reading String :=
  match Tree.field? key entries, Tree.field? outdated entries with
  | none, some value =>
    (textValue value (place.key outdated)).after
      [⟨.deprecatedField, place.key outdated, "'" ++ outdated ++ "' is deprecated, use '" ++ key ++ "'"⟩]
  | _, _ => requiredText entries key place

/-- The issues of the drawing data of an edge, which is looked at and not kept. -/
def edgeDisplayIssues (entries : List (Tree × Tree)) (place : Place) : List Issue :=
  match Tree.field? "display" entries with
  | none => []
  | some value =>
    if value.isNull then []
    else
      let place := place.key "display"
      let fields := mapping value place
      fields.issues ++ keyIssues (fields.value.getD []) displayKeys place .unusedDisplay "display metadata"

/-- An edge. -/
def edge (t : Tree) (place : Place) : Reading EdgeDecl :=
  (mapping t place).andThen fun entries =>
    let source := endpoint entries "source" "from" place
    let target := endpoint entries "target" "to" place
    let condition := optionalText entries "condition" place
    { value := do
        return { source := ← source.value, target := ← target.value, condition := ← condition.value }
      issues :=
        keyIssues entries edgeKeys place .unknownField "edge field" ++ source.issues ++ target.issues ++
          condition.issues ++ edgeDisplayIssues entries place }

/-- The id text of an item of the node list, whatever else the item holds. -/
def idText? (item : Tree) : Option String :=
  (item.get? "id").bind (·.text?)

/-- The position of the first item with a given id text. -/
def firstWithId? (texts : List (Option String)) (id : String) : Option Nat :=
  texts.findIdx? (· == some id)

/-- The issue of an item whose id text an earlier item has. `earlier` holds the id texts of the items before it. -/
def repeatedIdIssues (earlier : List (Option String)) (position : Nat) (item : Tree) (place : Place) : List Issue :=
  match idText? item with
  | none => []
  | some id =>
    match firstWithId? earlier id with
    | none => []
    | some first =>
      [⟨.duplicateId, place.key "id",
        "duplicate node id '" ++ id ++ "': declared at nodes[" ++ toString first ++ "] and nodes[" ++
          toString position ++ "]"⟩]

/-- The node list. -/
def nodes (ts : List Tree) (place : Place) : Reading (List Node) :=
  let texts := ts.map idText?
  items ts place fun position item place =>
    (node item place).after (repeatedIdIssues (texts.take position) position item place)

/-- The edge list. -/
def edges (ts : List Tree) (place : Place) : Reading (List EdgeDecl) :=
  items ts place fun _ => edge

/-- The version: a text, or a number that stands for its digits. -/
def version (entries : List (Tree × Tree)) : Reading (Option String) :=
  optionalField entries "version" Place.root fun value place =>
    match value with
    | .num n => .good (n.text .yaml)
    | other => textValue other place

/-- The entry, under `entry` or under the outdated `entry_point`. -/
def entry (entries : List (Tree × Tree)) : Reading String :=
  match Tree.field? "entry" entries, Tree.field? "entry_point" entries with
  | none, some value =>
    (textValue value (Place.root.key "entry_point")).after
      [⟨.deprecatedField, Place.root.key "entry_point", "'entry_point' is deprecated, use 'entry'"⟩]
  | _, _ => requiredText entries "entry" Place.root

/-- The whole document. -/
def document (t : Tree) : Reading Document :=
  match t with
  | .map entries =>
    let name := requiredText entries "name" Place.root
    let description := optionalText entries "description" Place.root
    let version := version entries
    let entry := entry entries
    let nodes := requiredSequence entries "nodes" Place.root nodes
    let edges := requiredSequence entries "edges" Place.root edges
    { value := do
        return {
          name := ← name.value
          description := ← description.value
          version := ← version.value
          entry := ← entry.value
          nodes := ← nodes.value
          edges := ← edges.value }
      issues :=
        keyIssues entries documentKeys Place.root .unknownField "top-level field" ++ name.issues ++
          description.issues ++ version.issues ++ entry.issues ++ nodes.issues ++ edges.issues }
  | other => .bad .notAMapping Place.root ("document root must be a mapping, found " ++ other.typeName)

/-- The report on a document tree. -/
def validate (t : Tree) (strict : Bool) : Report where
  issues := (document t).issues
  strict := strict

/-- The document of a tree, if the schema finds no error in it. -/
def check? (t : Tree) : Option Document :=
  let reading := document t
  if hasError reading.issues then none else reading.value

/-- A document in which the schema finds no error, with the report on it. -/
structure Checked where
  document : Document
  report : Report

/-- The document of a tree with the report on it, or the report alone if the schema finds an error. Warnings fail no tree
here, not even under strict checking: that is left to the verdict of the report. -/
def check (t : Tree) (strict : Bool) : Except Report Checked :=
  match check? t with
  | some document => .ok ⟨document, validate t strict⟩
  | none => .error (validate t strict)

end Schema

end Workflow
