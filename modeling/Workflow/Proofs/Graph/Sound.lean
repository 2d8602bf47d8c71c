import Mathlib.Logic.Relation
import Workflow.Document

/-!
# Sound workflows

What a workflow document has to be for its graph to exist, said on ids and declared edges alone, without positions. Nothing
here looks at how a graph is built.
-/

namespace Workflow

namespace Document

/-- The edges declared to leave the node with an id, in order. -/
def leaving (d : Document) (id : String) : List EdgeDecl := d.edges.filter (·.source = id)

/-- Some edge is declared from the first id to the second. -/
def Joins (d : Document) (a b : String) : Prop := ∃ e ∈ d.edges, e.source = a ∧ e.target = b

/-- An id stands on some node. -/
def Names (d : Document) (id : String) : Prop := ∃ n ∈ d.nodes, n.id = id

end Document

/-- The conditions on the edges that leave a branching node answer to its labels: each condition is one of the labels, no two
are the same, and every label is among them. -/
structure AnswersLabels (labels : List String) (conditions : List (Option String)) : Prop where
  declared : ∀ c ∈ conditions, ∃ label ∈ labels, c = some label
  distinct : conditions.Nodup
  complete : ∀ label ∈ labels, some label ∈ conditions

/-- A sound workflow. -/
structure Document.Sound (d : Document) : Prop where
  distinct : (d.nodes.map (·.id)).Nodup
  edgesNamed : ∀ e ∈ d.edges, d.Names e.source ∧ d.Names e.target
  entryNamed : d.Names d.entry
  oneStart : d.nodes.countP (·.kind = .start) = 1
  entryStarts : ∀ n ∈ d.nodes, n.kind = .start → n.id = d.entry
  reached : ∀ n ∈ d.nodes, Relation.ReflTransGen d.Joins d.entry n.id
  branching : ∀ n ∈ d.nodes, ∀ b, n.spec = .conditionalBranch b →
    AnswersLabels b.branches ((d.leaving n.id).map (·.condition))
  plain : ∀ n ∈ d.nodes, n.kind ≠ .conditionalBranch → ∀ e ∈ d.leaving n.id, e.condition = none
  ends : ∀ n ∈ d.nodes, n.kind = .finish ↔ d.leaving n.id = []
  someEnd : ∃ n ∈ d.nodes, n.kind = .finish
  apart : ∀ n ∈ d.nodes, ∀ m ∈ d.nodes, ∀ f ∈ m.spec.stateFields, f.name ≠ n.id

end Workflow
