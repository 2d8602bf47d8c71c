import Mathlib
import Workflow.Graph.Build

/-!
# Drawings

The display values of the nodes are for drawing tools. A document without them has the same issues in the same places, and the same
graph without them (`build_undrawn`), so that documents that differ in their display values alone are built or refused alike.
-/

namespace Workflow

/-- A node without its display value. -/
def Node.undrawn (n : Node) : Node := { n with display := none }

/-- A document without the display values of its nodes. -/
def Document.undrawn (d : Document) : Document := { d with nodes := d.nodes.map Node.undrawn }

/-- A graph without the display values of its nodes. -/
def Graph.undrawn (g : Graph) : Graph := { g with nodes := g.nodes.map Node.undrawn }

namespace Node

variable {n : Node}

@[simp] theorem undrawn_id : n.undrawn.id = n.id := rfl

@[simp] theorem undrawn_spec : n.undrawn.spec = n.spec := rfl

@[simp] theorem undrawn_kind : n.undrawn.kind = n.kind := rfl

end Node

/-- The ids of nodes do not depend on their display values. -/
@[simp] theorem idAt_map_undrawn (nodes : List Node) : idAt (nodes.map Node.undrawn) = idAt nodes := by
  funext i
  simp [idAt, Function.comp_def]

namespace Document

variable {d : Document}

@[simp] theorem undrawn_nodes : d.undrawn.nodes = d.nodes.map Node.undrawn := rfl

@[simp] theorem undrawn_edges : d.undrawn.edges = d.edges := rfl

@[simp] theorem undrawn_entry : d.undrawn.entry = d.entry := rfl

end Document

/-!
## Building

None of the steps of building a graph looks at a display value: what they make of the nodes is made of their ids and configurations.
-/

namespace Build

open Document

variable {d : Document}

@[simp] theorem ids_undrawn : ids d.undrawn = ids d := by
  simp [ids]

@[simp] theorem indexOf?_undrawn (id : String) : indexOf? d.undrawn id = indexOf? d id := by
  simp [indexOf?]

@[simp] theorem stateKeys_undrawn : stateKeys d.undrawn = stateKeys d := by
  simp [stateKeys, List.flatMap_map]

@[simp] theorem collisionIssues_undrawn : collisionIssues d.undrawn = collisionIssues d := by
  rw [collisionIssues, collisionIssues, stateKeys_undrawn, undrawn_nodes, List.zipIdx_map, List.filterMap_map]
  rfl

@[simp] theorem danglingIssue_undrawn (place : Place) (what id : String) :
    danglingIssue d.undrawn place what id = danglingIssue d place what id := by
  simp [danglingIssue]

@[simp] theorem edgeIssues_undrawn : edgeIssues d.undrawn = edgeIssues d := by
  simp [edgeIssues]

@[simp] theorem resolvedEdges_undrawn : resolvedEdges d.undrawn = resolvedEdges d := by
  simp [resolvedEdges]

@[simp] theorem declaredSources_undrawn : declaredSources d.undrawn = declaredSources d := by
  simp [declaredSources]

@[simp] theorem starts_undrawn : starts d.undrawn = starts d := by
  rw [starts, starts, undrawn_nodes, List.zipIdx_map, List.filter_map, List.map_map]
  rfl

@[simp] theorem terminals_undrawn : terminals d.undrawn = terminals d := by
  rw [terminals, terminals, undrawn_nodes, List.zipIdx_map, List.filter_map, List.map_map]
  rfl

@[simp] theorem entryIssues_undrawn : entryIssues d.undrawn = entryIssues d := by
  simp [entryIssues, Function.comp_def]

@[simp] theorem agreedStart?_undrawn : agreedStart? d.undrawn = agreedStart? d := by
  simp [agreedStart?]

@[simp] theorem root?_undrawn : root? d.undrawn = root? d := by
  simp [root?]

@[simp] theorem islandIssues_undrawn (next : List Nat) (rootId : String) (i : Nat) (members : List Nat) :
    islandIssues d.undrawn next rootId i members = islandIssues d next rootId i members := by
  simp [islandIssues]

@[simp] theorem reachIssues_undrawn : reachIssues d.undrawn = reachIssues d := by
  simp [reachIssues]

@[simp] theorem branchIssues_undrawn (edges : List Edge) (n : Node) (i : Nat) :
    branchIssues d.undrawn edges n.undrawn i = branchIssues d edges n i := by
  have hplain : plainEdgeIssue d.undrawn n.undrawn = plainEdgeIssue d n := by
    funext e
    simp [plainEdgeIssue]
  have hbranch : branchEdgeIssue d.undrawn n.undrawn = branchEdgeIssue d n := by
    funext declared earlier e
    rw [branchEdgeIssue, branchEdgeIssue, undrawn_nodes, idAt_map_undrawn, Node.undrawn_id]
  rw [branchIssues, branchIssues, hplain, hbranch]
  rfl

@[simp] theorem branchTable?_undrawn (edges : List Edge) (n : Node) (i : Nat) :
    branchTable? d.undrawn edges n.undrawn i = branchTable? d edges n i := by
  simp [branchTable?]

theorem filterMap_branchTable?_undrawn (edges : List Edge) :
    (d.undrawn.nodes.zipIdx.filterMap fun (n, i) => branchTable? d.undrawn edges n i) =
      d.nodes.zipIdx.filterMap fun (n, i) => branchTable? d edges n i := by
  rw [undrawn_nodes, List.zipIdx_map, List.filterMap_map]
  simp

@[simp] theorem terminalIssues_undrawn (sources : List (Option Nat)) (n : Node) (i : Nat) :
    terminalIssues sources n.undrawn i = terminalIssues sources n i := rfl

@[simp] theorem noTerminalIssues_undrawn : noTerminalIssues d.undrawn = noTerminalIssues d := by
  simp [noTerminalIssues]

/-- A document has the same issues without its display values. -/
@[simp] theorem issues_undrawn : issues d.undrawn = issues d := by
  simp [issues, List.zipIdx_map, List.flatMap_map]

end Build

/-! ## Graphs -/

open Build Document

/-- A document without display values has the graph of the document without them, or is refused with the same report. -/
theorem build_undrawn (d : Document) : Graph.build d.undrawn = (Graph.build d).map Graph.undrawn := by
  have hlength : d.undrawn.nodes.length = d.nodes.length := List.length_map _
  simp only [Graph.build, issues_undrawn, agreedStart?_undrawn, resolvedEdges_undrawn, terminals_undrawn,
    filterMap_branchTable?_undrawn, hlength]
  split <;> rfl

/-- Documents that differ in display values alone are refused with the same report, or have graphs that differ in them alone. -/
theorem build_of_undrawn_eq {d d' : Document} (h : d.undrawn = d'.undrawn) :
    (∃ r, Graph.build d = .error r ∧ Graph.build d' = .error r) ∨
      ∃ g g', Graph.build d = .ok g ∧ Graph.build d' = .ok g' ∧ g.undrawn = g'.undrawn := by
  have hmap : (Graph.build d).map Graph.undrawn = (Graph.build d').map Graph.undrawn := by
    rw [← build_undrawn, ← build_undrawn, h]
  cases hd : Graph.build d with
  | error r =>
    cases hd' : Graph.build d' with
    | error r' =>
      rw [hd, hd'] at hmap
      cases hmap
      exact Or.inl ⟨r, rfl, rfl⟩
    | ok g' =>
      rw [hd, hd'] at hmap
      cases hmap
  | ok g =>
    cases hd' : Graph.build d' with
    | error r' =>
      rw [hd, hd'] at hmap
      cases hmap
    | ok g' =>
      rw [hd, hd'] at hmap
      exact Or.inr ⟨g, g', rfl, rfl, Except.ok.inj hmap⟩

namespace Graph

variable {g : Graph}

@[simp] theorem undrawn_nodes : g.undrawn.nodes = g.nodes.map Node.undrawn := rfl

@[simp] theorem undrawn_entry : g.undrawn.entry = g.entry := rfl

@[simp] theorem idAt_undrawn : g.undrawn.idAt = g.idAt := idAt_map_undrawn g.nodes

/-- A graph has the same overview without its display values. -/
theorem summary_undrawn : g.undrawn.summary = g.summary := by
  have hkinds : g.undrawn.kindCounts = g.kindCounts := by
    rw [kindCounts, kindCounts, undrawn_nodes, List.foldl_map]
    rfl
  rw [summary, hkinds, idAt_undrawn, undrawn_nodes, List.length_map]
  rfl

end Graph

end Workflow
