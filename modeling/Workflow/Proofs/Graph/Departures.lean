import Mathlib
import Workflow.Proofs.Graph.Accept

/-!
# The edges that leave a node

A graph keeps for each node the places of the edges that leave it, noted edge by edge while it is built (`Build.departures`). What
is read off there are the edges that leave the node, all of them and in their order (`outgoing_graphAt`).
-/

namespace Workflow

namespace Build

variable {d : Document} {edges : List Edge} {size i : Nat}

/-- The items of a list with a property are those with it among the items and their positions. -/
theorem map_fst_filter_zipIdx {α : Type} (p : α → Bool) (l : List α) : (l.zipIdx.filter (p ·.1)).map (·.1) = l.filter p := by
  have hmap := List.filter_map (f := Prod.fst) (p := p) (l := l.zipIdx)
  rw [List.zipIdx_map_fst] at hmap
  exact hmap.symm

/-! ## One more edge -/

/-- One more edge is noted at the node that it leaves. -/
theorem departures_concat (size : Nat) (edges : List Edge) (e : Edge) :
    departures size (edges ++ [e]) = (departures size edges).modify e.source (· ++ [edges.length]) := by
  rw [departures, List.zipIdx_append, List.foldl_append, Nat.zero_add]
  rfl

/-- There is a row for each node, whatever is noted. -/
theorem length_departures (size : Nat) (edges : List Edge) : (departures size edges).length = size := by
  induction edges using List.reverseRecOn with
  | nil => exact List.length_replicate
  | append_singleton edges e ih => rw [departures_concat, List.length_modify, ih]

/-- What is noted at a node are the places of the edges that leave it. -/
theorem getElem?_departures (h : i < size) (edges : List Edge) :
    (departures size edges)[i]? = some ((edges.zipIdx.filter (·.1.source == i)).map (·.2)) := by
  induction edges using List.reverseRecOn with
  | nil => exact List.getElem?_replicate_of_lt h
  | append_singleton edges e ih =>
    rw [departures_concat, List.getElem?_modify, ih, List.zipIdx_append, List.filter_append, List.map_append, Nat.zero_add,
      List.zipIdx_singleton, List.filter_cons, List.filter_nil]
    by_cases he : e.source = i <;> simp [he]

/-! ## What is read off -/

/-- At the places of edges stand these edges. -/
theorem filterMap_places (p : Edge → Bool) (edges : List Edge) :
    ((edges.zipIdx.filter (p ·.1)).map (·.2)).filterMap (edges[·]?) = edges.filter p := by
  have hplaces : ∀ x ∈ edges.zipIdx.filter (p ·.1), ((edges[·]?) ∘ (·.2)) x = some x.1 := fun x hx =>
    List.mem_zipIdx_iff_getElem?.mp (List.mem_of_mem_filter hx)
  rw [List.filterMap_map, List.filterMap_congr hplaces, ← map_fst_filter_zipIdx p edges]
  exact congrFun List.filterMap_eq_map _

/-- The edges of a graph that leave a position are those of the document that do. -/
theorem outgoing_graphAt (d : Document) (s i : Nat) : (graphAt d s).outgoing i = leaving (resolvedEdges d) i := by
  rw [Graph.outgoing, graphAt, leaving]
  by_cases hi : i < d.nodes.length
  · rw [getElem?_departures hi]
    exact filterMap_places (·.source == i) (resolvedEdges d)
  · have hnone : ∀ e ∈ resolvedEdges d, ¬(e.source == i) = true := fun e he heq =>
      hi (beq_iff_eq.mp heq ▸ (lt_of_hop ⟨e, he, rfl, rfl⟩).1)
    rw [List.getElem?_eq_none (by rw [length_departures]; omega), List.filter_eq_nil_iff.mpr hnone]
    rfl

/-- An edge leaves the position that it names as its source, and no other. -/
theorem mem_outgoing {s : Nat} {e : Edge} : e ∈ (graphAt d s).outgoing i ↔ e ∈ (graphAt d s).edges ∧ e.source = i := by
  rw [outgoing_graphAt, leaving, List.mem_filter, beq_iff_eq]
  rfl

end Build

end Workflow
