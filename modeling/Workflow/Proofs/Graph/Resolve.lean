import Mathlib.Data.List.Forall2
import Mathlib.Data.List.Nodup
import Workflow.Graph.Build
import Workflow.Proofs.Graph.Sound

/-!
# From ids to positions

Statements about `lastIndexOf?`, the positions of nodes of a kind, and `resolvedEdges`. Ids and positions say the same as long
as the ids are distinct (`indexOf?_eq_some_iff`), and a document whose edges all name nodes keeps every edge, one for one
(`resolvedEdges_forall₂`).
-/

namespace Workflow

/-! ## Positions of ids -/

/-- The position found for an id holds that id. -/
theorem getElem?_of_lastIndexOf? {ids : List String} {id : String} {i : Nat} (h : lastIndexOf? ids id = some i) :
    ids[i]? = some id := by
  induction ids generalizing i with
  | nil => simp [lastIndexOf?] at h
  | cons x rest ih =>
    cases hr : lastIndexOf? rest id with
    | some j =>
      simp only [lastIndexOf?, hr, Option.some.injEq] at h
      subst h
      simpa using ih hr
    | none =>
      by_cases hx : x = id
      · simp only [lastIndexOf?, hr, hx, if_true, Option.some.injEq] at h
        subst h
        simp [hx]
      · simp [lastIndexOf?, hr, hx] at h

/-- No position is found exactly for what is not in the list. -/
theorem lastIndexOf?_eq_none_iff {ids : List String} {id : String} : lastIndexOf? ids id = none ↔ id ∉ ids := by
  induction ids with
  | nil => simp [lastIndexOf?]
  | cons x rest ih =>
    cases hr : lastIndexOf? rest id with
    | some j =>
      have hmem : id ∈ rest := List.mem_of_getElem? (getElem?_of_lastIndexOf? hr)
      simp [lastIndexOf?, hr, hmem]
    | none =>
      have hnot : id ∉ rest := ih.mp hr
      by_cases hx : x = id
      · simp [lastIndexOf?, hr, hx]
      · simp [lastIndexOf?, hr, hx, hnot, Ne.symm hx]

/-- In a list without repetitions the position of an id is the only one that holds it. -/
theorem lastIndexOf?_eq_some_iff {ids : List String} (hnd : ids.Nodup) {id : String} {i : Nat} :
    lastIndexOf? ids id = some i ↔ ids[i]? = some id := by
  refine ⟨getElem?_of_lastIndexOf?, fun h => ?_⟩
  cases hl : lastIndexOf? ids id with
  | none => exact absurd (List.mem_of_getElem? h) (lastIndexOf?_eq_none_iff.mp hl)
  | some j =>
    have hj := getElem?_of_lastIndexOf? hl
    have hlt := (List.getElem?_eq_some_iff.mp h).1
    rw [(List.getElem?_inj hlt hnd).mp (h.trans hj.symm)]

/-! ## Positions of the nodes of a kind -/

/-- The positions of the items with a property are those of such items. -/
theorem mem_positions {α : Type} {p : α → Bool} {l : List α} {i : Nat} :
    i ∈ (l.zipIdx.filter (p ·.1)).map (·.2) ↔ ∃ a, l[i]? = some a ∧ p a = true := by
  simp only [List.mem_map, List.mem_filter, List.mem_zipIdx_iff_getElem?, Prod.exists]
  constructor
  · intro hx
    obtain ⟨a, j, ⟨h, hp⟩, rfl⟩ := hx
    exact ⟨a, h, hp⟩
  · intro hx
    obtain ⟨a, h, hp⟩ := hx
    exact ⟨a, i, ⟨h, hp⟩, rfl⟩

/-- The positions of the items with a property stand in increasing order. -/
theorem pairwise_positions {α : Type} (p : α → Bool) (l : List α) :
    ((l.zipIdx.filter (p ·.1)).map (·.2)).Pairwise (· < ·) := by
  have hsub : ((l.zipIdx.filter (p ·.1)).map (·.2)).Sublist (l.zipIdx.map (·.2)) := List.filter_sublist.map _
  refine List.Pairwise.sublist hsub ?_
  rw [List.zipIdx_map_snd]
  exact List.pairwise_lt_range'

/-- There are as many positions as items with the property. -/
theorem length_positions {α : Type} (p : α → Bool) (l : List α) :
    ((l.zipIdx.filter (p ·.1)).map (·.2)).length = l.countP p := by
  have hfst : l.countP p = (l.zipIdx.map (·.1)).countP p := by rw [List.zipIdx_map_fst]
  rw [List.length_map, hfst, List.countP_map, List.countP_eq_length_filter]
  rfl

namespace Build

variable {d : Document}

/-! ## Ids of a document -/

/-- A position found for an id is that of a node with the id. -/
theorem node_of_indexOf? {id : String} {i : Nat} (h : indexOf? d id = some i) :
    ∃ n, d.nodes[i]? = some n ∧ n.id = id := by
  have hi := getElem?_of_lastIndexOf? h
  rwa [ids, List.getElem?_map, Option.map_eq_some_iff] at hi

/-- A position is found for an id exactly if some node has it. -/
theorem exists_indexOf?_iff {id : String} : (∃ i, indexOf? d id = some i) ↔ d.Names id := by
  constructor
  · intro h
    obtain ⟨i, hi⟩ := h
    obtain ⟨n, hn, hid⟩ := node_of_indexOf? hi
    exact ⟨n, List.mem_of_getElem? hn, hid⟩
  · intro h
    obtain ⟨n, hn, hid⟩ := h
    cases hi : indexOf? d id with
    | some i => exact ⟨i, rfl⟩
    | none => exact absurd (List.mem_map.mpr ⟨n, hn, hid⟩) (lastIndexOf?_eq_none_iff.mp hi)

/-- No position is found for an id exactly if no node has it. -/
theorem indexOf?_eq_none_iff {id : String} : indexOf? d id = none ↔ ¬d.Names id := by
  rw [← exists_indexOf?_iff, ← Option.isSome_iff_exists, Option.not_isSome_iff_eq_none]

/-- In a document with distinct ids the position found for an id is that of the only node with it. -/
theorem indexOf?_eq_some_iff (hnd : (ids d).Nodup) {id : String} {i : Nat} :
    indexOf? d id = some i ↔ ∃ n, d.nodes[i]? = some n ∧ n.id = id := by
  rw [indexOf?, lastIndexOf?_eq_some_iff hnd, ids, List.getElem?_map, Option.map_eq_some_iff]

/-- In a document with distinct ids a node is found at its own position. -/
theorem indexOf?_id (hnd : (ids d).Nodup) {n : Node} {i : Nat} (hn : d.nodes[i]? = some n) :
    indexOf? d n.id = some i :=
  (indexOf?_eq_some_iff hnd).mpr ⟨n, hn, rfl⟩

/-- A position that is found lies in the node list. -/
theorem indexOf?_lt {id : String} {i : Nat} (h : indexOf? d id = some i) : i < d.nodes.length := by
  obtain ⟨n, hn, -⟩ := node_of_indexOf? h
  exact (List.getElem?_eq_some_iff.mp hn).1

/-! ## Resolved edges -/

/-- A declared edge and the edge between positions that it becomes. -/
def Resolves (d : Document) (decl : EdgeDecl) (e : Edge) : Prop :=
  indexOf? d decl.source = some e.source ∧ indexOf? d decl.target = some e.target ∧ e.condition = decl.condition

/-- The resolved edges are those of the declared edges whose two ends name nodes, each at the place of its declaration. -/
theorem mem_resolvedEdges {e : Edge} :
    e ∈ resolvedEdges d ↔ ∃ decl, d.edges[e.position]? = some decl ∧ Resolves d decl e := by
  simp only [resolvedEdges, List.mem_filterMap, List.mem_zipIdx_iff_getElem?, Option.bind_eq_bind, Option.pure_def,
    Option.bind_eq_some_iff, Option.some.injEq, Prod.exists, Resolves]
  constructor
  · intro h
    obtain ⟨decl, i, hi, s, hs, t, ht, rfl⟩ := h
    exact ⟨decl, hi, hs, ht, rfl⟩
  · intro h
    obtain ⟨decl, hi, hs, ht, hc⟩ := h
    refine ⟨decl, e.position, hi, _, hs, _, ht, ?_⟩
    rw [← hc]

/-- A list of which every item has an image is matched with its images one for one. -/
theorem forall₂_filterMap {α β : Type} {f : α → Option β} {l : List α} (h : ∀ a ∈ l, ∃ b, f a = some b) :
    List.Forall₂ (fun a b => f a = some b) l (l.filterMap f) := by
  induction l with
  | nil => exact .nil
  | cons a l ih =>
    obtain ⟨b, hb⟩ := h a List.mem_cons_self
    rw [List.filterMap_cons_some hb]
    exact .cons hb (ih fun a ha => h a (List.mem_cons_of_mem _ ha))

/-- If all edges name nodes, every edge is resolved, in order and at its own place. -/
theorem resolvedEdges_zipIdx_forall₂ (h : ∀ e ∈ d.edges, d.Names e.source ∧ d.Names e.target) :
    List.Forall₂ (fun x e => Resolves d x.1 e ∧ e.position = x.2) d.edges.zipIdx (resolvedEdges d) := by
  refine (forall₂_filterMap ?_).imp ?_
  · rintro ⟨decl, i⟩ hmem
    obtain ⟨hs, ht⟩ := h decl (List.mem_of_getElem? (List.mem_zipIdx_iff_getElem?.mp hmem))
    obtain ⟨s, hs⟩ := exists_indexOf?_iff.mpr hs
    obtain ⟨t, ht⟩ := exists_indexOf?_iff.mpr ht
    exact ⟨⟨s, t, decl.condition, i⟩, by simp [hs, ht]⟩
  · rintro ⟨decl, i⟩ e he
    simp only [Option.bind_eq_bind, Option.pure_def, Option.bind_eq_some_iff, Option.some.injEq] at he
    obtain ⟨s, hs, t, ht, rfl⟩ := he
    exact ⟨⟨hs, ht, rfl⟩, rfl⟩

/-- If all edges name nodes, the declared edges and the resolved ones match one for one. -/
theorem resolvedEdges_forall₂ (h : ∀ e ∈ d.edges, d.Names e.source ∧ d.Names e.target) :
    List.Forall₂ (Resolves d) d.edges (resolvedEdges d) := by
  have hz := (resolvedEdges_zipIdx_forall₂ h).imp fun _ _ hx => hx.1
  have hm : List.Forall₂ (Resolves d) (d.edges.zipIdx.map (·.1)) (resolvedEdges d) := List.forall₂_map_left_iff.mpr hz
  rwa [List.zipIdx_map_fst] at hm

/-- If all edges name nodes and the ids are distinct, the resolved edges that leave a node match the edges declared to
leave it. -/
theorem leaving_forall₂ (hnd : (ids d).Nodup) (h : ∀ e ∈ d.edges, d.Names e.source ∧ d.Names e.target) {n : Node}
    {i : Nat} (hn : d.nodes[i]? = some n) :
    List.Forall₂ (Resolves d) (d.leaving n.id) (leaving (resolvedEdges d) i) := by
  refine List.rel_filter ?_ (resolvedEdges_forall₂ h)
  intro decl e he
  have hi := indexOf?_id hnd hn
  simp only [decide_eq_true_eq, beq_iff_eq]
  constructor
  · intro hs
    exact Option.some.inj (by rw [← he.1, hs, hi])
  · intro hs
    obtain ⟨m, hm, hid⟩ := node_of_indexOf? he.1
    rw [hs, hn, Option.some.injEq] at hm
    rw [← hid, hm]

/-- The conditions on the edges that leave a node are the same before and after its edges are resolved. -/
theorem leaving_conditions (hnd : (ids d).Nodup) (h : ∀ e ∈ d.edges, d.Names e.source ∧ d.Names e.target) {n : Node}
    {i : Nat} (hn : d.nodes[i]? = some n) :
    (leaving (resolvedEdges d) i).map (·.condition) = (d.leaving n.id).map (·.condition) := by
  have hc : List.Forall₂ (· = ·) ((d.leaving n.id).map (·.condition))
      ((leaving (resolvedEdges d) i).map (·.condition)) := by
    rw [List.forall₂_map_left_iff, List.forall₂_map_right_iff]
    exact (leaving_forall₂ hnd h hn).imp fun _ _ he => he.2.2.symm
  rw [List.forall₂_eq_eq_eq] at hc
  exact hc.symm

end Build

end Workflow
