import Mathlib
import Workflow.Proofs.Graph.Departures
import Workflow.Proofs.Graph.Kinds

/-!
# The graph of a document is its image

A graph that is built says what its document says, with positions for ids (`build_mirrors`): nodes, edges, entry, ends and
branch tables, and the summary of all of them.
-/

namespace Workflow

/-- A branch table of a graph is that of its node: its routes are the conditions and targets of the edges that leave the node,
in order, and its labels are the declared ones, each once. -/
structure BranchTable.Mirrors (t : BranchTable) (g : Graph) (b : Branching) : Prop where
  routes : t.routes.map (fun r => (some r.1, r.2)) = (g.outgoing t.node).map fun e => (e.condition, e.target)
  distinct : t.labels.Nodup
  labels : ∀ label, label ∈ t.labels ↔ label ∈ b.branches

/-- A summary is that of a document: the kinds stand in their order, exactly those that occur, with the number of their
nodes. -/
structure Summary.Mirrors (s : Summary) (d : Document) : Prop where
  name : s.name = d.name
  entry : s.entry = d.entry
  terminals : s.terminals = (d.nodes.filter (·.kind = .finish)).map (·.id)
  nodes : s.nodes = d.nodes.length
  edges : s.edges = d.edges.length
  conditionalNodes : s.conditionalNodes = d.nodes.countP (·.kind = .conditionalBranch)
  kindsIncrease : s.kinds.Pairwise fun a b => NodeKind.all.idxOf a.1 < NodeKind.all.idxOf b.1
  kinds : ∀ k count, (k, count) ∈ s.kinds ↔ count = d.nodes.countP (·.kind = k) ∧ 0 < count
  total : (s.kinds.map (·.2)).sum = d.nodes.length

/-- A graph is the image of a document. -/
structure Graph.Mirrors (g : Graph) (d : Document) : Prop where
  name : g.name = d.name
  description : g.description = d.description
  distinct : (d.nodes.map (·.id)).Nodup
  nodes : g.nodes = d.nodes
  indexOf : ∀ (i : Nat) (n : Node), d.nodes[i]? = some n → g.indexOf? n.id = some i
  edgeCount : g.edges.length = d.edges.length
  edgeAt : ∀ (j : Nat) (decl : EdgeDecl), d.edges[j]? = some decl → ∃ e : Edge, g.edges[j]? = some e ∧ e.position = j ∧
    e.condition = decl.condition ∧ (∃ n : Node, d.nodes[e.source]? = some n ∧ n.id = decl.source) ∧
      ∃ n : Node, d.nodes[e.target]? = some n ∧ n.id = decl.target
  outgoing : ∀ i e, e ∈ g.outgoing i ↔ e ∈ g.edges ∧ e.source = i
  outgoingIncrease : ∀ i, (g.outgoing i).Pairwise fun e f => e.position < f.position
  entry : ∃ n : Node, d.nodes[g.entry]? = some n ∧ n.kind = .start ∧ n.id = d.entry
  onlyStart : ∀ (i : Nat) (n : Node), d.nodes[i]? = some n → n.kind = .start → i = g.entry
  terminals : ∀ i : Nat, i ∈ g.terminals ↔ ∃ n : Node, d.nodes[i]? = some n ∧ n.kind = .finish
  terminalsIncrease : g.terminals.Pairwise (· < ·)
  reached : ∀ i < d.nodes.length, Relation.ReflTransGen (Build.Hop g.edges) g.entry i
  tables : ∀ i : Nat, (∃ t ∈ g.branchTables, t.node = i) ↔
    ∃ n : Node, d.nodes[i]? = some n ∧ n.kind = .conditionalBranch
  tablesIncrease : g.branchTables.Pairwise fun t u => t.node < u.node
  table : ∀ t ∈ g.branchTables, ∀ (n : Node) (b : Branching), d.nodes[t.node]? = some n →
    n.spec = .conditionalBranch b → t.Mirrors g b
  summary : g.summary.Mirrors d

namespace Build

variable {d : Document}

/-! ## Items of a list and of its positions -/

/-- What is said of the positions of the items with a property is said of those items. -/
theorem map_positions {α β : Type} {p : α → Bool} {l : List α} {f : Nat → β} {g : α → β}
    (h : ∀ i a, l[i]? = some a → f i = g a) : ((l.zipIdx.filter (p ·.1)).map (·.2)).map f = (l.filter p).map g := by
  rw [← map_fst_filter_zipIdx p l, List.map_map, List.map_map]
  refine List.map_congr_left fun x hx => ?_
  exact h x.2 x.1 (List.mem_zipIdx_iff_getElem?.mp (List.mem_of_mem_filter hx))

/-- What is computed of the items of a list and their positions stands in the order of the positions. -/
theorem pairwise_filterMap_zipIdx {α β : Type} {l : List α} {f : α × Nat → Option β} {position : β → Nat}
    (h : ∀ x ∈ l.zipIdx, ∀ b, f x = some b → position b = x.2) :
    (l.zipIdx.filterMap f).Pairwise fun a b => position a < position b := by
  have hlt : (l.zipIdx.map (·.2)).Pairwise (· < ·) := by
    rw [List.zipIdx_map_snd]
    exact List.pairwise_lt_range'
  rw [List.pairwise_map] at hlt
  refine List.pairwise_filterMap.mpr (hlt.imp_of_mem fun hx hy hxy a ha b hb => ?_)
  rw [h _ hx _ ha, h _ hy _ hb]
  exact hxy

/-! ## Edges -/

/-- Resolved edges stand in the order of their declarations. -/
theorem resolvedEdges_pairwise (d : Document) : (resolvedEdges d).Pairwise fun e f => e.position < f.position := by
  refine pairwise_filterMap_zipIdx fun x _ e he => ?_
  simp only [Option.bind_eq_bind, Option.pure_def, Option.bind_eq_some_iff, Option.some.injEq] at he
  obtain ⟨s, -, t, -, rfl⟩ := he
  rfl

/-- If all edges name nodes, the edge resolved at a place is that of the declaration there. -/
theorem resolvedEdges_getElem? (hnamed : ∀ e ∈ d.edges, d.Names e.source ∧ d.Names e.target) {j : Nat}
    {decl : EdgeDecl} (hj : d.edges[j]? = some decl) :
    ∃ e, (resolvedEdges d)[j]? = some e ∧ Resolves d decl e ∧ e.position = j := by
  have hall := resolvedEdges_zipIdx_forall₂ hnamed
  have hlen := hall.length_eq
  obtain ⟨hlt, hval⟩ := List.getElem?_eq_some_iff.mp hj
  have hx : j < d.edges.zipIdx.length := by rwa [List.length_zipIdx]
  have hy : j < (resolvedEdges d).length := hlen ▸ hx
  have hget := hall.get hx hy
  simp only [List.get_eq_getElem, List.getElem_zipIdx, Nat.zero_add, hval] at hget
  exact ⟨_, List.getElem?_eq_getElem hy, hget⟩

/-! ## Branch tables -/

/-- A branching node of a document without issues has the table of the edges that leave it. -/
theorem branchTable?_eq_some_iff (h : issues d = []) {n : Node} {i : Nat} (hn : d.nodes[i]? = some n) {t : BranchTable} :
    branchTable? d (resolvedEdges d) n i = some t ↔
      n.kind = .conditionalBranch ∧ t.node = i ∧
        t.routes = (leaving (resolvedEdges d) i).filterMap fun e => e.condition.map fun label => (label, e.target) := by
  have hnil := (issues_eq_nil_iff.mp h).2.2.2.2.1 i n hn
  rw [branchTable?]
  cases hl : n.spec.branchLabels? with
  | none => simp [branchLabels?_eq_none_iff.mp hl]
  | some labels =>
    obtain ⟨b, hb, -⟩ := branchLabels?_eq_some_iff.mp hl
    have hk : n.kind = .conditionalBranch := kind_eq_conditionalBranch_iff.mpr ⟨b, hb⟩
    obtain ⟨node, routes⟩ := t
    simp only [hnil, hk, List.isEmpty_nil, if_true, Option.some.injEq, BranchTable.mk.injEq, true_and]
    exact ⟨fun h => ⟨h.1.symm, h.2.symm⟩, fun h => ⟨h.1.symm, h.2.symm⟩⟩

/-- The branch tables of a document without issues are those of its branching nodes. -/
theorem mem_branchTables (h : issues d = []) {s : Nat} {t : BranchTable} :
    t ∈ (graphAt d s).branchTables ↔ (∃ n, d.nodes[t.node]? = some n ∧ n.kind = .conditionalBranch) ∧
      t.routes = (leaving (resolvedEdges d) t.node).filterMap fun e => e.condition.map fun label => (label, e.target) := by
  simp only [graphAt, List.mem_filterMap, Prod.exists, List.mem_zipIdx_iff_getElem?]
  constructor
  · intro hx
    obtain ⟨n, i, hn, ht⟩ := hx
    obtain ⟨hk, rfl, hroutes⟩ := (branchTable?_eq_some_iff h hn).mp ht
    exact ⟨⟨n, hn, hk⟩, hroutes⟩
  · intro hx
    obtain ⟨⟨n, hn, hk⟩, hroutes⟩ := hx
    exact ⟨n, t.node, hn, (branchTable?_eq_some_iff h hn).mpr ⟨hk, rfl, hroutes⟩⟩

/-- The positions with a branch table are those of branching nodes. -/
theorem exists_branchTable_iff (h : issues d = []) {s i : Nat} :
    (∃ t ∈ (graphAt d s).branchTables, t.node = i) ↔ ∃ n, d.nodes[i]? = some n ∧ n.kind = .conditionalBranch := by
  constructor
  · intro hx
    obtain ⟨t, ht, rfl⟩ := hx
    exact ((mem_branchTables h).mp ht).1
  · intro hn
    refine ⟨⟨i, (leaving (resolvedEdges d) i).filterMap fun e => e.condition.map fun label => (label, e.target)⟩, ?_, rfl⟩
    exact (mem_branchTables h).mpr ⟨hn, rfl⟩

/-- The branch tables stand in the order of their nodes. -/
theorem branchTables_pairwise (h : issues d = []) (s : Nat) :
    (graphAt d s).branchTables.Pairwise fun t u => t.node < u.node := by
  refine pairwise_filterMap_zipIdx fun x hx t ht => ?_
  exact ((branchTable?_eq_some_iff h (List.mem_zipIdx_iff_getElem?.mp hx)).mp ht).2.1

/-- If every edge of a list has a condition, its routes are the conditions and targets of all of them. -/
theorem map_routes {out : List Edge} (h : ∀ e ∈ out, ∃ label, e.condition = some label) :
    (out.filterMap fun e => e.condition.map fun label => (label, e.target)).map (fun r => (some r.1, r.2)) =
      out.map fun e => (e.condition, e.target) := by
  induction out with
  | nil => rfl
  | cons e out ih =>
    obtain ⟨label, hl⟩ := h e List.mem_cons_self
    rw [List.filterMap_cons_some (by rw [hl]; rfl), List.map_cons, List.map_cons,
      ih fun f hf => h f (List.mem_cons_of_mem _ hf), hl]

/-- The table of a branching node of a document without issues is that of its node. -/
theorem table_mirrors (h : issues d = []) {s : Nat} {t : BranchTable} (ht : t ∈ (graphAt d s).branchTables) {n : Node}
    {b : Branching} (hn : d.nodes[t.node]? = some n) (hb : n.spec = .conditionalBranch b) :
    t.Mirrors (graphAt d s) b := by
  have hanswers := (branchIssues_eq_nil_iff_of_branching hb).mp ((issues_eq_nil_iff.mp h).2.2.2.2.1 t.node n hn)
  have hlabelled : ∀ e ∈ leaving (resolvedEdges d) t.node, ∃ label, e.condition = some label := by
    intro e he
    obtain ⟨label, -, hc⟩ := hanswers.declared _ (List.mem_map_of_mem he)
    exact ⟨label, hc⟩
  have hroutes := map_routes hlabelled
  rw [← (mem_branchTables h).mp ht |>.2] at hroutes
  have hlabels : t.labels.map some = (leaving (resolvedEdges d) t.node).map (·.condition) := by
    have hfst := congrArg (List.map Prod.fst) hroutes
    simp only [List.map_map, Function.comp_def] at hfst
    rw [BranchTable.labels, List.map_map, ← hfst]
    rfl
  have hmem : ∀ label, label ∈ t.labels ↔ some label ∈ (leaving (resolvedEdges d) t.node).map (·.condition) := by
    intro label
    simp only [← hlabels, List.mem_map, Option.some.injEq, exists_eq_right]
  refine ⟨by rw [hroutes, outgoing_graphAt], List.Nodup.of_map some (hlabels ▸ hanswers.distinct), fun label => ?_⟩
  rw [hmem]
  constructor
  · intro hl
    obtain ⟨l, hl, hc⟩ := hanswers.declared _ hl
    rwa [Option.some.inj hc]
  · exact hanswers.complete label

/-! ## The summary -/

/-- There are as many branch tables as branching nodes. -/
theorem length_branchTables (h : issues d = []) (s : Nat) :
    (graphAt d s).branchTables.length = d.nodes.countP (·.kind = .conditionalBranch) := by
  have hincrease : ((graphAt d s).branchTables.map (·.node)).Pairwise (· < ·) :=
    List.pairwise_map.mpr (branchTables_pairwise h s)
  have hpositions := pairwise_positions (fun n : Node => decide (n.kind = .conditionalBranch)) d.nodes
  rw [← length_positions, ← hincrease.eq_of_mem_iff hpositions, List.length_map]
  intro i
  rw [mem_positions (p := fun n : Node => decide (n.kind = .conditionalBranch)), List.mem_map, exists_branchTable_iff h]
  simp only [decide_eq_true_eq]

/-- The summary of the graph of a document without issues is that of the document. -/
theorem summary_mirrors (h : issues d = []) {s : Nat} (hs : indexOf? d d.entry = some s) :
    (graphAt d s).summary.Mirrors d where
  name := rfl
  entry := idAt_of_indexOf? hs
  terminals := by
    have hfinish : (fun n : Node => n.kind.isTerminal) = fun n : Node => decide (n.kind = .finish) := by
      funext n
      rw [Bool.eq_iff_iff, isTerminal_iff, decide_eq_true_eq]
    have hids := map_positions (p := fun n : Node => n.kind.isTerminal) (l := d.nodes) (f := (graphAt d s).idAt)
      (g := (·.id)) fun i n hn => idAt_of_getElem? hn
    rwa [hfinish] at hids
  nodes := rfl
  edges := by
    have hnamed := (sound_of_issues_eq_nil h).edgesNamed
    exact (resolvedEdges_forall₂ hnamed).length_eq.symm
  conditionalNodes := length_branchTables h s
  kindsIncrease := (graphAt d s).kindCounts_pairwise
  kinds := (graphAt d s).counts_kindCounts.mem
  total := (graphAt d s).counts_kindCounts.total

/-- The graph of a document without issues is its image. -/
theorem graphAt_mirrors (h : issues d = []) {s : Nat} (hs : agreedStart? d = some s) : (graphAt d s).Mirrors d := by
  have hsound := sound_of_issues_eq_nil h
  have hnd : (ids d).Nodup := hsound.distinct
  obtain ⟨hstarts, hentry⟩ := agreedStart?_eq_some_iff.mp hs
  obtain ⟨start, hstart, hkind⟩ := mem_starts.mp (hstarts ▸ List.mem_singleton_self s)
  exact {
    name := rfl
    description := rfl
    distinct := hnd
    nodes := rfl
    indexOf := fun i n hn => indexOf?_id hnd hn
    edgeCount := (resolvedEdges_forall₂ hsound.edgesNamed).length_eq.symm
    edgeAt := by
      intro j decl hj
      obtain ⟨e, he, ⟨hsource, htarget, hcondition⟩, hposition⟩ := resolvedEdges_getElem? hsound.edgesNamed hj
      exact ⟨e, he, hposition, hcondition, node_of_indexOf? hsource, node_of_indexOf? htarget⟩
    outgoing := fun i e => mem_outgoing
    outgoingIncrease := fun i => by
      rw [outgoing_graphAt]
      exact (resolvedEdges_pairwise d).filter _
    entry := ⟨start, hstart, hkind, hsound.entryStarts start (List.mem_of_getElem? hstart) hkind⟩
    onlyStart := by
      intro i n hn hk
      have hi : i ∈ starts d := mem_starts.mpr ⟨n, hn, hk⟩
      rwa [hstarts, List.mem_singleton] at hi
    terminals := fun i => mem_terminals
    terminalsIncrease := pairwise_positions (fun n : Node => n.kind.isTerminal) d.nodes
    reached := (reachIssues_eq_nil_iff (root?_of_agreedStart? hs)).mp (issues_eq_nil_iff.mp h).2.2.2.1
    tables := fun i => exists_branchTable_iff h
    tablesIncrease := branchTables_pairwise h s
    table := fun t ht n b hn hb => table_mirrors h ht hn hb
    summary := summary_mirrors h hentry }

end Build

open Build

/-- A graph that is built is the image of its document. -/
theorem build_mirrors (d : Document) (g : Graph) (h : Graph.build d = .ok g) : g.Mirrors d := by
  obtain ⟨hnil, s, hs, rfl⟩ := build_eq_ok_iff.mp h
  exact graphAt_mirrors hnil hs

/-- The graph of the review loop, which begins at its second node. -/
theorem build_mirrors_reviewLoop :
    ∃ g, Graph.build reviewLoop = .ok g ∧ g.Mirrors reviewLoop ∧ g.entry = 1 ∧ g.terminals = [0] ∧
      g.branchTables = [⟨3, [("done", 0), ("again", 2)]⟩] ∧
      g.outgoing 3 = [⟨3, 0, some "done", 2⟩, ⟨3, 2, some "again", 3⟩] := by
  obtain ⟨g, hg⟩ : ∃ g, Graph.build reviewLoop = .ok g := ⟨_, rfl⟩
  refine ⟨g, hg, build_mirrors reviewLoop g hg, ?_⟩
  cases hg
  decide

end Workflow
