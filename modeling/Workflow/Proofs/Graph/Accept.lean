import Workflow.Proofs.Graph.Codes

/-!
# What has a graph

A graph is built of exactly the sound documents (`build_ok_iff_sound`). That the ids are distinct is nowhere looked at: of two
nodes with one id only the last is found by it, so no edge and no entry leads to the first, and it is out of reach
(`ids_nodup_of_reached`).
-/

namespace Workflow

namespace Build

variable {d : Document}

/-- The graph of a document whose structure has no issue. -/
def graphAt (d : Document) (entry : Nat) : Graph where
  name := d.name
  description := d.description
  nodes := d.nodes
  edges := resolvedEdges d
  departures := departures d.nodes.length (resolvedEdges d)
  entry := entry
  terminals := terminals d
  branchTables := d.nodes.zipIdx.filterMap fun (n, i) => branchTable? d (resolvedEdges d) n i

/-- A graph is built exactly of a document without issues whose entry is agreed upon. -/
theorem build_eq_ok_iff {g : Graph} :
    Graph.build d = .ok g ↔ issues d = [] ∧ ∃ s, agreedStart? d = some s ∧ g = graphAt d s := by
  rw [Graph.build]
  rcases hi : issues d with _ | ⟨i, rest⟩ <;> rcases ha : agreedStart? d with _ | s
  · simp
  · simp only [Except.ok.injEq, true_and, Option.some.injEq, exists_eq_left', eq_comm, graphAt]
  · simp
  · simp

/-- The graph of a document has its nodes. -/
theorem nodes_eq_of_build {g : Graph} (h : Graph.build d = .ok g) : g.nodes = d.nodes := by
  obtain ⟨-, s, -, rfl⟩ := build_eq_ok_iff.mp h
  rfl

/-- The structure of a document has no issue exactly if each of its checks finds nothing. -/
theorem issues_eq_nil_iff :
    issues d = [] ↔ collisionIssues d = [] ∧ edgeIssues d = [] ∧ entryIssues d = [] ∧ reachIssues d = [] ∧
      (∀ i n, d.nodes[i]? = some n → branchIssues d (resolvedEdges d) n i = []) ∧
      (∀ i n, d.nodes[i]? = some n → terminalIssues (declaredSources d) n i = []) ∧ noTerminalIssues d = [] := by
  rw [issues]
  simp only [List.append_eq_nil_iff, List.flatMap_eq_nil_iff]
  rw [forall_mem_zipIdx (p := fun n i => branchIssues d (resolvedEdges d) n i = []),
    forall_mem_zipIdx (p := fun n i => terminalIssues (declaredSources d) n i = [])]
  simp only [and_assoc]

/-- What keeps a document from having a graph is an issue of its structure. -/
theorem build_eq_error_iff {r : Report} :
    Graph.build d = .error r ↔ issues d ≠ [] ∧ r = { issues := issues d, strict := false } := by
  have hagreed : issues d = [] → ∃ s, agreedStart? d = some s := fun h =>
    entryIssues_eq_nil_iff.mp (issues_eq_nil_iff.mp h).2.2.1
  rw [Graph.build]
  rcases hi : issues d with _ | ⟨i, rest⟩
  · obtain ⟨s, hs⟩ := hagreed hi
    simp [hs]
  · simp [eq_comm]

/-! ## Distinct ids -/

/-- If the entry and the resolved edges lead to every position, every position is found by some id. -/
theorem exists_indexOf?_of_reached {root : Nat} (hroot : indexOf? d d.entry = some root) {i : Nat}
    (h : Relation.ReflTransGen (Hop (resolvedEdges d)) root i) : ∃ id, indexOf? d id = some i := by
  rcases Relation.ReflTransGen.cases_tail h with rfl | ⟨j, -, e, he, -, rfl⟩
  · exact ⟨d.entry, hroot⟩
  · obtain ⟨decl, -, -, ht, -⟩ := mem_resolvedEdges.mp he
    exact ⟨decl.target, ht⟩

/-- If the entry and the resolved edges lead to every position, no two nodes have one id. -/
theorem ids_nodup_of_reached {root : Nat} (hroot : indexOf? d d.entry = some root)
    (h : ∀ i < d.nodes.length, Relation.ReflTransGen (Hop (resolvedEdges d)) root i) : (ids d).Nodup := by
  rw [List.nodup_iff_getElem?_ne_getElem?]
  intro i j hij hj heq
  rw [ids, List.length_map] at hj
  obtain ⟨a, ha⟩ := exists_indexOf?_of_reached hroot (h i (by omega))
  obtain ⟨b, hb⟩ := exists_indexOf?_of_reached hroot (h j hj)
  have hab : a = b := by
    have h1 := getElem?_of_lastIndexOf? ha
    have h2 := getElem?_of_lastIndexOf? hb
    rw [heq, h2, Option.some.injEq] at h1
    exact h1.symm
  subst hab
  rw [ha, Option.some.injEq] at hb
  omega

/-! ## Start nodes -/

/-- There are as many start positions as start nodes. -/
theorem length_starts : (starts d).length = d.nodes.countP (·.kind = .start) :=
  length_positions (fun n : Node => n.kind == .start) d.nodes

/-- In a document with distinct ids the entry is agreed upon exactly if there is one start node and the entry is its id. -/
theorem agreedStart?_iff (hnd : (ids d).Nodup) :
    (∃ s, agreedStart? d = some s) ↔
      d.nodes.countP (·.kind = .start) = 1 ∧ ∀ n ∈ d.nodes, n.kind = .start → n.id = d.entry := by
  simp only [agreedStart?_eq_some_iff, ← length_starts]
  constructor
  · intro h
    obtain ⟨s, hs, he⟩ := h
    refine ⟨by rw [hs]; rfl, fun n hn hk => ?_⟩
    obtain ⟨i, hi⟩ := List.mem_iff_getElem?.mp hn
    have his : i ∈ starts d := mem_starts.mpr ⟨n, hi, hk⟩
    rw [hs, List.mem_singleton] at his
    obtain ⟨m, hm, hid⟩ := node_of_indexOf? he
    rw [← his, hi, Option.some.injEq] at hm
    rw [hm, hid]
  · intro h
    obtain ⟨hlen, hid⟩ := h
    obtain ⟨s, hs⟩ := List.length_eq_one_iff.mp hlen
    obtain ⟨n, hn, hk⟩ := mem_starts.mp (hs ▸ List.mem_singleton_self s)
    exact ⟨s, hs, (indexOf?_eq_some_iff hnd).mpr ⟨n, hn, hid n (List.mem_of_getElem? hn) hk⟩⟩

/-! ## Paths over ids and over positions -/

/-- The id at the position of a node. -/
theorem idAt_of_getElem? {nodes : List Node} {i : Nat} {n : Node} (h : nodes[i]? = some n) : idAt nodes i = n.id := by
  rw [idAt, h]
  rfl

/-- The position found for an id holds it. -/
theorem idAt_of_indexOf? {id : String} {i : Nat} (h : indexOf? d id = some i) : idAt d.nodes i = id := by
  obtain ⟨n, hn, hid⟩ := node_of_indexOf? h
  rw [idAt_of_getElem? hn, hid]

/-- A path along resolved edges is one along declared edges. -/
theorem joins_of_hops {i j : Nat} (h : Relation.ReflTransGen (Hop (resolvedEdges d)) i j) :
    Relation.ReflTransGen d.Joins (idAt d.nodes i) (idAt d.nodes j) := by
  refine h.lift (idAt d.nodes) ?_
  rintro a b ⟨e, he, rfl, rfl⟩
  obtain ⟨decl, hdecl, hs, ht, -⟩ := mem_resolvedEdges.mp he
  exact ⟨decl, List.mem_of_getElem? hdecl, (idAt_of_indexOf? hs).symm, (idAt_of_indexOf? ht).symm⟩

/-- If all edges name nodes, a path along declared edges is one along resolved edges. -/
theorem hops_of_joins (hnamed : ∀ e ∈ d.edges, d.Names e.source ∧ d.Names e.target) {a b : String}
    (h : Relation.ReflTransGen d.Joins a b) :
    Relation.ReflTransGen (Hop (resolvedEdges d)) ((indexOf? d a).getD 0) ((indexOf? d b).getD 0) := by
  refine h.lift (fun id => (indexOf? d id).getD 0) ?_
  rintro _ _ ⟨e, he, rfl, rfl⟩
  obtain ⟨k, hk⟩ := List.mem_iff_getElem?.mp he
  obtain ⟨s, hs⟩ := exists_indexOf?_iff.mpr (hnamed e he).1
  obtain ⟨t, ht⟩ := exists_indexOf?_iff.mpr (hnamed e he).2
  simp only [Function.onFun, hs, ht, Option.getD_some]
  exact ⟨⟨s, t, e.condition, k⟩, mem_resolvedEdges.mpr ⟨e, hk, hs, ht, rfl⟩, rfl, rfl⟩

/-! ## Both directions -/

/-- The conditions on the edges that leave the nodes of a document are in order, seen by ids and by positions. -/
theorem branchIssues_iff (hnd : (ids d).Nodup) (hnamed : ∀ e ∈ d.edges, d.Names e.source ∧ d.Names e.target) {n : Node}
    {i : Nat} (hn : d.nodes[i]? = some n) :
    branchIssues d (resolvedEdges d) n i = [] ↔
      (∀ b, n.spec = .conditionalBranch b → AnswersLabels b.branches ((d.leaving n.id).map (·.condition))) ∧
        (n.kind ≠ .conditionalBranch → ∀ e ∈ d.leaving n.id, e.condition = none) := by
  have hplain : (∀ e ∈ d.leaving n.id, e.condition = none) ↔ ∀ e ∈ leaving (resolvedEdges d) i, e.condition = none := by
    have hmap : (∀ c ∈ (d.leaving n.id).map (·.condition), c = none) ↔
        ∀ c ∈ (leaving (resolvedEdges d) i).map (·.condition), c = none := by rw [leaving_conditions hnd hnamed hn]
    rwa [List.forall_mem_map, List.forall_mem_map] at hmap
  by_cases hk : n.kind = .conditionalBranch
  · obtain ⟨b, hb⟩ := kind_eq_conditionalBranch_iff.mp hk
    rw [branchIssues_eq_nil_iff_of_branching hb, leaving_conditions hnd hnamed hn]
    simp [hb, hk]
  · rw [branchIssues_eq_nil_iff_of_plain hk, hplain]
    refine ⟨fun h => ⟨fun b hb => absurd (by rw [Node.kind, hb]; rfl) hk, fun _ => h⟩, fun h => h.2 hk⟩

/-- A document without issues is sound. -/
theorem sound_of_issues_eq_nil (h : issues d = []) : d.Sound := by
  obtain ⟨hcollision, hedges, hentry, hreach, hbranch, hterminal, hend⟩ := issues_eq_nil_iff.mp h
  rw [edgeIssues_eq_nil_iff] at hedges
  obtain ⟨s, hs⟩ := entryIssues_eq_nil_iff.mp hentry
  have hroot := (agreedStart?_eq_some_iff.mp hs).2
  rw [reachIssues_eq_nil_iff (root?_of_agreedStart? hs)] at hreach
  have hnd := ids_nodup_of_reached hroot hreach
  obtain ⟨hone, hstart⟩ := (agreedStart?_iff hnd).mp ⟨s, hs⟩
  obtain ⟨root, hrootnode, hrootid⟩ := node_of_indexOf? hroot
  refine ⟨hnd, hedges, exists_indexOf?_iff.mp ⟨s, hroot⟩, hone, hstart, ?_, ?_, ?_, ?_, ?_,
    collisionIssues_eq_nil_iff.mp hcollision⟩
  · intro n hn
    obtain ⟨i, hi⟩ := List.mem_iff_getElem?.mp hn
    have hpath := joins_of_hops (hreach i (List.getElem?_eq_some_iff.mp hi).1)
    rwa [idAt_of_indexOf? hroot, idAt_of_getElem? hi] at hpath
  · intro n hn
    obtain ⟨i, hi⟩ := List.mem_iff_getElem?.mp hn
    exact ((branchIssues_iff hnd hedges hi).mp (hbranch i n hi)).1
  · intro n hn
    obtain ⟨i, hi⟩ := List.mem_iff_getElem?.mp hn
    exact ((branchIssues_iff hnd hedges hi).mp (hbranch i n hi)).2
  · intro n hn
    obtain ⟨i, hi⟩ := List.mem_iff_getElem?.mp hn
    rw [terminalIssues_eq_nil_iff.mp (hterminal i n hi), count_declaredSources hnd hi, List.length_eq_zero_iff]
  · rcases noTerminalIssues_eq_nil_iff.mp hend with hnil | hsome
    · rw [hnil] at hrootnode
      simp at hrootnode
    · exact hsome

/-- A sound document has no issues. -/
theorem issues_eq_nil_of_sound (h : d.Sound) : issues d = [] := by
  have hnd : (ids d).Nodup := h.distinct
  obtain ⟨s, hs⟩ := (agreedStart?_iff hnd).mpr ⟨h.oneStart, h.entryStarts⟩
  have hroot := (agreedStart?_eq_some_iff.mp hs).2
  refine issues_eq_nil_iff.mpr ⟨collisionIssues_eq_nil_iff.mpr h.apart, edgeIssues_eq_nil_iff.mpr h.edgesNamed,
    entryIssues_eq_nil_iff.mpr ⟨s, hs⟩, (reachIssues_eq_nil_iff (root?_of_agreedStart? hs)).mpr ?_, ?_, ?_,
    noTerminalIssues_eq_nil_iff.mpr (Or.inr h.someEnd)⟩
  · intro i hi
    have hn := List.getElem?_eq_getElem hi
    have hpath := hops_of_joins h.edgesNamed (h.reached d.nodes[i] (List.getElem_mem hi))
    rwa [hroot, indexOf?_id hnd hn] at hpath
  · intro i n hn
    have hmem := List.mem_of_getElem? hn
    exact (branchIssues_iff hnd h.edgesNamed hn).mpr ⟨h.branching n hmem, h.plain n hmem⟩
  · intro i n hn
    rw [terminalIssues_eq_nil_iff, count_declaredSources hnd hn, List.length_eq_zero_iff]
    exact h.ends n (List.mem_of_getElem? hn)

end Build

open Build

/-- A graph is built of exactly the sound documents, and a report on a document that has none holds at least one issue, all of
them errors. -/
theorem build_ok_iff_sound (d : Document) :
    ((∃ g, Graph.build d = .ok g) ↔ d.Sound) ∧
      ∀ r, Graph.build d = .error r → r.issues ≠ [] ∧ ∀ i ∈ r.issues, i.isError = true := by
  refine ⟨⟨?_, ?_⟩, ?_⟩
  · intro hx
    obtain ⟨g, hg⟩ := hx
    exact sound_of_issues_eq_nil (build_eq_ok_iff.mp hg).1
  · intro h
    have hnil := issues_eq_nil_of_sound h
    obtain ⟨s, hs⟩ := entryIssues_eq_nil_iff.mp (issues_eq_nil_iff.mp hnil).2.2.1
    exact ⟨_, build_eq_ok_iff.mpr ⟨hnil, s, hs, rfl⟩⟩
  · intro r hr
    obtain ⟨hne, rfl⟩ := build_eq_error_iff.mp hr
    exact ⟨hne, allErrors_issues d⟩

/-- A draft that is written again until its review is content. -/
def reviewLoop : Document where
  name := "review loop"
  description := none
  version := none
  entry := "begin"
  nodes := [⟨"finish", .finish ["text"], none⟩, ⟨"begin", .start [⟨"topic", .string⟩], none⟩,
    ⟨"write", .llmCall ⟨"Write on {topic}.", none, none, none, some "text"⟩, none⟩,
    ⟨"review", .conditionalBranch ⟨"verdict", ["again", "done"]⟩, none⟩]
  edges := [⟨"begin", "write", none⟩, ⟨"write", "review", none⟩, ⟨"review", "finish", some "done"⟩,
    ⟨"review", "write", some "again"⟩]

/-- The same with a second node of an id that is in use. -/
def reviewLoopRepeated : Document := { reviewLoop with nodes := ⟨"write", .transform [], none⟩ :: reviewLoop.nodes }

/-- The loop is sound, and a repeated id alone keeps it from having a graph. -/
theorem build_ok_iff_sound_reviewLoop :
    reviewLoop.Sound ∧ ¬reviewLoopRepeated.Sound ∧
      ∃ r, Graph.build reviewLoopRepeated = .error r ∧ r.issues ≠ [] ∧ ∀ i ∈ r.issues, i.isError = true := by
  obtain ⟨r, hr⟩ : ∃ r, Graph.build reviewLoopRepeated = .error r := ⟨_, rfl⟩
  refine ⟨(build_ok_iff_sound reviewLoop).1.mp ⟨_, rfl⟩, fun h => ?_, r, hr, (build_ok_iff_sound reviewLoopRepeated).2 r hr⟩
  obtain ⟨g, hg⟩ := (build_ok_iff_sound reviewLoopRepeated).1.mpr h
  rw [hg] at hr
  cases hr

end Workflow
