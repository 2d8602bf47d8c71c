import Mathlib
import Workflow.Proofs.Package.Body
import Workflow.Proofs.Package.Defect
import Workflow.Proofs.Package.Wiring

/-!
# The graph read back from its package

The file that assembles a graph holds the graph: its calls are those of the graph, in order, for either version of the framework
(`generate_wired`).
-/

namespace Workflow

open Package

/-! ## The calls of a graph -/

namespace Call

/-- Whether a call adds the conditional edges of the node with an id. -/
def branchesAt (id : String) : Call → Bool
  | addBranch i _ _ => i == id
  | _ => false

end Call

namespace Graph

/-- The table of a node: the labels of the edges that leave it, in order, with the ids of their targets. -/
def routes (g : Graph) (i : Nat) : List (String × String) :=
  (g.outgoing i).filterMap fun e => e.condition.map fun label => (label, g.idAt e.target)

/-- The call of an edge, given the edges before it. The conditional edges of a node have one call together, where the first edge
of the node stands. -/
def edgeCall? (g : Graph) (l : Layout) (earlier : List Edge) (e : Edge) : Option Call :=
  match e.condition with
  | none => some (.addEdge (g.idAt e.source) (g.idAt e.target))
  | some _ =>
    if e.source ∈ earlier.map (·.source) then none
    else some (.addBranch (g.idAt e.source) (routeFunction (l.slug e.source)) (g.routes e.source))

/-- The calls of the edges of a graph. -/
def edgeCalls (g : Graph) (l : Layout) : List Call :=
  g.edges.zipIdx.filterMap fun x => g.edgeCall? l (g.edges.take x.2) x.1

/-- The calls of a graph. -/
def calls (g : Graph) (l : Layout) : List Call :=
  (g.nodes.zipIdx.map fun (n, i) => .addNode n.id ["nodes", l.slug i, "run"]) ++ [.entry (g.idAt g.entry)] ++ g.edgeCalls l ++
    g.terminals.map fun i => .finish (g.idAt i)

/-- Some calls wire a graph: they are those of the graph, and each branching node has exactly one block of conditional edges,
which names its own routing function and leads each declared label, once, to the target of the edge that carries it. -/
structure Wired (g : Graph) (l : Layout) (calls : List Call) : Prop where
  inOrder : calls = g.calls l
  oneBlock : ∀ (i : Nat) (n : Node) (b : Branching), g.nodes[i]? = some n → n.spec = .conditionalBranch b →
    calls.filter (Call.branchesAt n.id) = [.addBranch n.id (routeFunction (l.slug i)) (g.routes i)] ∧
      ((g.routes i).map (·.1)).Perm b.branches ∧ ((g.routes i).map (·.1)).Nodup ∧
      ∀ e ∈ g.outgoing i, ∃ label, e.condition = some label ∧ (label, g.idAt e.target) ∈ g.routes i
  blocksBranch : ∀ id routing routes, Call.addBranch id routing routes ∈ calls →
    ∃ n ∈ g.nodes, n.id = id ∧ n.kind = .conditionalBranch
  ownFunctions : ∀ i j, i < g.nodes.length → j < g.nodes.length → l.slug i = l.slug j → i = j

end Graph

namespace Package

open Build

variable {d : Document} {s : Nat}

/-! ## Edges of a document without issues -/

/-- An edge of a graph leaves one of its nodes. -/
theorem exists_source {e : Edge} (he : e ∈ (graphAt d s).edges) : ∃ n, d.nodes[e.source]? = some n := by
  obtain ⟨decl, -, hsource, -, -⟩ := mem_resolvedEdges.mp he
  obtain ⟨n, hn, -⟩ := node_of_indexOf? hsource
  exact ⟨n, hn⟩

/-- An edge of a document without issues is conditional exactly if it leaves a branching node. -/
theorem condition_isSome_iff (h : issues d = []) {e : Edge} (he : e ∈ (graphAt d s).edges) {n : Node}
    (hn : d.nodes[e.source]? = some n) : (∃ label, e.condition = some label) ↔ ∃ b, n.spec = .conditionalBranch b := by
  have hnil := (issues_eq_nil_iff.mp h).2.2.2.2.1 e.source n hn
  have hleaving : e ∈ leaving (resolvedEdges d) e.source := List.mem_filter.mpr ⟨he, beq_self_eq_true _⟩
  cases hlabels : n.spec.branchLabels? with
  | none =>
    have hnone := (branchIssues_eq_nil_iff_of_plain (branchLabels?_eq_none_iff.mp hlabels)).mp hnil e hleaving
    refine iff_of_false (fun hx => ?_) (fun hx => ?_)
    · obtain ⟨label, hc⟩ := hx
      rw [hnone] at hc
      cases hc
    · obtain ⟨b, hb⟩ := hx
      rw [hb] at hlabels
      cases hlabels
  | some labels =>
    obtain ⟨b, hb, -⟩ := branchLabels?_eq_some_iff.mp hlabels
    obtain ⟨label, -, hc⟩ := ((branchIssues_eq_nil_iff_of_branching hb).mp hnil).declared _ (List.mem_map_of_mem hleaving)
    exact iff_of_true ⟨label, hc⟩ ⟨b, hb⟩

/-- The table of a branching node of a document without issues leads to the ids of its targets. -/
theorem branchTable?_routes (h : issues d = []) {i : Nat} {n : Node} {b : Branching} (hn : d.nodes[i]? = some n)
    (hb : n.spec = .conditionalBranch b) : ∃ t, (graphAt d s).branchTable? i = some t ∧ t.node = i ∧
      (t.routes.map fun r => (r.1, (graphAt d s).idAt r.2)) = (graphAt d s).routes i ∧ t.Mirrors (graphAt d s) b := by
  obtain ⟨t, ht, hmirrors⟩ := branchTable?_mirrors h (s := s) hn hb
  have hfound := List.find?_some ht
  have hnode : t.node = i := beq_iff_eq.mp hfound
  have hroutes := ((mem_branchTables h).mp (List.mem_of_find?_eq_some ht)).2
  refine ⟨t, ht, hnode, ?_, hmirrors⟩
  rw [hroutes, hnode, Graph.routes, outgoing_graphAt, List.map_filterMap]
  refine List.filterMap_congr fun e _ => ?_
  rw [Option.map_map]
  rfl

/-- Nodes of a document without issues that have one id are one. -/
theorem idAt_injective (h : issues d = []) {i j : Nat} {n m : Node} (hi : d.nodes[i]? = some n) (hj : d.nodes[j]? = some m)
    (hid : (graphAt d s).idAt i = (graphAt d s).idAt j) : i = j := by
  have hnd : (ids d).Nodup := (sound_of_issues_eq_nil h).distinct
  have hin : (graphAt d s).idAt i = n.id := idAt_of_getElem? hi
  have hjm : (graphAt d s).idAt j = m.id := idAt_of_getElem? hj
  have hindex := indexOf?_id hnd hi
  rw [← hin, hid, hjm, indexOf?_id hnd hj, Option.some.injEq] at hindex
  exact hindex.symm

/-! ## What the body says -/

variable {options : Options}

/-- The statements of an edge are its call, if it has one. -/
theorem states_edgeLines (h : issues d = []) {e : Edge} {k : Nat} (he : (graphAt d s).edges[k]? = some e) :
    States (edgeLines (graphAt d s) (Layout.ofGraph (graphAt d s) options) ((graphAt d s).edges.take k) e)
      (((graphAt d s).edgeCall? (Layout.ofGraph (graphAt d s) options) ((graphAt d s).edges.take k) e).toList.map
        (Call.statement options.framework)) := by
  have hmem := List.mem_of_getElem? he
  obtain ⟨n, hn⟩ := exists_source hmem
  rw [edgeLines, Graph.edgeCall?]
  cases hc : e.condition with
  | none => exact states_addEdge _ _ _
  | some label =>
    obtain ⟨b, hb⟩ := (condition_isSome_iff h hmem hn).mp ⟨label, hc⟩
    obtain ⟨t, ht, hnode, hroutes, -⟩ := branchTable?_routes h (s := s) hn hb
    -- Edges before this one that leave the same node are conditional too, so the two ways to ask for them agree.
    have hearlier : ((graphAt d s).edges.take k).any (fun f => f.source == e.source && f.condition.isSome) = true ↔
        e.source ∈ ((graphAt d s).edges.take k).map (·.source) := by
      simp only [List.any_eq_true, Bool.and_eq_true, beq_iff_eq, List.mem_map]
      constructor
      · intro hx
        obtain ⟨f, hf, hsource, -⟩ := hx
        exact ⟨f, hf, hsource⟩
      · intro hx
        obtain ⟨f, hf, hsource⟩ := hx
        have hfn : d.nodes[f.source]? = some n := hsource ▸ hn
        obtain ⟨other, hother⟩ := (condition_isSome_iff h (List.mem_of_mem_take hf) hfn).mpr ⟨b, hb⟩
        exact ⟨f, hf, hsource, by rw [hother]; rfl⟩
    by_cases hseen : e.source ∈ ((graphAt d s).edges.take k).map (·.source)
    · simp only [hearlier.mpr hseen, hseen, if_true]
      exact states_nil
    · have hslug : isIdentifier ((Layout.ofGraph (graphAt d s) options).slug t.node) = true := by
        rw [hnode]
        exact Layout.isIdentifier_of_mem_slugs _ (Layout.slug_mem_slugs (List.getElem?_eq_some_iff.mp hn).1)
      have hblock := states_conditionalLines options.framework (graphAt d s) hslug
      rw [hroutes, hnode] at hblock
      simp only [mt hearlier.mp hseen, hseen, if_false, ht]
      exact hblock

/-- The statements of the body: the builder, the calls of the graph, and what the function gives back. -/
theorem states_buildLines (h : issues d = []) :
    States (buildLines (graphAt d s) (Layout.ofGraph (graphAt d s) options) options)
      ([builderStatement (Layout.ofGraph (graphAt d s) options).stateClass] ++
        ((graphAt d s).calls (Layout.ofGraph (graphAt d s) options)).map (Call.statement options.framework) ++
        [returnStatement]) := by
  set g := graphAt d s with hg
  set l := Layout.ofGraph g options with hl
  set f := options.framework with hf
  have hnodes : States (g.nodes.zipIdx.flatMap fun x => addNodeLines l options x.1 x.2)
      (g.nodes.zipIdx.flatMap fun x => [(Call.addNode x.1.id ["nodes", l.slug x.2, "run"]).statement f]) := by
    refine states_flatMap fun x hx => ?_
    have hslug : IsNameText (l.slug x.2) :=
      Layout.isNameText_slug (List.getElem?_eq_some_iff.mp (List.mem_zipIdx_iff_getElem?.mp hx)).1
    exact (states_nodeComment x.1 options 1).append (states_addNode f x.1.id hslug)
  have hedges : States (g.edges.zipIdx.flatMap fun x => edgeLines g l (g.edges.take x.2) x.1)
      (g.edges.zipIdx.flatMap fun x => (g.edgeCall? l (g.edges.take x.2) x.1).toList.map (Call.statement f)) := by
    refine states_flatMap fun x hx => ?_
    exact states_edgeLines h (List.mem_zipIdx_iff_getElem?.mp hx)
  have hfinish : States (g.terminals.map (finishLine g f)) (g.terminals.map fun i => (Call.finish (g.idAt i)).statement f) :=
    states_map fun i _ => states_finishLine g f i
  have hentry : States [blankLine, entryLine g f] [(Call.entry (g.idAt g.entry)).statement f] :=
    states_blankLine.append (states_entryLine g f)
  have hstate : IsNameText l.stateClass := Layout.isNameText_stateClass
  have hall := (((((states_builder hstate).append hnodes).append hentry).append hedges).append
    hfinish).append states_return
  have hcalls : (g.calls l).map (Call.statement f) =
      (g.nodes.zipIdx.flatMap fun x => [(Call.addNode x.1.id ["nodes", l.slug x.2, "run"]).statement f]) ++
        [(Call.entry (g.idAt g.entry)).statement f] ++
        (g.edges.zipIdx.flatMap fun x => (g.edgeCall? l (g.edges.take x.2) x.1).toList.map (Call.statement f)) ++
        g.terminals.map fun i => (Call.finish (g.idAt i)).statement f := by
    rw [Graph.calls, Graph.edgeCalls, List.filterMap_eq_flatMap_toList, List.map_append, List.map_append, List.map_append,
      List.map_flatMap, List.map_map, List.map_map, List.map_eq_flatMap]
    rfl
  rw [hcalls, ← List.append_assoc, ← List.append_assoc, ← List.append_assoc]
  exact hall

/-- A call of a graph adds a node, declares the entry or an end, or belongs to an edge. -/
theorem mem_calls {g : Graph} {l : Layout} {call : Call} (h : call ∈ g.calls l) :
    (∃ i n, g.nodes[i]? = some n ∧ call = .addNode n.id ["nodes", l.slug i, "run"]) ∨ call = .entry (g.idAt g.entry) ∨
      (∃ k e, g.edges[k]? = some e ∧ g.edgeCall? l (g.edges.take k) e = some call) ∨ ∃ i, call = .finish (g.idAt i) := by
  rw [Graph.calls, List.mem_append, List.mem_append, List.mem_append] at h
  rcases h with ((h | h) | h) | h
  · obtain ⟨x, hx, rfl⟩ := List.mem_map.mp h
    exact Or.inl ⟨x.2, x.1, List.mem_zipIdx_iff_getElem?.mp hx, rfl⟩
  · exact Or.inr (Or.inl (List.mem_singleton.mp h))
  · obtain ⟨x, hx, hcall⟩ := List.mem_filterMap.mp h
    exact Or.inr (Or.inr (Or.inl ⟨x.2, x.1, List.mem_zipIdx_iff_getElem?.mp hx, hcall⟩))
  · obtain ⟨i, -, rfl⟩ := List.mem_map.mp h
    exact Or.inr (Or.inr (Or.inr ⟨i, rfl⟩))

/-- The call of an edge adds the edge, or the conditional edges of the node that it leaves. -/
theorem edgeCall?_eq_some {g : Graph} {l : Layout} {earlier : List Edge} {e : Edge} {call : Call}
    (h : g.edgeCall? l earlier e = some call) : call = .addEdge (g.idAt e.source) (g.idAt e.target) ∨
      (∃ label, e.condition = some label) ∧
        call = .addBranch (g.idAt e.source) (routeFunction (l.slug e.source)) (g.routes e.source) := by
  rw [Graph.edgeCall?] at h
  split at h
  · exact Or.inl (Option.some.inj h).symm
  · next label hc =>
    split at h
    · cases h
    · exact Or.inr ⟨⟨label, hc⟩, (Option.some.inj h).symm⟩

/-- A call that adds a node runs a function of a module of the package. -/
theorem length_runner {g : Graph} {l : Layout} {id : String} {runner : List String} (hmem : Call.addNode id runner ∈ g.calls l) :
    runner.length = 3 := by
  rcases mem_calls hmem with ⟨i, n, -, hcall⟩ | hcall | ⟨k, e, -, hcall⟩ | ⟨i, hcall⟩
  · rw [Call.addNode.injEq] at hcall
    rw [hcall.2]
    rfl
  · cases hcall
  · rcases edgeCall?_eq_some hcall with hcall | ⟨-, hcall⟩ <;> cases hcall
  · cases hcall

/-- The statements of the body make the calls of the graph. -/
theorem calls_body (g : Graph) (l : Layout) (f : FrameworkVersion) (stateClass : String) :
    readAll? Call.ofStatement? ([builderStatement stateClass] ++ (g.calls l).map (Call.statement f) ++ [returnStatement]) =
      some (g.calls l) := by
  have hcalls : readAll? Call.ofStatement? ((g.calls l).map (Call.statement f)) = some ((g.calls l).flatMap fun call => [call]) :=
    readAll?_map fun call hcall => Call.ofStatement?_statement f fun id runner heq => length_runner (heq ▸ hcall)
  have hbuilder : readAll? Call.ofStatement? [builderStatement stateClass] = some [] := rfl
  have hreturn : readAll? Call.ofStatement? [returnStatement] = some [] := rfl
  have hall := readAll?_append (readAll?_append hbuilder hcalls) hreturn
  rwa [List.nil_append, List.append_nil, List.flatMap_singleton'] at hall

/-! ## One block for each branching node -/

/-- An edge that does not leave a node has no call with the conditional edges of that node. -/
theorem branchesAt_edgeCall? (h : issues d = []) {i : Nat} {n : Node} (hn : d.nodes[i]? = some n) {e : Edge}
    (he : e ∈ (graphAt d s).edges) (hsource : e.source ≠ i) {l : Layout} {earlier : List Edge} {call : Call}
    (hcall : (graphAt d s).edgeCall? l earlier e = some call) : call.branchesAt n.id = false := by
  obtain ⟨m, hm⟩ := exists_source he
  have hid : (graphAt d s).idAt i = n.id := idAt_of_getElem? hn
  have hne : (graphAt d s).idAt e.source ≠ n.id := fun heq => hsource (idAt_injective h hm hn (heq.trans hid.symm))
  rcases edgeCall?_eq_some hcall with rfl | ⟨-, rfl⟩
  · rfl
  · exact beq_eq_false_iff_ne.mpr hne

/-- Among the edges there is a first one that leaves a branching node. -/
theorem exists_firstEdge (h : issues d = []) {i : Nat} {n : Node} {b : Branching} (hn : d.nodes[i]? = some n)
    (hb : n.spec = .conditionalBranch b) : ∃ before e after, (graphAt d s).edges = before ++ e :: after ∧ e.source = i ∧
      i ∉ before.map (·.source) := by
  have hkind : n.kind ≠ .finish := by
    rw [Node.kind, hb]
    intro hk
    cases hk
  have hleaving := mt (outgoing_isEmpty_iff h (s := s) hn).mp hkind
  obtain ⟨e, he⟩ := List.exists_mem_of_ne_nil _ (mt List.isEmpty_iff.mpr hleaving)
  have hfind : ((graphAt d s).edges.find? (·.source == i)).isSome = true :=
    List.find?_isSome.mpr ⟨e, (mem_outgoing.mp he).1, beq_iff_eq.mpr (mem_outgoing.mp he).2⟩
  obtain ⟨first, hfirst⟩ := Option.isSome_iff_exists.mp hfind
  obtain ⟨hsource, before, after, hsplit, hbefore⟩ := List.find?_eq_some_iff_append.mp hfirst
  refine ⟨before, first, after, hsplit, beq_iff_eq.mp hsource, fun hx => ?_⟩
  obtain ⟨x, hx, heq⟩ := List.mem_map.mp hx
  have hnot := hbefore x hx
  rw [heq, beq_self_eq_true] at hnot
  cases hnot

/-- Of the calls of the edges exactly one holds the conditional edges of a branching node. -/
theorem filter_edgeCalls (h : issues d = []) {i : Nat} {n : Node} {b : Branching} (hn : d.nodes[i]? = some n)
    (hb : n.spec = .conditionalBranch b) (l : Layout) :
    ((graphAt d s).edgeCalls l).filter (Call.branchesAt n.id) =
      [.addBranch n.id (routeFunction (l.slug i)) ((graphAt d s).routes i)] := by
  obtain ⟨before, e, after, hsplit, hsource, hbefore⟩ := exists_firstEdge h (s := s) hn hb
  set g := graphAt d s with hg
  have hconditional : ∀ x ∈ g.edges, x.source = i → ∃ label, x.condition = some label := fun x hx heq =>
    (condition_isSome_iff h hx (heq ▸ hn)).mpr ⟨b, hb⟩
  have hskip : ∀ part : List (Edge × Nat), (∀ x ∈ part, x.1 ∈ g.edges ∧
      (x.1.source = i → i ∈ (g.edges.take x.2).map (·.source))) →
      (part.filterMap fun x => g.edgeCall? l (g.edges.take x.2) x.1).filter (Call.branchesAt n.id) = [] := by
    intro part hpart
    rw [List.filter_eq_nil_iff]
    intro call hcall
    obtain ⟨x, hx, hcall⟩ := List.mem_filterMap.mp hcall
    obtain ⟨hxmem, hseen⟩ := hpart x hx
    by_cases heq : x.1.source = i
    · obtain ⟨label, hc⟩ := hconditional _ hxmem heq
      rw [Graph.edgeCall?, hc] at hcall
      simp only [heq, hseen heq, if_true, reduceCtorEq] at hcall
    · rw [branchesAt_edgeCall? h hn hxmem heq hcall]
      exact Bool.false_ne_true
  have hcall : g.edgeCall? l (g.edges.take before.length) e =
      some (.addBranch n.id (routeFunction (l.slug i)) (g.routes i)) := by
    obtain ⟨label, hc⟩ := hconditional e (hsplit ▸ List.mem_append_right _ List.mem_cons_self) hsource
    have hid : g.idAt i = n.id := idAt_of_getElem? hn
    rw [Graph.edgeCall?, hsplit, List.take_left]
    simp only [hc, hsource, hbefore, if_false, hid]
  have hlist : g.edges.zipIdx = before.zipIdx ++ (e, before.length) :: after.zipIdx (before.length + 1) := by
    rw [hsplit, List.zipIdx_append, List.zipIdx_cons, Nat.zero_add]
  rw [Graph.edgeCalls, hlist, List.filterMap_append, List.filter_append, hskip before.zipIdx, List.nil_append,
    List.filterMap_cons, hcall]
  have hself : Call.branchesAt n.id (.addBranch n.id (routeFunction (l.slug i)) (g.routes i)) = true := beq_self_eq_true n.id
  simp only []
  rw [List.filter_cons_of_pos hself, hskip]
  · -- Behind the first edge of the node, that edge is among the earlier ones.
    intro x hx
    obtain ⟨hle, hget⟩ := List.mk_mem_zipIdx_iff_le_and_getElem?_sub.mp hx
    refine ⟨hsplit ▸ List.mem_append_right _ (List.mem_cons_of_mem _ (List.mem_of_getElem? hget)), fun _ => ?_⟩
    have hfirst : e ∈ g.edges.take (before.length + 1) := by
      rw [hsplit, List.take_length_add_append]
      exact List.mem_append_right _ List.mem_cons_self
    exact List.mem_map.mpr ⟨e, List.take_subset_take_left _ hle hfirst, hsource⟩
  · intro x hx
    have hxmem : x.1 ∈ before := List.mem_of_getElem? (List.mem_zipIdx_iff_getElem?.mp hx)
    exact ⟨hsplit ▸ List.mem_append_left _ hxmem, fun heq => absurd (List.mem_map.mpr ⟨x.1, hxmem, heq⟩) hbefore⟩

/-- A branching node of a document without issues has exactly one call with its conditional edges. -/
theorem filter_calls (h : issues d = []) {i : Nat} {n : Node} {b : Branching} (hn : d.nodes[i]? = some n)
    (hb : n.spec = .conditionalBranch b) (l : Layout) : ((graphAt d s).calls l).filter (Call.branchesAt n.id) =
      [.addBranch n.id (routeFunction (l.slug i)) ((graphAt d s).routes i)] := by
  have hnone : ∀ {α : Type} (items : List α) (call : α → Call), (∀ x, (call x).branchesAt n.id = false) →
      (items.map call).filter (Call.branchesAt n.id) = [] := by
    intro α items call hcall
    rw [List.filter_eq_nil_iff, List.forall_mem_map]
    intro x _
    rw [hcall x]
    exact Bool.false_ne_true
  rw [Graph.calls, List.filter_append, List.filter_append, List.filter_append, filter_edgeCalls h hn hb,
    hnone _ _ fun _ => rfl, hnone _ _ fun _ => rfl]
  rfl

/-- A call with conditional edges belongs to a branching node. -/
theorem exists_branching_of_mem_calls (h : issues d = []) {l : Layout} {id routing : String} {routes : List (String × String)}
    (hmem : Call.addBranch id routing routes ∈ (graphAt d s).calls l) :
    ∃ n ∈ (graphAt d s).nodes, n.id = id ∧ n.kind = .conditionalBranch := by
  rcases mem_calls hmem with ⟨i, n, -, hcall⟩ | hcall | ⟨k, e, he, hcall⟩ | ⟨i, hcall⟩
  · cases hcall
  · cases hcall
  · rcases edgeCall?_eq_some hcall with hcall | ⟨hlabel, hcall⟩
    · cases hcall
    · have hmem := List.mem_of_getElem? he
      obtain ⟨n, hn⟩ := exists_source hmem
      obtain ⟨b, hb⟩ := (condition_isSome_iff h hmem hn).mp hlabel
      rw [Call.addBranch.injEq] at hcall
      refine ⟨n, List.mem_of_getElem? hn, ?_, by rw [Node.kind, hb]; rfl⟩
      rw [hcall.1]
      exact (idAt_of_getElem? hn).symm
  · cases hcall

/-- The calls of the graph of a document without issues wire it, if no branching node declares a label twice. -/
theorem wired_calls (h : issues d = []) (hlabels : ∀ n ∈ d.nodes, ∀ b, n.spec = .conditionalBranch b → b.branches.Nodup) :
    (graphAt d s).Wired (Layout.ofGraph (graphAt d s) options) ((graphAt d s).calls (Layout.ofGraph (graphAt d s) options)) where
  inOrder := rfl
  oneBlock := by
    intro i n b hn hb
    obtain ⟨t, -, hnode, hroutes, hmirrors⟩ := branchTable?_routes h (s := s) hn hb
    have hfst : ((graphAt d s).routes i).map (·.1) = t.labels := by
      rw [← hroutes, List.map_map, BranchTable.labels]
      rfl
    refine ⟨filter_calls h hn hb _, ?_, hfst ▸ hmirrors.distinct, ?_⟩
    · rw [hfst]
      exact (List.perm_ext_iff_of_nodup hmirrors.distinct (hlabels n (List.mem_of_getElem? hn) b hb)).mpr hmirrors.labels
    · intro e he
      obtain ⟨hmem, hsource⟩ := mem_outgoing.mp he
      obtain ⟨label, hc⟩ := (condition_isSome_iff h hmem (hsource ▸ hn)).mpr ⟨b, hb⟩
      exact ⟨label, hc, List.mem_filterMap.mpr ⟨e, he, by rw [hc]; rfl⟩⟩
  blocksBranch := fun _ _ _ hmem => exists_branching_of_mem_calls h hmem
  ownFunctions := fun _ _ hi hj heq => Layout.slug_injective hi hj heq

/-! ## The file in the package -/

/-- Files of a package with one path have one place in it. -/
theorem path_injective {l : Layout} {lines : List Line} {part other : String} {parts others : List String}
    (h : (artifact l (part :: parts) lines).path = l.file (other :: others)) :
    "/".intercalate (part :: parts) = "/".intercalate (other :: others) := by
  change l.file (part :: parts) = l.file (other :: others) at h
  rw [Layout.file, Layout.file, String.intercalate_cons_cons, String.intercalate_cons_cons, String.append_right_inj] at h
  exact h

/-- The file of a package that assembles the graph is the only one of its name. -/
theorem contents_of_path_eq {g : Graph} {a : Artifact} (ha : a ∈ artifacts g options)
    (hpath : a.path = (Layout.ofGraph g options).file ["graph.py"]) :
    a.contents = renderLines (assemblyLines g (Layout.ofGraph g options) options) := by
  have hnode : ∀ rest, "/".intercalate ["nodes", rest] ≠ "/".intercalate ["graph.py"] := by
    intro rest heq
    have hhead := congrArg (fun text => text.toList.head?) heq
    rw [String.intercalate_cons_cons] at hhead
    simp only [String.toList_append] at hhead
    exact absurd (Option.some.inj hhead) (by decide)
  simp only [artifacts, List.mem_append, List.mem_cons, List.mem_map, List.not_mem_nil, or_false] at ha
  rcases ha with ((rfl | rfl | rfl | rfl) | ⟨x, -, rfl⟩) | rfl
  · exact absurd (path_injective hpath) (by decide)
  · exact absurd (path_injective hpath) (by decide)
  · exact absurd (path_injective hpath) (by decide)
  · exact absurd (path_injective hpath) (hnode _)
  · exact absurd (path_injective hpath) (hnode _)
  · rfl

/-- The calls of a graph are read in the file that assembles it. -/
theorem ofText?_assemblyLines (h : issues d = []) :
    Call.ofText? (renderLines (assemblyLines (graphAt d s) (Layout.ofGraph (graphAt d s) options) options)) =
      some ((graphAt d s).calls (Layout.ofGraph (graphAt d s) options)) := by
  have htables : ∀ t ∈ (graphAt d s).branchTables, t.node < (graphAt d s).nodes.length := by
    intro t ht
    obtain ⟨n, hn, -⟩ := ((mem_branchTables h).mp ht).1
    exact (List.getElem?_eq_some_iff.mp hn).1
  have hend : statements? [] [[], []] = some [] := rfl
  rw [Call.ofText?, bodyLines_assemblyLines htables, Call.read?_eq, states_buildLines h, hend, Option.map_some, List.append_nil,
    Option.bind_some, calls_body]

end Package

open Build

/-- A graph that is built and whose package is generated is read back from its package: the file that assembles it holds the
calls of the graph, and the same ones for either version of the framework. -/
theorem generate_wired (d : Document) (g : Graph) (options : Options) (artifacts : List Artifact)
    (hbuild : Graph.build d = .ok g) (hgenerate : generate g options = .ok artifacts) :
    ∃ calls, g.Wired (Layout.ofGraph g options) calls ∧ ∀ version, ∃ files,
      generate g { options with framework := version } = .ok files ∧
        (∃ a ∈ files, a.path = (Layout.ofGraph g options).file ["graph.py"]) ∧
        ∀ a ∈ files, a.path = (Layout.ofGraph g options).file ["graph.py"] → Call.ofText? a.contents = some calls := by
  have hdefect := (Package.generate_eq_ok_iff.mp hgenerate).1
  have hlabels := (Package.defect?_eq_none_iff hbuild).mp hdefect
  obtain ⟨hnil, s, -, rfl⟩ := build_eq_ok_iff.mp hbuild
  refine ⟨_, Package.wired_calls hnil hlabels, fun version => ?_⟩
  refine ⟨Package.artifacts (graphAt d s) { options with framework := version }, ?_, ?_, ?_⟩
  · exact Package.generate_eq_ok_iff.mpr ⟨hdefect, rfl⟩
  · exact ⟨_, List.mem_append_right _ (List.mem_singleton_self _), rfl⟩
  · intro a ha hpath
    rw [Package.contents_of_path_eq ha hpath]
    exact Package.ofText?_assemblyLines hnil

/-- The review loop as it is read back from its package: the block of its branching node stands where the first of its two edges
stands. -/
theorem generate_wired_reviewLoop :
    ∃ g files, Graph.build reviewLoop = .ok g ∧ generate g {} = .ok files ∧
      ∃ calls, g.Wired (Layout.ofGraph g {}) calls ∧
        calls = [.addNode "finish" ["nodes", "finish", "run"], .addNode "begin" ["nodes", "begin", "run"],
          .addNode "write" ["nodes", "write", "run"], .addNode "review" ["nodes", "review", "run"], .entry "begin",
          .addEdge "begin" "write", .addEdge "write" "review",
          .addBranch "review" "route_review" [("done", "finish"), ("again", "write")], .finish "finish"] := by
  obtain ⟨g, hg⟩ : ∃ g, Graph.build reviewLoop = .ok g := ⟨_, rfl⟩
  obtain ⟨files, hfiles⟩ : ∃ files, generate g {} = .ok files := by
    cases hg
    exact ⟨_, rfl⟩
  obtain ⟨calls, hwired, -⟩ := generate_wired reviewLoop g {} files hg hfiles
  refine ⟨g, files, hg, hfiles, calls, hwired, ?_⟩
  rw [hwired.inOrder]
  cases hg
  decide

end Workflow
