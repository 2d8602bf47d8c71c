import Workflow.Proofs.Graph.Conditions

/-!
# What is told of branches

Every edge whose two ends name nodes is accounted for once: it is told of by one issue of conditions, or it needs none. The labels that
no such edge carries are told of at their node, and a node has its branch table exactly if there is nothing to tell of it and of the
edges that leave it (`branches_told_by_edge`).

A label that is told of as missing may be written on edges of the node all the same: on edges that lead to no node, each told of by an
issue of its own (`missing_labels_dangle`).
-/

namespace Workflow

namespace Build

section

variable {d : Document} {n : Node} {i : Nat} {label : String} {b : Branching}

/-! ## Tables -/

/-- Nothing is found of the conditions on the edges that leave a node exactly if nothing is told at the node and at these edges. -/
theorem branchIssues_eq_nil_iff_told (hnd : (ids d).Nodup) (hn : d.nodes[i]? = some n) :
    branchIssues d (resolvedEdges d) n i = [] ↔ branchFindings d (nodePlace i) = [] ∧
      ∀ j decl, d.edges[j]? = some decl → decl.source = n.id → d.Names decl.target → branchFindings d (edgePlace j) = [] := by
  rw [branchIssues_eq, List.append_eq_nil_iff, List.filterMap_eq_nil_iff, branchFindings_node hn, and_comm]
  refine and_congr_right fun _ => ⟨fun h j decl hj hid htarget => ?_, fun h e he => ?_⟩
  · obtain ⟨e, he, rfl, rfl, -, -⟩ := exists_resolved hnd hn hj hid.symm htarget
    rw [branchFindings_edge he hn, h e (List.mem_filter.mpr ⟨he, beq_self_eq_true _⟩)]
    rfl
  · obtain ⟨hmem, hi⟩ := List.mem_filter.mp he
    rw [beq_iff_eq] at hi
    subst hi
    obtain ⟨decl, hdecl, hs, ht, -⟩ := mem_resolvedEdges.mp hmem
    obtain ⟨m, hm, hid⟩ := node_of_indexOf? hs
    rw [hn, Option.some.injEq] at hm
    have htold := h e.position decl hdecl (by rw [← hid, hm]) (exists_indexOf?_iff.mp ⟨_, ht⟩)
    rw [branchFindings_edge hmem hn, Option.toList_eq_nil_iff] at htold
    exact htold

/-- A branching node has a table exactly if nothing is found of the conditions on its edges, and the table leads each label of these to
the target of its edge. -/
theorem branchTable?_eq_some_iff_of_branching (hb : n.spec = .conditionalBranch b) {t : BranchTable} :
    branchTable? d (resolvedEdges d) n i = some t ↔ branchIssues d (resolvedEdges d) n i = [] ∧ t.node = i ∧
      t.routes = (leaving (resolvedEdges d) i).filterMap fun e => e.condition.map fun label => (label, e.target) := by
  obtain ⟨node, routes⟩ := t
  rw [branchTable?, branchLabels?_eq_some_iff.mpr ⟨b, hb, rfl⟩]
  simp only [List.isEmpty_iff, Option.ite_none_right_eq_some, Option.some.injEq, BranchTable.mk.injEq]
  exact and_congr_right fun _ => and_congr eq_comm eq_comm

/-- The tables of a graph that is built are those of its nodes. -/
theorem mem_branchTables_iff {g : Graph} (hg : Graph.build d = .ok g) {t : BranchTable} :
    t ∈ g.branchTables ↔ ∃ n, d.nodes[t.node]? = some n ∧ branchTable? d (resolvedEdges d) n t.node = some t := by
  obtain ⟨hnil, s, -, rfl⟩ := build_eq_ok_iff.mp hg
  simp only [graphAt, List.mem_filterMap, Prod.exists, List.mem_zipIdx_iff_getElem?]
  constructor
  · intro h
    obtain ⟨n, i, hn, ht⟩ := h
    obtain ⟨-, rfl, -⟩ := (branchTable?_eq_some_iff hnil hn).mp ht
    exact ⟨n, hn, ht⟩
  · intro h
    obtain ⟨n, hn, ht⟩ := h
    exact ⟨n, t.node, hn, ht⟩

/-- The routes with a label are those of the edges that carry it. -/
theorem filter_routes (out : List Edge) (label : String) :
    (out.filterMap fun e => e.condition.map fun label => (label, e.target)).filter (·.1 == label) =
      (out.filter (·.condition = some label)).map fun e => (label, e.target) := by
  induction out with
  | nil => rfl
  | cons e out ih =>
    cases hc : e.condition with
    | none => simpa [hc] using ih
    | some other => by_cases hother : other = label <;> simpa [hc, hother] using ih

/-- The table of a branching node leads to the nodes that the only edges with its labels lead to. -/
theorem route_of_branchTable? (hnd : (ids d).Nodup) (hn : d.nodes[i]? = some n) (hb : n.spec = .conditionalBranch b)
    {t : BranchTable} (ht : branchTable? d (resolvedEdges d) n i = some t) (hlabel : label ∈ b.branches) :
    ∃ j decl k, d.edges[j]? = some decl ∧ decl.source = n.id ∧ decl.condition = some label ∧ indexOf? d decl.target = some k ∧
      (∀ j', d.AnswersAt n.id label j' → j' = j) ∧ t.routes.filter (·.1 == label) = [(label, k)] := by
  obtain ⟨hnil, -, hroutes⟩ := (branchTable?_eq_some_iff_of_branching hb).mp ht
  have hanswers := (branchIssues_eq_nil_iff_of_branching hb).mp hnil
  obtain ⟨e, he, hc⟩ := List.mem_map.mp (hanswers.complete label hlabel)
  have hone := filter_eq_singleton hanswers.distinct he
  rw [hc] at hone
  obtain ⟨hmem, hi⟩ := List.mem_filter.mp he
  obtain ⟨decl, hdecl, -, htarget, -⟩ := mem_resolvedEdges.mp hmem
  obtain ⟨decl', hdecl', hid, hcondition, -⟩ := (exists_mem_leaving_iff hnd hn).mp ⟨e, he, rfl, hc⟩
  rw [hdecl, Option.some.injEq] at hdecl'
  subst hdecl'
  refine ⟨e.position, decl, e.target, hdecl, hid, hcondition, htarget, fun j' hj' => ?_, ?_⟩
  · obtain ⟨f, hf, hposition, hlabelled⟩ := (exists_mem_leaving_iff hnd hn).mpr hj'
    have hmemf : f ∈ (leaving (resolvedEdges d) i).filter (fun x => x.condition = some label) :=
      List.mem_filter.mpr ⟨hf, decide_eq_true hlabelled⟩
    rw [hone, List.mem_singleton] at hmemf
    rw [← hposition, hmemf]
  · rw [hroutes, filter_routes, hone, List.map_singleton]

end

/-! ## Everything that is told -/

/-- What is told of the branches of a document accounts for every edge that leaves a node and leads to one. -/
structure BranchesTold (d : Document) : Prop where
  plain : ∀ j decl, d.edges[j]? = some decl → d.Names decl.target → ∀ n ∈ d.nodes, n.id = decl.source →
    n.kind ≠ .conditionalBranch → (branchFindings d (edgePlace j)).map (fun x => (x.code, x.place)) =
      if decl.condition.isSome then [(.conditionOnPlainNode, (edgePlace j).key "condition")] else []
  branching : ∀ j decl, d.edges[j]? = some decl → d.Names decl.target → ∀ n ∈ d.nodes, n.id = decl.source →
    ∀ b, n.spec = .conditionalBranch b → (∃! code, Fate d b.branches j decl code) ∧ ∀ code, Fate d b.branches j decl code →
      (branchFindings d (edgePlace j)).map (fun x => (x.code, x.place)) = code.toList
  missing : ∀ i n, d.nodes[i]? = some n → ∀ b, n.spec = .conditionalBranch b → branchFindings d (nodePlace i) =
    if d.unanswered n.id b.branches = [] then [] else [missingIssue i n (d.unanswered n.id b.branches)]
  noMore : ∀ x ∈ Graph.refusalIssues d, x.code ∈ branchCodes →
    (∃ j decl, d.edges[j]? = some decl ∧ d.Names decl.source ∧ d.Names decl.target ∧ x ∈ branchFindings d (edgePlace j)) ∨
      ∃ i n b, d.nodes[i]? = some n ∧ n.spec = .conditionalBranch b ∧ x ∈ branchFindings d (nodePlace i)
  tabled : ∀ i n, d.nodes[i]? = some n → ∀ b, n.spec = .conditionalBranch b →
    ((∃ t, branchTable? d (resolvedEdges d) n i = some t) ↔ branchFindings d (nodePlace i) = [] ∧
      ∀ j decl, d.edges[j]? = some decl → decl.source = n.id → d.Names decl.target → branchFindings d (edgePlace j) = [])
  built : ∀ g, Graph.build d = .ok g → ∀ t, t ∈ g.branchTables ↔
    ∃ n, d.nodes[t.node]? = some n ∧ branchTable? d (resolvedEdges d) n t.node = some t
  routes : ∀ i n, d.nodes[i]? = some n → ∀ b, n.spec = .conditionalBranch b → ∀ t,
    branchTable? d (resolvedEdges d) n i = some t → t.node = i ∧ (∀ r ∈ t.routes, r.1 ∈ b.branches) ∧ ∀ label ∈ b.branches,
      ∃ j decl k, d.edges[j]? = some decl ∧ decl.source = n.id ∧ decl.condition = some label ∧ indexOf? d decl.target = some k ∧
        (∀ j', d.AnswersAt n.id label j' → j' = j) ∧ t.routes.filter (·.1 == label) = [(label, k)]

end Build

open Build

/-- In a document with distinct ids, what is told of branches accounts for every edge whose two ends name nodes. -/
theorem branches_told_by_edge (d : Document) (hnd : (d.nodes.map (·.id)).Nodup) : BranchesTold d where
  plain := fun j decl hj htarget n hn hid hk => branchFindings_of_plain hnd hj htarget hn hid hk
  branching := fun j decl hj htarget n hn hid b hb =>
    ⟨existsUnique_fate d b.branches j decl, fun code hfate => branchFindings_of_fate hnd hj htarget hn hid hb hfate⟩
  missing := fun i n hn b hb => branchFindings_of_branching hnd hn hb
  noMore := fun x hx hcode => mem_branchFindings hx hcode
  tabled := fun i n hn b hb => by
    rw [← branchIssues_eq_nil_iff_told hnd hn]
    simp only [branchTable?_eq_some_iff_of_branching hb, exists_and_left]
    exact ⟨fun h => h.1, fun h => ⟨h, ⟨i, _⟩, rfl, rfl⟩⟩
  built := fun g hg t => mem_branchTables_iff hg
  routes := fun i n hn b hb t ht => by
    obtain ⟨hnil, hnode, hroutes⟩ := (branchTable?_eq_some_iff_of_branching hb).mp ht
    refine ⟨hnode, fun r hr => ?_, fun label hlabel => route_of_branchTable? hnd hn hb ht hlabel⟩
    rw [hroutes] at hr
    obtain ⟨e, he, hroute⟩ := List.mem_filterMap.mp hr
    obtain ⟨label, hc, rfl⟩ := Option.map_eq_some_iff.mp hroute
    obtain ⟨declared, hlabel, heq⟩ :=
      ((branchIssues_eq_nil_iff_of_branching hb).mp hnil).declared _ (List.mem_map_of_mem he)
    rw [hc, Option.some.injEq] at heq
    exact heq ▸ hlabel

/-- A fork that declares an outcome twice. Of its edges the first has no condition, one an outcome that is not declared, one an outcome
that an edge before it has, and one leads to no node. The edge to the fork has a condition too. -/
def crossroads : Document where
  name := "crossroads"
  description := none
  version := none
  entry := "begin"
  nodes := [⟨"begin", .start [], none⟩, ⟨"fork", .conditionalBranch ⟨"turn", ["left", "right", "left"]⟩, none⟩,
    ⟨"finish", .finish [], none⟩]
  edges := [⟨"begin", "fork", some "late"⟩, ⟨"fork", "finish", none⟩, ⟨"fork", "finish", some "ahead"⟩,
    ⟨"fork", "finish", some "right"⟩, ⟨"fork", "finish", some "right"⟩, ⟨"fork", "nowhere", some "left"⟩]

/-- At the crossroads there is something to tell of every edge but the first to the right, and "left" is missing twice. -/
theorem branches_told_by_edge_crossroads :
    (crossroads.nodes.map (·.id)).Nodup ∧ BranchesTold crossroads ∧
      (List.range 6).map (fun j => (branchFindings crossroads (edgePlace j)).map (·.code)) =
        [[.conditionOnPlainNode], [.unconditionalFromBranch], [.branchUnexpected], [], [.duplicateBranch], []] ∧
      crossroads.unanswered "fork" ["left", "right", "left"] = ["left", "left"] :=
  ⟨by decide, branches_told_by_edge crossroads (by decide), by decide, by decide⟩

/-! ## Missing labels -/

namespace Build

section

variable {d : Document} {j : Nat} {decl : EdgeDecl} {x : Issue}

/-- An edge that leads to no node is told of at its target. -/
theorem exists_dangling (hj : d.edges[j]? = some decl) (htarget : ¬d.Names decl.target) :
    ∃ y ∈ Graph.refusalIssues d, y.code = .danglingReference ∧ y.place = (edgePlace j).key "target" := by
  obtain ⟨y, hy⟩ : ∃ y, danglingIssue d ((edgePlace j).key "target") "edge target" decl.target = [y] ∧
      y.code = .danglingReference ∧ y.place = (edgePlace j).key "target" := by
    rw [danglingIssue, indexOf?_eq_none_iff.mpr htarget]
    exact ⟨_, rfl, rfl, rfl⟩
  have hedge : y ∈ edgeIssues d := by
    refine List.mem_flatMap.mpr ⟨(decl, j), List.mem_zipIdx_iff_getElem?.mpr hj, List.mem_append_right _ ?_⟩
    simp only [hy.1, List.mem_singleton]
  refine ⟨y, ?_, hy.2⟩
  rw [refusalIssues_eq_issues, issues_eq]
  simp only [List.mem_append, hedge, or_true, true_or]

/-- What is told at an edge is not that labels are missing. -/
theorem code_ne_branchMissing (hnd : (ids d).Nodup) (hj : d.edges[j]? = some decl) (hsource : d.Names decl.source)
    (htarget : d.Names decl.target) (hx : x ∈ branchFindings d (edgePlace j)) : x.code ≠ .branchMissing := by
  obtain ⟨n, hn, hid⟩ := hsource
  have hmem := List.mem_map_of_mem (f := fun x : Issue => (x.code, x.place)) hx
  by_cases hk : n.kind = .conditionalBranch
  · obtain ⟨b, hb⟩ := kind_eq_conditionalBranch_iff.mp hk
    obtain ⟨code, hfate, -⟩ := existsUnique_fate d b.branches j decl
    rw [branchFindings_of_fate hnd hj htarget hn hid hb hfate] at hmem
    cases hfate <;> simp_all
  · rw [branchFindings_of_plain hnd hj htarget hn hid hk] at hmem
    split at hmem <;> simp_all

end

end Build

/-- Labels that are told of as missing are declared. If an edge of the node carries one of them, then its target names no node, and that is
told of as well. -/
theorem missing_labels_dangle (d : Document) (hnd : (d.nodes.map (·.id)).Nodup) (x : Issue) (hx : x ∈ Graph.refusalIssues d)
    (hcode : x.code = .branchMissing) :
    ∃ i n b, d.nodes[i]? = some n ∧ n.spec = .conditionalBranch b ∧ x = missingIssue i n (d.unanswered n.id b.branches) ∧
      d.unanswered n.id b.branches ≠ [] ∧ ∀ label ∈ d.unanswered n.id b.branches, label ∈ b.branches ∧
        ∀ j decl, d.edges[j]? = some decl → decl.source = n.id → decl.condition = some label → ¬d.Names decl.target ∧
          ∃ y ∈ Graph.refusalIssues d, y.code = .danglingReference ∧ y.place = (edgePlace j).key "target" := by
  rcases mem_branchFindings hx (hcode ▸ by decide) with hedge | hnode
  · obtain ⟨j, decl, hj, hsource, htarget, hx⟩ := hedge
    exact absurd hcode (code_ne_branchMissing hnd hj hsource htarget hx)
  · obtain ⟨i, n, b, hn, hb, hx⟩ := hnode
    rw [branchFindings_of_branching hnd hn hb] at hx
    split at hx
    · exact absurd hx List.not_mem_nil
    · next hne =>
      refine ⟨i, n, b, hn, hb, List.mem_singleton.mp hx, hne, fun label hlabel => ?_⟩
      obtain ⟨hdeclared, hno⟩ := List.mem_filter.mp hlabel
      refine ⟨hdeclared, fun j decl hj hid hc => ?_⟩
      have htarget : ¬d.Names decl.target := fun h =>
        of_decide_eq_true hno ⟨decl, List.mem_of_getElem? hj, hid, hc, h⟩
      exact ⟨htarget, exists_dangling hj htarget⟩

/-- At the crossroads the two labels that are missing are those of the edge that leads nowhere. -/
theorem missing_labels_dangle_crossroads :
    ∃ x ∈ Graph.refusalIssues crossroads, x.code = .branchMissing ∧ x.place = ((nodePlace 1).key "config").key "branches" ∧
      ∃ i n b, crossroads.nodes[i]? = some n ∧ n.spec = .conditionalBranch b ∧
        x = missingIssue i n (crossroads.unanswered n.id b.branches) := by
  obtain ⟨x, hx, hcode, hplace⟩ : ∃ x ∈ Graph.refusalIssues crossroads, x.code = .branchMissing ∧
      x.place = ((nodePlace 1).key "config").key "branches" := by decide
  obtain ⟨i, n, b, hn, hb, heq, -⟩ := missing_labels_dangle crossroads (by decide) x hx hcode
  exact ⟨x, hx, hcode, hplace, i, n, b, hn, hb, heq⟩

/-- That a label is told of as missing does not mean that no edge of the node carries it. -/
theorem missing_label_written_crossroads :
    (crossroads.nodes.map (·.id)).Nodup ∧
      missingIssue 1 ⟨"fork", .conditionalBranch ⟨"turn", ["left", "right", "left"]⟩, none⟩ ["left", "left"] ∈
        Graph.refusalIssues crossroads ∧
      ∃ e ∈ crossroads.edges, e.source = "fork" ∧ e.condition = some "left" := by
  decide

end Workflow
