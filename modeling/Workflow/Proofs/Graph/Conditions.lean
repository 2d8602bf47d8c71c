import Workflow.Proofs.Graph.Image
import Workflow.Proofs.Graph.Islands
import Workflow.Proofs.Schema.Local

/-!
# What is told of conditions, place by place

The check of conditions runs over the edges that leave a node, each with the labels of those before it. Its issues stand at the places
of what they are about: at an edge the issue of that edge (`branchFindings_of_fate`, `branchFindings_of_plain`), at a branching node
the one issue for the labels that no edge answers (`branchFindings_of_branching`), and nowhere else any (`mem_branchFindings`).
-/

namespace Workflow

/-! ## Labels of a document -/

namespace Document

variable {d : Document} {id label : String}

instance (d : Document) (id : String) : Decidable (d.Names id) := inferInstanceAs (Decidable (∃ n ∈ d.nodes, n.id = id))

/-- The edge declared at a place leaves the node with an id, carries a label, and leads to a node. -/
def AnswersAt (d : Document) (id label : String) (j : Nat) : Prop :=
  ∃ e, d.edges[j]? = some e ∧ e.source = id ∧ e.condition = some label ∧ d.Names e.target

/-- Some edge that leads to a node leaves the node with an id and carries a label. -/
def Answered (d : Document) (id label : String) : Prop :=
  ∃ e ∈ d.edges, e.source = id ∧ e.condition = some label ∧ d.Names e.target

instance (d : Document) (id label : String) : Decidable (d.Answered id label) :=
  inferInstanceAs (Decidable (∃ e ∈ d.edges, e.source = id ∧ e.condition = some label ∧ d.Names e.target))

/-- Those of some labels that no edge answers, in their order. -/
def unanswered (d : Document) (id : String) (labels : List String) : List String :=
  labels.filter fun label => ¬d.Answered id label

theorem answered_iff : d.Answered id label ↔ ∃ j, d.AnswersAt id label j := by
  constructor
  · intro h
    obtain ⟨e, he, hrest⟩ := h
    obtain ⟨j, hj⟩ := List.mem_iff_getElem?.mp he
    exact ⟨j, e, hj, hrest⟩
  · intro h
    obtain ⟨j, e, hj, hrest⟩ := h
    exact ⟨e, List.mem_of_getElem? hj, hrest⟩

end Document

namespace Build

variable {d : Document} {n : Node} {i j : Nat} {e : Edge} {out : List Edge}

/-! ## What there is to say of an edge -/

/-- What becomes of the edge declared at a place, which leaves a branching node and leads to a node: it has no condition, or a label that
is not declared, or one that an edge before it answers, or it is the first edge with a declared label. The issue that there is to tell
of it comes along, with its place. -/
inductive Fate (d : Document) (labels : List String) (j : Nat) (e : EdgeDecl) : Option (IssueCode × Place) → Prop
  | unconditional (h : e.condition = none) : Fate d labels j e (some (.unconditionalFromBranch, edgePlace j))
  | undeclared (label : String) (h : e.condition = some label) (hlabel : label ∉ labels) :
    Fate d labels j e (some (.branchUnexpected, (edgePlace j).key "condition"))
  | repeated (label : String) (h : e.condition = some label) (hlabel : label ∈ labels)
    (hearlier : ∃ k < j, d.AnswersAt e.source label k) :
    Fate d labels j e (some (.duplicateBranch, (edgePlace j).key "condition"))
  | first (label : String) (h : e.condition = some label) (hlabel : label ∈ labels)
    (hfirst : ¬∃ k < j, d.AnswersAt e.source label k) : Fate d labels j e none

/-- What the report on a document tells of conditions, at a place or inside it. -/
def branchFindings (d : Document) (place : Place) : List Issue :=
  (Graph.refusalIssues d).filter fun x => decide (x.code ∈ branchCodes) && decide (place <+: x.place)

/-- The issue of a branching node for labels that no edge answers. -/
def missingIssue (i : Nat) (n : Node) (labels : List String) : Issue :=
  ⟨.branchMissing, ((nodePlace i).key "config").key "branches",
    "conditional-branch node '" ++ n.id ++ "' has no edge for declared label(s): " ++ ", ".intercalate labels⟩

/-- The labels on the edges of a list that stand before an edge. -/
def labelsBefore (out : List Edge) (e : Edge) : List String :=
  (out.filter (·.position < e.position)).filterMap (·.condition)

/-- The issue of an edge that leaves a node, given the edges that leave it. -/
def edgeIssue? (d : Document) (n : Node) (out : List Edge) (e : Edge) : Option Issue :=
  match n.spec.branchLabels? with
  | none => plainEdgeIssue d n e
  | some labels => branchEdgeIssue d n labels (labelsBefore out e) e

/-- The issue of a node some of whose labels no edge carries, if it has labels. -/
def nodeIssue (i : Nat) (n : Node) (out : List Edge) : List Issue :=
  match n.spec.branchLabels? with
  | none => []
  | some labels => missingLabelIssue i n labels out

/-! ## The order of edges -/

/-- In an ordered list the edges that come before one of them are those that stand before it. -/
theorem filter_position_lt {before after : List Edge}
    (h : (before ++ e :: after).Pairwise fun a b => a.position < b.position) :
    (before ++ e :: after).filter (·.position < e.position) = before := by
  rw [List.pairwise_append, List.pairwise_cons] at h
  obtain ⟨-, ⟨hafter, -⟩, hbefore⟩ := h
  have hkept : before.filter (·.position < e.position) = before :=
    List.filter_eq_self.mpr fun a ha => decide_eq_true (hbefore a ha e List.mem_cons_self)
  have hleft : (e :: after).filter (·.position < e.position) = [] := by
    refine List.filter_eq_nil_iff.mpr (List.forall_mem_cons.mpr ⟨by simp, fun a ha hlt => ?_⟩)
    exact absurd (of_decide_eq_true hlt) (Nat.lt_asymm (hafter a ha))
  rw [List.filter_append, hkept, hleft, List.append_nil]

/-- In an ordered list each edge has the labels of the edges that stand before it. -/
theorem withEarlierLabels_eq (h : out.Pairwise fun a b => a.position < b.position) :
    withEarlierLabels out = out.map fun e => (e, labelsBefore out e) := by
  have hfst := congrArg (List.map fun e => (e, labelsBefore out e)) (List.zipIdx_map_fst 0 out)
  rw [← hfst, List.map_map, withEarlierLabels]
  refine List.map_congr_left fun x hx => ?_
  obtain ⟨hlt, heq⟩ := List.getElem?_eq_some_iff.mp (List.mem_zipIdx_iff_getElem?.mp hx)
  have hsplit : out.take x.2 ++ x.1 :: out.drop (x.2 + 1) = out := by
    rw [← heq, ← List.drop_eq_getElem_cons hlt, List.take_append_drop]
  have hbefore := filter_position_lt (hsplit ▸ h)
  rw [hsplit] at hbefore
  rw [Function.comp_apply, labelsBefore, hbefore]

/-- The issues of the conditions on the edges that leave a node: those of the edges, one by one, and that of the node. -/
theorem branchIssues_eq (d : Document) (n : Node) (i : Nat) :
    branchIssues d (resolvedEdges d) n i =
      (leaving (resolvedEdges d) i).filterMap (edgeIssue? d n (leaving (resolvedEdges d) i)) ++
        nodeIssue i n (leaving (resolvedEdges d) i) := by
  have hordered : (leaving (resolvedEdges d) i).Pairwise fun a b => a.position < b.position := (resolvedEdges_pairwise d).filter _
  unfold branchIssues edgeIssue? nodeIssue
  cases n.spec.branchLabels? with
  | none => rw [List.append_nil]
  | some labels => simp only [withEarlierLabels_eq hordered, List.filterMap_map]; rfl

/-! ## Places -/

/-- Issues inside a place are in no other place that is as deep. -/
theorem filter_inside_of_ne {codes : IssueCode → Bool} {inner : Place} {issues : List Issue} (h : AllWithin codes inner issues)
    (place : Place) (hlength : place.length = inner.length) (hne : place ≠ inner) :
    issues.filter (fun x => decide (place <+: x.place)) = [] :=
  h.filter_outside (fun hp => hne (hp.eq_of_length hlength)) fun hp => hne (hp.eq_of_length hlength.symm).symm

theorem edgePlace_injective {j k : Nat} (h : edgePlace j = edgePlace k) : j = k := by
  simpa [edgePlace, Place.item] using h

theorem nodePlace_injective {i k : Nat} (h : nodePlace i = nodePlace k) : i = k := by
  simpa [nodePlace, Place.item] using h

theorem edgePlace_ne_nodePlace (j i : Nat) : edgePlace j ≠ nodePlace i := by
  simp [edgePlace, nodePlace, Place.item, Place.key, Place.root]

theorem within_edgeIssue? (d : Document) (n : Node) (out : List Edge) (e : Edge) :
    AllWithin (· ∈ branchCodes) (edgePlace e.position) (edgeIssue? d n out e).toList := by
  have hcondition : edgePlace e.position <+: (edgePlace e.position).key "condition" := Place.prefix_key _ _
  unfold edgeIssue? plainEdgeIssue branchEdgeIssue
  cases n.spec.branchLabels? with
  | none =>
    cases e.condition with
    | none => exact AllWithin.nil
    | some label => exact AllWithin.singleton rfl hcondition
  | some labels =>
    cases e.condition with
    | none => exact AllWithin.singleton rfl (List.prefix_refl _)
    | some label =>
      simp only
      split
      · exact AllWithin.singleton rfl hcondition
      · split
        · exact AllWithin.singleton rfl hcondition
        · exact AllWithin.nil

theorem within_nodeIssue (i : Nat) (n : Node) (out : List Edge) :
    AllWithin (· ∈ branchCodes) (nodePlace i) (nodeIssue i n out) := by
  have hbranches : nodePlace i <+: ((nodePlace i).key "config").key "branches" :=
    (Place.prefix_key _ _).trans (Place.prefix_key _ _)
  unfold nodeIssue missingLabelIssue
  cases n.spec.branchLabels? with
  | none => exact AllWithin.nil
  | some labels =>
    simp only
    split
    · exact AllWithin.nil
    · exact AllWithin.singleton rfl hbranches

/-- Of the issues of some edges those at one place are those of the edges that stand there. -/
theorem filter_edgeIssues (d : Document) (n : Node) (out edges : List Edge) (j : Nat) :
    (edges.filterMap (edgeIssue? d n out)).filter (fun x => decide (edgePlace j <+: x.place)) =
      (edges.filter (·.position = j)).filterMap (edgeIssue? d n out) := by
  rw [List.filter_filterMap, List.filterMap_filter]
  refine List.filterMap_congr fun e _ => ?_
  have hwithin := within_edgeIssue? d n out e
  cases hissue : edgeIssue? d n out e with
  | none => simp
  | some x =>
    rw [hissue] at hwithin
    have hplace : decide (edgePlace j <+: x.place) = decide (e.position = j) := by
      by_cases hj : e.position = j
      · subst hj
        rw [decide_eq_true (hwithin x (List.mem_singleton_self x)).2, decide_eq_true rfl]
      · have hnone := filter_inside_of_ne hwithin (edgePlace j) rfl fun h => hj (edgePlace_injective h).symm
        rw [decide_eq_false hj]
        simpa using hnone
    rw [Option.filter_some, hplace]

/-- Of the items of a list that differ in something, one is like a given one. -/
theorem filter_eq_singleton {α β : Type} [DecidableEq β] {f : α → β} {l : List α} (hnd : (l.map f).Nodup) {a : α} (ha : a ∈ l) :
    l.filter (fun b => f b = f a) = [a] := by
  obtain ⟨before, after, rfl⟩ := List.append_of_mem ha
  rw [List.map_append, List.map_cons, List.nodup_middle, List.nodup_cons, List.mem_append, not_or] at hnd
  obtain ⟨⟨hbefore, hafter⟩, -⟩ := hnd
  have hnone : ∀ part : List α, f a ∉ part.map f → part.filter (fun b => f b = f a) = [] := fun part h =>
    List.filter_eq_nil_iff.mpr fun b hb heq => h (List.mem_map.mpr ⟨b, hb, of_decide_eq_true heq⟩)
  have hself : decide (f a = f a) = true := decide_eq_true rfl
  rw [List.filter_append, List.filter_cons, if_pos hself, hnone before hbefore, hnone after hafter, List.nil_append]

/-- Of the edges that leave a position, one stands at the place of an edge if that edge leaves the position. -/
theorem filter_leaving (he : e ∈ resolvedEdges d) (i : Nat) :
    (leaving (resolvedEdges d) i).filter (·.position = e.position) = if e.source = i then [e] else [] := by
  have hone : (resolvedEdges d).filter (·.position = e.position) = [e] :=
    filter_eq_singleton (List.pairwise_map.mpr ((resolvedEdges_pairwise d).imp Nat.ne_of_lt)) he
  rw [leaving, List.filter_comm, hone, List.filter_cons, List.filter_nil]
  simp only [beq_iff_eq]

/-! ## What is told at a place -/

theorem branchFindings_eq (d : Document) (place : Place) :
    branchFindings d place = (d.nodes.zipIdx.flatMap fun x => branchIssues d (resolvedEdges d) x.1 x.2).filter
      fun x => decide (place <+: x.place) := by
  rw [branchFindings, refusalIssues_eq_issues, ← filter_branchCodes_issues, List.filter_filter]
  exact List.filter_congr fun x _ => Bool.and_comm _ _

/-- At a resolved edge its own issue is told, and nothing else. -/
theorem branchFindings_edge (he : e ∈ resolvedEdges d) (hn : d.nodes[e.source]? = some n) :
    branchFindings d (edgePlace e.position) = (edgeIssue? d n (leaving (resolvedEdges d) e.source) e).toList := by
  have hat : ∀ (m : Node) (i : Nat),
      (branchIssues d (resolvedEdges d) m i).filter (fun x => decide (edgePlace e.position <+: x.place)) =
        (if e.source = i then [e] else []).filterMap (edgeIssue? d m (leaving (resolvedEdges d) i)) := by
    intro m i
    rw [branchIssues_eq, List.filter_append, filter_edgeIssues, filter_leaving he,
      filter_inside_of_ne (within_nodeIssue i m _) (edgePlace e.position) rfl (edgePlace_ne_nodePlace _ _), List.append_nil]
  rw [branchFindings_eq, List.filter_flatMap, flatMap_zipIdx_eq hn]
  · rw [Nat.zero_add, hat, if_pos rfl, List.filterMap_cons, List.filterMap_nil]
    cases edgeIssue? d n (leaving (resolvedEdges d) e.source) e <;> rfl
  · intro x hx
    rw [hat, if_neg fun h => hx (by omega), List.filterMap_nil]

/-- At a node the labels that no edge carries are told, and nothing else. -/
theorem branchFindings_node (hn : d.nodes[i]? = some n) :
    branchFindings d (nodePlace i) = nodeIssue i n (leaving (resolvedEdges d) i) := by
  have hat : ∀ (m : Node) (k : Nat),
      (branchIssues d (resolvedEdges d) m k).filter (fun x => decide (nodePlace i <+: x.place)) =
        (nodeIssue k m (leaving (resolvedEdges d) k)).filter (fun x => decide (nodePlace i <+: x.place)) := by
    intro m k
    have hedges : ((leaving (resolvedEdges d) k).filterMap (edgeIssue? d m (leaving (resolvedEdges d) k))).filter
        (fun x => decide (nodePlace i <+: x.place)) = [] := by
      refine List.filter_eq_nil_iff.mpr fun x hx hplace => ?_
      obtain ⟨e, -, hissue⟩ := List.mem_filterMap.mp hx
      have hwithin := within_edgeIssue? d m (leaving (resolvedEdges d) k) e
      rw [hissue] at hwithin
      have hnone := filter_inside_of_ne hwithin (nodePlace i) rfl (edgePlace_ne_nodePlace _ _).symm
      exact List.filter_eq_nil_iff.mp hnone x (List.mem_singleton_self x) hplace
    rw [branchIssues_eq, List.filter_append, hedges, List.nil_append]
  rw [branchFindings_eq, List.filter_flatMap, flatMap_zipIdx_eq hn]
  · rw [Nat.zero_add, hat, (within_nodeIssue i n _).filter_inside]
  · intro x hx
    rw [hat]
    refine filter_inside_of_ne (within_nodeIssue x.2 x.1 _) (nodePlace i) rfl fun h => hx ?_
    rw [nodePlace_injective h, Nat.zero_add]

/-! ## Declared edges and resolved ones -/

section

variable {label : String} {decl : EdgeDecl} {b : Branching} {code : Option (IssueCode × Place)}

/-- A declared edge that leaves a node and leads to one is resolved. -/
theorem exists_resolved (hnd : (ids d).Nodup) (hn : d.nodes[i]? = some n) (hj : d.edges[j]? = some decl) (hid : n.id = decl.source)
    (htarget : d.Names decl.target) : ∃ e ∈ resolvedEdges d, e.position = j ∧ e.source = i ∧ e.condition = decl.condition ∧
      indexOf? d decl.target = some e.target := by
  obtain ⟨t, ht⟩ := exists_indexOf?_iff.mpr htarget
  have hs : indexOf? d decl.source = some i := hid ▸ indexOf?_id hnd hn
  exact ⟨⟨i, t, decl.condition, j⟩, mem_resolvedEdges.mpr ⟨decl, hj, hs, ht, rfl⟩, rfl, rfl, rfl, ht⟩

/-- The resolved edges that leave a node with a label are the declared edges that answer it. -/
theorem exists_mem_leaving_iff (hnd : (ids d).Nodup) (hn : d.nodes[i]? = some n) :
    (∃ e ∈ leaving (resolvedEdges d) i, e.position = j ∧ e.condition = some label) ↔ d.AnswersAt n.id label j := by
  constructor
  · intro h
    obtain ⟨e, he, rfl, hc⟩ := h
    obtain ⟨he, hi⟩ := List.mem_filter.mp he
    obtain ⟨decl, hdecl, hs, ht, hcondition⟩ := mem_resolvedEdges.mp he
    obtain ⟨m, hm, hid⟩ := node_of_indexOf? hs
    rw [beq_iff_eq.mp hi, hn, Option.some.injEq] at hm
    exact ⟨decl, hdecl, by rw [← hid, hm], by rw [← hcondition, hc], exists_indexOf?_iff.mp ⟨_, ht⟩⟩
  · intro h
    obtain ⟨decl, hdecl, hid, hc, htarget⟩ := h
    obtain ⟨e, he, hj, hi, hcondition, -⟩ := exists_resolved hnd hn hdecl hid.symm htarget
    exact ⟨e, List.mem_filter.mpr ⟨he, beq_iff_eq.mpr hi⟩, hj, by rw [hcondition, hc]⟩

/-- The labels on the resolved edges that leave a node are those that an edge answers. -/
theorem mem_labels_iff (hnd : (ids d).Nodup) (hn : d.nodes[i]? = some n) :
    label ∈ (leaving (resolvedEdges d) i).filterMap (·.condition) ↔ d.Answered n.id label := by
  simp only [Document.answered_iff, ← exists_mem_leaving_iff hnd hn, List.mem_filterMap]
  constructor
  · intro h
    obtain ⟨e, he, hc⟩ := h
    exact ⟨e.position, e, he, rfl, hc⟩
  · intro h
    obtain ⟨_, e, he, rfl, hc⟩ := h
    exact ⟨e, he, hc⟩

/-- The labels before an edge are those that an edge declared before it answers. -/
theorem mem_labelsBefore_iff (hnd : (ids d).Nodup) (hn : d.nodes[i]? = some n) :
    label ∈ labelsBefore (leaving (resolvedEdges d) i) e ↔ ∃ k < e.position, d.AnswersAt n.id label k := by
  simp only [← exists_mem_leaving_iff hnd hn, labelsBefore, List.mem_filterMap, List.mem_filter, decide_eq_true_eq]
  constructor
  · intro h
    obtain ⟨f, ⟨hf, hlt⟩, hc⟩ := h
    exact ⟨f.position, hlt, f, hf, rfl, hc⟩
  · intro h
    obtain ⟨_, hlt, f, hf, rfl, hc⟩ := h
    exact ⟨f, ⟨hf, hlt⟩, hc⟩

/-! ## What becomes of an edge -/

/-- Exactly one thing becomes of an edge that leaves a branching node. -/
theorem existsUnique_fate (d : Document) (labels : List String) (j : Nat) (decl : EdgeDecl) : ∃! code, Fate d labels j decl code := by
  have hunique : ∀ code code', Fate d labels j decl code → Fate d labels j decl code' → code' = code := by
    intro code code' h h'
    cases h <;> cases h' <;> grind
  suffices hex : ∃ code, Fate d labels j decl code from
    hex.elim fun code h => ⟨code, h, fun code' h' => hunique code code' h h'⟩
  cases hc : decl.condition with
  | none => exact ⟨_, .unconditional hc⟩
  | some label =>
    by_cases hlabel : label ∈ labels
    · by_cases hearlier : ∃ k < j, d.AnswersAt decl.source label k
      · exact ⟨_, .repeated label hc hlabel hearlier⟩
      · exact ⟨_, .first label hc hlabel hearlier⟩
    · exact ⟨_, .undeclared label hc hlabel⟩

/-- What is told of an edge that leaves a branching node is what becomes of it. -/
theorem branchFindings_of_fate (hnd : (ids d).Nodup) (hj : d.edges[j]? = some decl) (htarget : d.Names decl.target)
    (hn : n ∈ d.nodes) (hid : n.id = decl.source) (hb : n.spec = .conditionalBranch b) (hfate : Fate d b.branches j decl code) :
    (branchFindings d (edgePlace j)).map (fun x => (x.code, x.place)) = code.toList := by
  obtain ⟨i, hi⟩ := List.mem_iff_getElem?.mp hn
  obtain ⟨e, he, rfl, rfl, hc, -⟩ := exists_resolved hnd hi hj hid htarget
  have hbefore {label : String} : label ∈ labelsBefore (leaving (resolvedEdges d) e.source) e ↔
      ∃ k < e.position, d.AnswersAt n.id label k := mem_labelsBefore_iff hnd hi
  have hlabels : n.spec.branchLabels? = some b.branches := branchLabels?_eq_some_iff.mpr ⟨b, hb, rfl⟩
  rw [branchFindings_edge he hi, edgeIssue?, hlabels]
  simp only [branchEdgeIssue, hc]
  cases hfate with
  | unconditional h => simp only [h]; rfl
  | undeclared label h hlabel => simp only [h, hlabel, not_false_eq_true, if_true]; rfl
  | repeated label h hlabel hearlier =>
    simp only [h, hlabel, not_true_eq_false, if_false, hbefore, hid, hearlier, if_true]
    rfl
  | first label h hlabel hfirst =>
    simp only [h, hlabel, not_true_eq_false, if_false, hbefore, hid, hfirst]
    rfl

/-- An edge that leaves a node of another kind is told of if it has a condition. -/
theorem branchFindings_of_plain (hnd : (ids d).Nodup) (hj : d.edges[j]? = some decl) (htarget : d.Names decl.target)
    (hn : n ∈ d.nodes) (hid : n.id = decl.source) (hk : n.kind ≠ .conditionalBranch) :
    (branchFindings d (edgePlace j)).map (fun x => (x.code, x.place)) =
      if decl.condition.isSome then [(.conditionOnPlainNode, (edgePlace j).key "condition")] else [] := by
  obtain ⟨i, hi⟩ := List.mem_iff_getElem?.mp hn
  obtain ⟨e, he, rfl, rfl, hc, -⟩ := exists_resolved hnd hi hj hid htarget
  rw [branchFindings_edge he hi, edgeIssue?, branchLabels?_eq_none_iff.mpr hk]
  simp only [plainEdgeIssue, hc]
  cases decl.condition <;> rfl

/-- At a branching node the labels that no edge answers are told, if there are any. -/
theorem branchFindings_of_branching (hnd : (ids d).Nodup) (hn : d.nodes[i]? = some n) (hb : n.spec = .conditionalBranch b) :
    branchFindings d (nodePlace i) =
      if d.unanswered n.id b.branches = [] then [] else [missingIssue i n (d.unanswered n.id b.branches)] := by
  have hlabels : n.spec.branchLabels? = some b.branches := branchLabels?_eq_some_iff.mpr ⟨b, hb, rfl⟩
  have hmissing : b.branches.filter (· ∉ (leaving (resolvedEdges d) i).filterMap (·.condition)) = d.unanswered n.id b.branches := by
    simp only [Document.unanswered, mem_labels_iff hnd hn]
  rw [branchFindings_node hn, nodeIssue, hlabels]
  simp only [missingLabelIssue, hmissing, List.isEmpty_iff]
  rfl

/-- Every issue of conditions stands at a resolved edge or at a branching node. -/
theorem mem_branchFindings {x : Issue} (hx : x ∈ Graph.refusalIssues d) (hcode : x.code ∈ branchCodes) :
    (∃ j decl, d.edges[j]? = some decl ∧ d.Names decl.source ∧ d.Names decl.target ∧ x ∈ branchFindings d (edgePlace j)) ∨
      ∃ i n b, d.nodes[i]? = some n ∧ n.spec = .conditionalBranch b ∧ x ∈ branchFindings d (nodePlace i) := by
  have hfinding : ∀ place : Place, place <+: x.place → x ∈ branchFindings d place := fun place hplace =>
    List.mem_filter.mpr ⟨hx, by rw [decide_eq_true hcode, decide_eq_true hplace]; rfl⟩
  have hmem : x ∈ (issues d).filter (·.code ∈ branchCodes) :=
    List.mem_filter.mpr ⟨refusalIssues_eq_issues d ▸ hx, decide_eq_true hcode⟩
  rw [filter_branchCodes_issues] at hmem
  obtain ⟨⟨n, i⟩, hn, hmem⟩ := List.mem_flatMap.mp hmem
  have hn := List.mem_zipIdx_iff_getElem?.mp hn
  rw [branchIssues_eq, List.mem_append] at hmem
  rcases hmem with hedge | hnode
  · obtain ⟨e, he, hissue⟩ := List.mem_filterMap.mp hedge
    obtain ⟨decl, hdecl, hs, ht, -⟩ := mem_resolvedEdges.mp (List.mem_filter.mp he).1
    have hwithin := within_edgeIssue? d n (leaving (resolvedEdges d) i) e
    rw [hissue] at hwithin
    exact Or.inl ⟨e.position, decl, hdecl, exists_indexOf?_iff.mp ⟨_, hs⟩, exists_indexOf?_iff.mp ⟨_, ht⟩,
      hfinding _ (hwithin x (List.mem_singleton_self x)).2⟩
  · have hplace := (within_nodeIssue i n _ x hnode).2
    rw [nodeIssue] at hnode
    cases hlabels : n.spec.branchLabels? with
    | none =>
      rw [hlabels] at hnode
      exact absurd hnode List.not_mem_nil
    | some labels =>
      obtain ⟨b, hb, -⟩ := branchLabels?_eq_some_iff.mp hlabels
      exact Or.inr ⟨i, n, b, hn, hb, hfinding _ hplace⟩

end

end Build

end Workflow
