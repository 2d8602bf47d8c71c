import Workflow.Proofs.Graph.Reach
import Workflow.Proofs.Graph.Resolve

/-!
# The checks of a structure, one by one

For each check of `Build.issues`, when it finds nothing: collisions with state keys, references, the entry, reachability,
branch labels, ends.
-/

namespace Workflow

/-- A property of the items of a list and their positions, item by item. -/
theorem forall_mem_zipIdx {α : Type} {l : List α} {p : α → Nat → Prop} :
    (∀ x ∈ l.zipIdx, p x.1 x.2) ↔ ∀ i a, l[i]? = some a → p a i := by
  simp only [Prod.forall, List.mem_zipIdx_iff_getElem?]
  exact ⟨fun h i a => h a i, fun h a i => h i a⟩

/-- A property of the items of a list, their positions left aside. -/
theorem forall_mem_zipIdx_fst {α : Type} {l : List α} {p : α → Prop} : (∀ x ∈ l.zipIdx, p x.1) ↔ ∀ a ∈ l, p a := by
  rw [forall_mem_zipIdx (p := fun a _ => p a)]
  exact ⟨fun h a ha => (List.mem_iff_getElem?.mp ha).elim fun i hi => h i a hi,
    fun h i a ha => h a (List.mem_of_getElem? ha)⟩

namespace Build

variable {d : Document}

/-! ## State keys -/

/-- A name is a state key of a document exactly if some node has a state field with it. -/
theorem mem_stateKeys {key : String} : key ∈ stateKeys d ↔ ∃ m ∈ d.nodes, ∃ f ∈ m.spec.stateFields, f.name = key := by
  simp only [stateKeys, List.mem_flatMap, List.mem_map]

/-- No collision is found exactly if no node id is a state key. -/
theorem collisionIssues_eq_nil_iff :
    collisionIssues d = [] ↔ ∀ n ∈ d.nodes, ∀ m ∈ d.nodes, ∀ f ∈ m.spec.stateFields, f.name ≠ n.id := by
  rw [collisionIssues, List.filterMap_eq_nil_iff]
  simp only [ite_eq_right_iff, reduceCtorEq, imp_false]
  refine (forall_mem_zipIdx_fst (p := fun n : Node => n.id ∉ stateKeys d)).trans ?_
  simp only [mem_stateKeys, not_exists, not_and, ne_eq]

/-! ## References -/

/-- A reference is not dangling exactly if it names a node. -/
theorem danglingIssue_eq_nil_iff {place : Place} {what id : String} :
    danglingIssue d place what id = [] ↔ d.Names id := by
  rw [← exists_indexOf?_iff, danglingIssue]
  cases indexOf? d id <;> simp

/-- No edge is found dangling exactly if both ends of every edge name nodes. -/
theorem edgeIssues_eq_nil_iff : edgeIssues d = [] ↔ ∀ e ∈ d.edges, d.Names e.source ∧ d.Names e.target := by
  rw [edgeIssues, List.flatMap_eq_nil_iff]
  simp only [List.append_eq_nil_iff, danglingIssue_eq_nil_iff]
  exact forall_mem_zipIdx_fst (p := fun e : EdgeDecl => d.Names e.source ∧ d.Names e.target)

/-! ## The entry -/

/-- The start positions are those of start nodes. -/
theorem mem_starts {i : Nat} : i ∈ starts d ↔ ∃ n, d.nodes[i]? = some n ∧ n.kind = .start := by
  rw [starts, mem_positions (p := fun n : Node => n.kind == .start)]
  simp only [beq_iff_eq]

/-- The entry is agreed upon exactly if the document names the only start node. -/
theorem agreedStart?_eq_some_iff {s : Nat} :
    agreedStart? d = some s ↔ starts d = [s] ∧ indexOf? d d.entry = some s := by
  rw [agreedStart?]
  rcases hs : starts d with _ | ⟨a, _ | ⟨b, rest⟩⟩
  · simp
  · by_cases he : indexOf? d d.entry = some a
    · simp only [he, if_true, Option.some.injEq, List.cons.injEq, and_true, and_self]
    · simp only [he, if_false, reduceCtorEq, List.cons.injEq, and_true, false_iff, not_and]
      rintro rfl
      exact he
  · simp

/-- Nothing is wrong with the entry exactly if it is agreed upon. -/
theorem entryIssues_eq_nil_iff : entryIssues d = [] ↔ ∃ s, agreedStart? d = some s := by
  simp only [agreedStart?_eq_some_iff]
  rw [entryIssues, List.append_eq_nil_iff, danglingIssue]
  rcases starts d with _ | ⟨a, _ | ⟨b, rest⟩⟩
  · simp
  · cases indexOf? d d.entry with
    | none => simp
    | some declared => by_cases h : declared = a <;> simp [h, eq_comm]
  · simp

/-- The walk over the graph begins at the entry that is agreed upon. -/
theorem root?_of_agreedStart? {s : Nat} (h : agreedStart? d = some s) : root? d = some s := by
  rw [root?, h, Option.some_or]

/-! ## Reachability -/

/-- Some edge of a list leads from the first position to the second. -/
def Hop (edges : List Edge) (i j : Nat) : Prop := ∃ e ∈ edges, e.source = i ∧ e.target = j

/-- The neighbours of a position in the table of targets are the targets of the edges that leave it. -/
theorem leads_targets_iff {size : Nat} {edges : List Edge} {i j : Nat} :
    Leads (targets size edges) i j ↔ i < size ∧ Hop edges i j := by
  rw [Leads, targets, List.getElem?_toArray, List.getElem?_map]
  by_cases hi : i < size
  · rw [List.getElem?_range hi]
    simp only [Option.map_some, Option.getD_some, List.mem_map, List.mem_filter, beq_iff_eq, hi, true_and, Hop, and_assoc]
  · rw [List.getElem?_eq_none (by simpa using hi)]
    simp [hi]

/-- The table of targets has a row for each position. -/
theorem size_targets (size : Nat) (edges : List Edge) : (targets size edges).size = size := by
  simp [targets]

/-- Resolved edges join positions of nodes. -/
theorem lt_of_hop {i j : Nat} (h : Hop (resolvedEdges d) i j) : i < d.nodes.length ∧ j < d.nodes.length := by
  obtain ⟨e, he, rfl, rfl⟩ := h
  obtain ⟨decl, -, hs, ht, -⟩ := mem_resolvedEdges.mp he
  exact ⟨indexOf?_lt hs, indexOf?_lt ht⟩

/-- The positions that the walk reaches are those that the resolved edges lead to. -/
theorem mem_reach_targets_iff {root : Nat} (hroot : root < d.nodes.length) (j : Nat) :
    j ∈ reach (targets d.nodes.length (resolvedEdges d)) root ↔
      Relation.ReflTransGen (Hop (resolvedEdges d)) root j := by
  have hleads : Leads (targets d.nodes.length (resolvedEdges d)) = Hop (resolvedEdges d) := by
    funext a b
    rw [leads_targets_iff]
    exact propext ⟨fun h => h.2, fun h => ⟨(lt_of_hop h).1, h⟩⟩
  rw [mem_reach_iff (by rw [hleads, size_targets]; exact fun _ _ h => (lt_of_hop h).2) (by rwa [size_targets]), LeadsOn,
    hleads]

/-- The root of the walk is the position of a node. -/
theorem root?_lt {root : Nat} (h : root? d = some root) : root < d.nodes.length := by
  have hstart : ∀ i ∈ starts d, i < d.nodes.length := by
    intro i hi
    obtain ⟨n, hn, -⟩ := mem_starts.mp hi
    exact (List.getElem?_eq_some_iff.mp hn).1
  rw [root?, Option.or_eq_some_iff, Option.or_eq_some_iff] at h
  rcases h with h | ⟨-, h | ⟨-, h⟩⟩
  · exact indexOf?_lt (agreedStart?_eq_some_iff.mp h).2
  · exact hstart root (List.mem_of_head? h)
  · exact indexOf?_lt h

/-- A row of a table that reaches itself is in its own component, and first there if it is first in the table. -/
theorem component_head? {row : Nat × List Nat} {table : List (Nat × List Nat)} (h : row.1 ∈ row.2) :
    (component (row :: table) row).head? = some row.1 := by
  simp [component, h]

/-- A component told at its first position gives an issue, whatever its form. -/
theorem islandIssues_ne_nil {next members : List Nat} {rootId : String} {i : Nat} (h : members.head? = some i) :
    islandIssues d next rootId i members ≠ [] := by
  rw [islandIssues, if_pos h]
  split <;> exact List.cons_ne_nil _ _

/-- Nothing is found out of reach exactly if the resolved edges lead from the root to every position: the first position out
of reach would be told, alone or as the first of its cycle. -/
theorem reachIssues_eq_nil_iff {root : Nat} (h : root? d = some root) :
    reachIssues d = [] ↔ ∀ i < d.nodes.length, Relation.ReflTransGen (Hop (resolvedEdges d)) root i := by
  have hmem : ∀ i, i ∈ (List.range d.nodes.length).filter
        (· ∉ reach (targets d.nodes.length (resolvedEdges d)) root) ↔
      i < d.nodes.length ∧ ¬Relation.ReflTransGen (Hop (resolvedEdges d)) root i := by
    intro i
    rw [List.mem_filter, List.mem_range, decide_eq_true_eq, mem_reach_targets_iff (root?_lt h)]
  rw [reachIssues, h]
  simp only
  generalize (List.range d.nodes.length).filter (· ∉ reach (targets d.nodes.length (resolvedEdges d)) root) = unreached
    at hmem
  constructor
  · intro hnil i hi
    refine Classical.byContradiction fun hnot => ?_
    cases unreached with
    | nil => exact List.not_mem_nil ((hmem i).mpr ⟨hi, hnot⟩)
    | cons j rest =>
      rw [reachTable, List.map_cons, List.flatMap_cons, List.append_eq_nil_iff] at hnil
      exact islandIssues_ne_nil (component_head? (root_mem_reach _ j)) hnil.1
  · intro hall
    have hnil : unreached = [] := by
      refine List.eq_nil_iff_forall_not_mem.mpr fun i hi => ?_
      obtain ⟨hlt, hnot⟩ := (hmem i).mp hi
      exact hnot (hall i hlt)
    rw [hnil, reachTable, List.map_nil, List.flatMap_nil]

/-! ## Branch labels -/

/-- The declared labels of a configuration are those of a branching node. -/
theorem branchLabels?_eq_some_iff {spec : NodeSpec} {labels : List String} :
    spec.branchLabels? = some labels ↔ ∃ b, spec = .conditionalBranch b ∧ b.branches = labels := by
  cases spec <;> simp [NodeSpec.branchLabels?]

/-- Only a branching node declares labels. -/
theorem branchLabels?_eq_none_iff {n : Node} : n.spec.branchLabels? = none ↔ n.kind ≠ .conditionalBranch := by
  rw [Node.kind]
  cases n.spec <;> simp [NodeSpec.branchLabels?, NodeSpec.kind]

/-- A node branches exactly if it is told how. -/
theorem kind_eq_conditionalBranch_iff {n : Node} : n.kind = .conditionalBranch ↔ ∃ b, n.spec = .conditionalBranch b := by
  rw [Node.kind]
  cases n.spec <;> simp [NodeSpec.kind]

/-- A list has no repetition exactly if no item stands before itself. -/
theorem nodup_iff_not_mem_take {α : Type} {l : List α} : l.Nodup ↔ ∀ k a, l[k]? = some a → a ∉ l.take k := by
  rw [List.nodup_iff_getElem?_ne_getElem?]
  constructor
  · intro h k a hk ha
    obtain ⟨j, hj, rfl⟩ := List.mem_take_iff_getElem.mp ha
    have hlt := (List.getElem?_eq_some_iff.mp hk).1
    exact h j k (by omega) hlt (by rw [hk, List.getElem?_eq_getElem])
  · intro h j k hjk hk he
    rw [List.getElem?_eq_getElem hk] at he
    refine h k l[k] (List.getElem?_eq_getElem hk) (List.mem_take_iff_getElem.mpr ⟨j, by omega, ?_⟩)
    exact (List.getElem?_eq_some_iff.mp he).2

/-- An edge that leaves a branching node is in order exactly if it is the first with a declared label. -/
theorem branchEdgeIssue_eq_none_iff {n : Node} {labels earlier : List String} {e : Edge} :
    branchEdgeIssue d n labels earlier e = none ↔
      ∃ label ∈ labels, e.condition = some label ∧ label ∉ earlier := by
  rw [branchEdgeIssue]
  cases e.condition with
  | none => simp
  | some label =>
    by_cases hl : label ∈ labels
    · by_cases he : label ∈ earlier <;> simp [hl, he]
    · simp only [hl, not_false_eq_true, if_true, reduceCtorEq, Option.some.injEq, false_iff]
      intro h
      obtain ⟨l, hmem, rfl, -⟩ := h
      exact hl hmem

/-- All edges that leave a branching node are in order exactly if their conditions are declared labels without
repetition. -/
theorem branchEdgeIssues_eq_nil_iff {n : Node} {labels : List String} {out : List Edge} :
    ((withEarlierLabels out).filterMap fun (e, earlier) => branchEdgeIssue d n labels earlier e) = [] ↔
      (∀ c ∈ out.map (·.condition), ∃ label ∈ labels, c = some label) ∧ (out.map (·.condition)).Nodup := by
  have hearlier : ∀ k label, label ∈ (out.take k).filterMap (·.condition) ↔
      some label ∈ (out.map (·.condition)).take k := by
    intro k label
    rw [List.mem_filterMap, ← List.map_take, List.mem_map]
  rw [List.filterMap_eq_nil_iff, withEarlierLabels, List.forall_mem_map,
    forall_mem_zipIdx (p := fun e k => branchEdgeIssue d n labels ((out.take k).filterMap (·.condition)) e = none),
    nodup_iff_not_mem_take]
  simp only [branchEdgeIssue_eq_none_iff, hearlier, List.mem_map, List.getElem?_map, Option.map_eq_some_iff,
    forall_exists_index, and_imp, forall_apply_eq_imp_iff₂]
  constructor
  · intro h
    refine ⟨fun e he => ?_, ?_⟩
    · obtain ⟨k, hk⟩ := List.mem_iff_getElem?.mp he
      obtain ⟨label, hl, hc, -⟩ := h k e hk
      exact ⟨label, hl, hc⟩
    · intro k e hk
      obtain ⟨label, -, hc, hnot⟩ := h k e hk
      rwa [hc]
  · rintro ⟨hlabel, hnot⟩ k e hk
    obtain ⟨label, hl, hc⟩ := hlabel e (List.mem_of_getElem? hk)
    exact ⟨label, hl, hc, by rw [← hc]; exact hnot k e hk⟩

/-- No label is missing exactly if an edge carries every declared one. -/
theorem missingLabelIssue_eq_nil_iff {n : Node} {i : Nat} {labels : List String} {out : List Edge} :
    missingLabelIssue i n labels out = [] ↔ ∀ label ∈ labels, some label ∈ out.map (·.condition) := by
  have hmem : ∀ label, label ∈ out.filterMap (·.condition) ↔ some label ∈ out.map (·.condition) := by
    intro label
    rw [List.mem_filterMap, List.mem_map]
  simp only [missingLabelIssue, ite_eq_left_iff, reduceCtorEq, imp_false, List.isEmpty_iff,
    List.filter_eq_nil_iff, decide_eq_true_eq, not_not, hmem]

/-- Nothing is wrong with the edges that leave a branching node exactly if their conditions answer to its labels. -/
theorem branchIssues_eq_nil_iff_of_branching {edges : List Edge} {n : Node} {i : Nat} {b : Branching}
    (hn : n.spec = .conditionalBranch b) :
    branchIssues d edges n i = [] ↔ AnswersLabels b.branches ((leaving edges i).map (·.condition)) := by
  rw [branchIssues, hn]
  simp only [NodeSpec.branchLabels?]
  rw [List.append_eq_nil_iff, branchEdgeIssues_eq_nil_iff, missingLabelIssue_eq_nil_iff]
  exact ⟨fun h => ⟨h.1.1, h.1.2, h.2⟩, fun h => ⟨⟨h.declared, h.distinct⟩, h.complete⟩⟩

/-- Nothing is wrong with the edges that leave any other node exactly if none has a condition. -/
theorem branchIssues_eq_nil_iff_of_plain {edges : List Edge} {n : Node} {i : Nat} (hn : n.kind ≠ .conditionalBranch) :
    branchIssues d edges n i = [] ↔ ∀ e ∈ leaving edges i, e.condition = none := by
  rw [branchIssues, branchLabels?_eq_none_iff.mpr hn]
  simp only [List.filterMap_eq_nil_iff, plainEdgeIssue, Option.map_eq_none_iff]

/-! ## Ends -/

/-- Only nodes of one kind end a workflow. -/
theorem isTerminal_iff {kind : NodeKind} : kind.isTerminal = true ↔ kind = .finish := by
  cases kind <;> simp [NodeKind.isTerminal]

/-- The end positions are those of end nodes. -/
theorem mem_terminals {i : Nat} : i ∈ terminals d ↔ ∃ n, d.nodes[i]? = some n ∧ n.kind = .finish := by
  rw [terminals, mem_positions (p := fun n : Node => n.kind.isTerminal)]
  simp only [isTerminal_iff]

/-- In a document with distinct ids, as many edges are counted for a position as are declared to leave its node, whatever
their targets. -/
theorem count_declaredSources (hnd : (ids d).Nodup) {n : Node} {i : Nat} (hn : d.nodes[i]? = some n) :
    (declaredSources d).count (some i) = (d.leaving n.id).length := by
  rw [declaredSources, List.count, List.countP_map, Document.leaving, ← List.countP_eq_length_filter]
  congr 1
  funext e
  rw [Function.comp_apply, Bool.eq_iff_iff, beq_iff_eq, decide_eq_true_eq, indexOf?_eq_some_iff hnd]
  constructor
  · intro h
    obtain ⟨m, hm, hid⟩ := h
    rw [hn, Option.some.injEq] at hm
    rw [← hid, hm]
  · intro he
    exact ⟨n, hn, he.symm⟩

/-- A node passes the check of ends exactly if it is an end node when no edge leaves it, and only then. -/
theorem terminalIssues_eq_nil_iff {sources : List (Option Nat)} {n : Node} {i : Nat} :
    terminalIssues sources n i = [] ↔ (n.kind = .finish ↔ sources.count (some i) = 0) := by
  rw [terminalIssues, ← isTerminal_iff]
  cases n.kind.isTerminal <;> by_cases h : sources.count (some i) = 0 <;> simp [h]

/-- An end is missed exactly in a document with nodes none of which is an end node. -/
theorem noTerminalIssues_eq_nil_iff : noTerminalIssues d = [] ↔ (d.nodes = [] ∨ ∃ n ∈ d.nodes, n.kind = .finish) := by
  have hempty : (terminals d).isEmpty = true ↔ ¬∃ n ∈ d.nodes, n.kind = .finish := by
    rw [List.isEmpty_iff, List.eq_nil_iff_forall_not_mem]
    simp only [mem_terminals]
    constructor
    · rintro h ⟨n, hn, hk⟩
      obtain ⟨i, hi⟩ := List.mem_iff_getElem?.mp hn
      exact h i ⟨n, hi, hk⟩
    · rintro h i ⟨n, hi, hk⟩
      exact h ⟨n, List.mem_of_getElem? hi, hk⟩
  rw [noTerminalIssues, ite_eq_right_iff]
  simp only [Bool.and_eq_true, hempty, Bool.not_eq_true', reduceCtorEq, imp_false, List.isEmpty_eq_false_iff]
  rw [not_and_or, not_not, ne_eq, not_not, or_comm]

end Build

end Workflow
