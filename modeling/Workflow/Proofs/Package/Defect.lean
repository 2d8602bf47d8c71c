import Workflow.Package.Generate
import Workflow.Proofs.Graph.Image

/-!
# Defects of a built graph

What the generation of a package looks for once more is granted by the graph, all but one thing: a graph is built of a branching
node that declares a label twice, and its package is not generated (`defect?_eq_none_iff`).
-/

namespace Workflow

namespace Package

open Build

variable {d : Document}

/-! ## Labels -/

/-- Labels without repetition cover declared labels, which are the same ones, exactly if these are without repetition too. -/
theorem covers_iff {declared found : List String} (hnd : found.Nodup) (hmem : ∀ label, label ∈ found ↔ label ∈ declared) :
    covers declared found = true ↔ declared.Nodup := by
  have hall : declared.all (· ∈ found) = true := by
    rw [List.all_eq_true]
    intro label hl
    exact decide_eq_true ((hmem label).mpr hl)
  have hsub : found.Subperm declared := List.subperm_of_subset hnd fun label hl => (hmem label).mp hl
  rw [covers, hall, Bool.and_true, beq_iff_eq]
  constructor
  · intro hlen
    have hperm := hsub.perm_of_length_le (Nat.le_of_eq hlen.symm)
    exact hperm.nodup_iff.mp hnd
  · intro hdeclared
    exact ((List.perm_ext_iff_of_nodup hnd hdeclared).mpr hmem).length_eq

/-- A branching node of a document without issues has a branch table, and it is that of the node. -/
theorem branchTable?_mirrors (h : issues d = []) {s i : Nat} {n : Node} {b : Branching} (hn : d.nodes[i]? = some n)
    (hb : n.spec = .conditionalBranch b) :
    ∃ t, (graphAt d s).branchTable? i = some t ∧ t.Mirrors (graphAt d s) b := by
  have hk : n.kind = .conditionalBranch := kind_eq_conditionalBranch_iff.mpr ⟨b, hb⟩
  obtain ⟨t, ht, hnode⟩ := (exists_branchTable_iff h (s := s)).mpr ⟨n, hn, hk⟩
  cases hfind : (graphAt d s).branchTable? i with
  | none =>
    rw [Graph.branchTable?, List.find?_eq_none] at hfind
    exact absurd (beq_iff_eq.mpr hnode) (hfind t ht)
  | some u =>
    have hu := List.mem_of_find?_eq_some hfind
    have hfound := List.find?_some hfind
    have hui : u.node = i := beq_iff_eq.mp hfound
    subst hui
    exact ⟨u, rfl, table_mirrors h hu hn hb⟩

/-! ## Ends -/

/-- A node of a document without issues has no edge that leaves it exactly if it is an end node. -/
theorem outgoing_isEmpty_iff (h : issues d = []) {s i : Nat} {n : Node} (hn : d.nodes[i]? = some n) :
    ((graphAt d s).outgoing i).isEmpty = true ↔ n.kind = .finish := by
  have hsound := sound_of_issues_eq_nil h
  have hlen := (leaving_forall₂ hsound.distinct hsound.edgesNamed hn).length_eq
  rw [hsound.ends n (List.mem_of_getElem? hn), outgoing_graphAt, List.isEmpty_iff, ← List.length_eq_zero_iff,
    ← List.length_eq_zero_iff, hlen]

/-! ## All of them -/

/-- A node of a document without issues has no defect unless it declares a label twice. -/
theorem nodeDefect?_eq_none_iff (h : issues d = []) {s i : Nat} {n : Node} (hn : d.nodes[i]? = some n) :
    nodeDefect? (graphAt d s) n i = none ↔ ∀ b, n.spec = .conditionalBranch b → b.branches.Nodup := by
  have hends := outgoing_isEmpty_iff h (s := s) hn
  have hend : (if n.kind.isTerminal then
      if ((graphAt d s).outgoing i).isEmpty then none else some (GraphDefect.terminalHasSuccessor n.id)
    else if ((graphAt d s).outgoing i).isEmpty then some (.danglingNode n.id) else none) = none := by
    by_cases hk : n.kind = .finish
    · rw [if_pos (isTerminal_iff.mpr hk), if_pos (hends.mpr hk)]
    · rw [if_neg (mt isTerminal_iff.mp hk), if_neg (mt hends.mp hk)]
  rw [nodeDefect?]
  simp only [hend, Option.or_none]
  cases hl : n.spec.branchLabels? with
  | none =>
    refine iff_of_true rfl fun b hb => ?_
    rw [hb] at hl
    cases hl
  | some declared =>
    obtain ⟨b, hb, rfl⟩ := branchLabels?_eq_some_iff.mp hl
    obtain ⟨t, ht, hmirrors⟩ := branchTable?_mirrors h (s := s) hn hb
    have hcovers := covers_iff hmirrors.distinct hmirrors.labels
    simp only [ht, Option.map_some, Option.getD_some, ite_eq_left_iff, reduceCtorEq, imp_false, not_not, hcovers]
    constructor
    · intro hnd b' hb'
      rw [hb, NodeSpec.conditionalBranch.injEq] at hb'
      rwa [← hb']
    · intro hnd
      exact hnd b hb

/-- The entry of a document without issues is no defect. -/
theorem entryDefect?_eq_none {s : Nat} (hs : agreedStart? d = some s) : entryDefect? (graphAt d s) = none := by
  obtain ⟨hstarts, -⟩ := agreedStart?_eq_some_iff.mp hs
  obtain ⟨n, hn, hk⟩ := mem_starts.mp (hstarts ▸ List.mem_singleton_self s)
  have hnode : (graphAt d s).nodes[(graphAt d s).entry]? = some n := hn
  rw [entryDefect?, hnode]
  exact if_pos hk

/-- A built graph has no defect exactly if no branching node of its document declares a label twice. -/
theorem defect?_eq_none_iff {g : Graph} (h : Graph.build d = .ok g) :
    defect? g = none ↔ ∀ n ∈ d.nodes, ∀ b, n.spec = .conditionalBranch b → b.branches.Nodup := by
  obtain ⟨hnil, s, hs, rfl⟩ := build_eq_ok_iff.mp h
  rw [defect?, entryDefect?_eq_none hs, Option.none_or, List.findSome?_eq_none_iff]
  have hnodes : (graphAt d s).nodes = d.nodes := rfl
  rw [hnodes, forall_mem_zipIdx (p := fun n i => nodeDefect? (graphAt d s) n i = none)]
  constructor
  · intro hall n hn
    obtain ⟨i, hi⟩ := List.mem_iff_getElem?.mp hn
    exact (nodeDefect?_eq_none_iff hnil hi).mp (hall i n hi)
  · intro hall i n hi
    exact (nodeDefect?_eq_none_iff hnil hi).mpr (hall n (List.mem_of_getElem? hi))

/-- A graph without a defect has its package, and no other graph has one. -/
theorem generate_eq_ok_iff {g : Graph} {options : Options} {files : List Artifact} :
    generate g options = .ok files ↔ defect? g = none ∧ artifacts g options = files := by
  rw [generate]
  cases defect? g <;> simp

end Package

end Workflow
