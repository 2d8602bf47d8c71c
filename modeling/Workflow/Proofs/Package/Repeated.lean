import Workflow.Proofs.Compile

/-!
# Labels declared twice

The generation of a package of a built graph fails for one reason only (`generate_of_build`): some branching node declares a
label twice. Building the graph compares the labels of such a node with those on its edges as sets, and the generation counts
them as well.
-/

namespace Workflow

/-- A branching node that declares a label twice. -/
def Node.Repeats (n : Node) : Prop := ∃ b, n.spec = .conditionalBranch b ∧ ¬b.branches.Nodup

/-- The labels on the edges declared to leave the node with an id, in order. -/
def Document.answers (d : Document) (id : String) : List String := (d.leaving id).filterMap (·.condition)

namespace Package

open Build

variable {d : Document}

/-- A node that repeats no label is one whose labels, if it has any, are distinct. -/
theorem not_repeats_iff {n : Node} : ¬n.Repeats ↔ ∀ b, n.spec = .conditionalBranch b → b.branches.Nodup := by
  simp only [Node.Repeats, not_exists, not_and, not_not]

/-- The labels of the table of a branching node are those on the edges declared to leave it. -/
theorem labels_eq_answers (h : issues d = []) {s i : Nat} {n : Node} {b : Branching} {t : BranchTable}
    (hn : d.nodes[i]? = some n) (ht : (graphAt d s).branchTable? i = some t) (hmirrors : t.Mirrors (graphAt d s) b) :
    t.labels = d.answers n.id := by
  have hsound := sound_of_issues_eq_nil h
  have hnode : t.node = i := by
    have hfound := List.find?_some ht
    exact beq_iff_eq.mp hfound
  have hconditions : t.labels.map some = (d.leaving n.id).map (·.condition) := by
    rw [← leaving_conditions hsound.distinct hsound.edgesNamed hn]
    have hfst := congrArg (List.map Prod.fst) hmirrors.routes
    simp only [List.map_map, Function.comp_def, hnode, outgoing_graphAt] at hfst
    rw [BranchTable.labels, List.map_map]
    exact hfst
  have hsome := congrArg (List.filterMap id) hconditions
  simpa [List.filterMap_map, Function.comp_def, Document.answers] using hsome

/-- A node that repeats a label has a defect, which tells its labels and those on its edges. -/
theorem nodeDefect?_of_repeats (h : issues d = []) {s i : Nat} {n : Node} {b : Branching} (hn : d.nodes[i]? = some n)
    (hb : n.spec = .conditionalBranch b) (hrepeats : ¬b.branches.Nodup) :
    nodeDefect? (graphAt d s) n i = some (.branchTableMismatch n.id b.branches (d.answers n.id)) := by
  obtain ⟨t, ht, hmirrors⟩ := branchTable?_mirrors h (s := s) hn hb
  have hcovers : ¬covers b.branches t.labels = true :=
    mt (covers_iff hmirrors.distinct hmirrors.labels).mp hrepeats
  have hlabels : n.spec.branchLabels? = some b.branches := branchLabels?_eq_some_iff.mpr ⟨b, hb, rfl⟩
  unfold nodeDefect?
  simp only [hlabels, ht, Option.map_some, Option.getD_some]
  rw [if_neg hcovers, Option.some_or, labels_eq_answers h hn ht hmirrors]

/-- What a search through a list with positions finds first: nothing is found before it. -/
theorem exists_of_findSome?_zipIdx {α β : Type} {f : α → Nat → Option β} {l : List α} {y : β}
    (h : l.zipIdx.findSome? (fun (a, i) => f a i) = some y) :
    ∃ before a after, l = before ++ a :: after ∧ f a before.length = some y ∧
      ∀ (i : Nat) (x : α), before[i]? = some x → f x i = none := by
  obtain ⟨front, ⟨a, i⟩, back, hl, hfound, hnone⟩ := List.findSome?_eq_some_iff.mp h
  have hlist := congrArg (List.map Prod.fst) hl
  rw [List.zipIdx_map_fst, List.map_append, List.map_cons] at hlist
  have hposition : ∀ (j : Nat) (p : α × Nat), (front ++ (a, i) :: back)[j]? = some p → p.2 = j := by
    intro j p hj
    rw [← hl, List.getElem?_zipIdx] at hj
    obtain ⟨x, -, rfl⟩ := Option.map_eq_some_iff.mp hj
    simp
  have hi : i = front.length := hposition front.length (a, i) (by simp)
  refine ⟨front.map Prod.fst, a, back.map Prod.fst, hlist, ?_, ?_⟩
  · rwa [List.length_map, ← hi]
  · intro j x hx
    rw [List.getElem?_map] at hx
    obtain ⟨p, hp, rfl⟩ := Option.map_eq_some_iff.mp hx
    have hj : p.2 = j := hposition j p (by rw [List.getElem?_append_left (List.getElem?_eq_some_iff.mp hp).1, hp])
    rw [← hj]
    exact hnone p (List.mem_of_getElem? hp)

/-- The defect of a built graph is that of the first node that repeats a label. -/
theorem exists_of_defect?_eq_some {g : Graph} (h : Graph.build d = .ok g) {defect : GraphDefect}
    (hdefect : defect? g = some defect) :
    ∃ before n after b, d.nodes = before ++ n :: after ∧ (∀ m ∈ before, ¬m.Repeats) ∧ n.spec = .conditionalBranch b ∧
      ¬b.branches.Nodup ∧ defect = .branchTableMismatch n.id b.branches (d.answers n.id) := by
  obtain ⟨hnil, s, hs, rfl⟩ := build_eq_ok_iff.mp h
  rw [defect?, entryDefect?_eq_none hs, Option.none_or] at hdefect
  obtain ⟨before, n, after, hnodes, hfound, hbefore⟩ := exists_of_findSome?_zipIdx hdefect
  have hsplit : d.nodes = before ++ n :: after := hnodes
  have hn : d.nodes[before.length]? = some n := by simp [hsplit]
  have hrepeats : n.Repeats := by
    by_contra hno
    rw [not_repeats_iff, ← nodeDefect?_eq_none_iff hnil (s := s) hn, hfound] at hno
    cases hno
  obtain ⟨b, hb, hnd⟩ := hrepeats
  refine ⟨before, n, after, b, hsplit, fun m hm => ?_, hb, hnd, ?_⟩
  · obtain ⟨i, hi⟩ := List.mem_iff_getElem?.mp hm
    have him : d.nodes[i]? = some m := by
      rw [hsplit, List.getElem?_append_left (List.getElem?_eq_some_iff.mp hi).1, hi]
    exact not_repeats_iff.mpr ((nodeDefect?_eq_none_iff hnil him).mp (hbefore i m hi))
  · rw [nodeDefect?_of_repeats hnil hn hb hnd] at hfound
    exact (Option.some.inj hfound).symm

end Package

open Package

/-- The generation of a package of a built graph fails exactly if a branching node of the document repeats a label. The defect
is then that of the first such node, and no other defect occurs. A document that was read without an error has a package. -/
theorem generate_of_build (d : Document) (g : Graph) (h : Graph.build d = .ok g) (options : Options) :
    ((∃ defect, generate g options = .error defect) ↔ ∃ n ∈ d.nodes, n.Repeats) ∧
      (∀ defect, generate g options = .error defect →
        ∃ before n after b, d.nodes = before ++ n :: after ∧ (∀ m ∈ before, ¬m.Repeats) ∧
          n.spec = .conditionalBranch b ∧ ¬b.branches.Nodup ∧
            defect = .branchTableMismatch n.id b.branches (d.answers n.id)) ∧
      ∀ t, Schema.check? t = some d → generate g options = .ok (artifacts g options) := by
  have herror : ∀ defect, generate g options = .error defect ↔ defect? g = some defect := by
    intro defect
    unfold generate
    cases defect? g <;> simp
  refine ⟨?_, ?_, ?_⟩
  · simp only [herror]
    rw [← Option.ne_none_iff_exists', ne_eq, defect?_eq_none_iff h]
    constructor
    · intro hno
      by_contra hnone
      refine hno fun n hn => ?_
      exact not_repeats_iff.mp fun hr => hnone ⟨n, hn, hr⟩
    · intro hx hall
      obtain ⟨n, hn, hr⟩ := hx
      exact not_repeats_iff.mpr (hall n hn) hr
  · intro defect hdefect
    exact exists_of_defect?_eq_some h ((herror defect).mp hdefect)
  · intro t ht
    exact generate_ok_of_check? ht h options

/-- An outcome that is declared twice. -/
def twiceDone : Branching := ⟨"verdict", ["again", "done", "done"]⟩

/-- The review loop with an outcome that is declared twice. -/
def reviewLoopTwiceDone : Document :=
  { reviewLoop with nodes := reviewLoop.nodes.take 3 ++ [⟨"review", .conditionalBranch twiceDone, none⟩] }

/-- The loop has a package, and an outcome that is declared twice keeps it from having one. -/
theorem generate_of_build_reviewLoop :
    (∃ g, Graph.build reviewLoop = .ok g ∧ ∀ options defect, generate g options ≠ .error defect) ∧
      ∃ g, Graph.build reviewLoopTwiceDone = .ok g ∧ ∀ options, ∃ defect, generate g options = .error defect := by
  obtain ⟨g, hg⟩ : ∃ g, Graph.build reviewLoop = .ok g := ⟨_, rfl⟩
  obtain ⟨g', hg'⟩ : ∃ g, Graph.build reviewLoopTwiceDone = .ok g := ⟨_, rfl⟩
  refine ⟨⟨g, hg, fun options defect hdefect => ?_⟩, g', hg', fun options => ?_⟩
  · obtain ⟨n, hn, hr⟩ := (generate_of_build reviewLoop g hg options).1.mp ⟨defect, hdefect⟩
    obtain ⟨b, hb, hnd⟩ := hr
    refine hnd ?_
    simp only [reviewLoop, List.mem_cons, List.not_mem_nil, or_false] at hn
    rcases hn with rfl | rfl | rfl | rfl <;> cases hb
    decide
  · have hlast : ∃ n ∈ reviewLoopTwiceDone.nodes, n.Repeats := by
      have hreview : reviewLoopTwiceDone.nodes[3]? = some ⟨"review", .conditionalBranch twiceDone, none⟩ := rfl
      exact ⟨_, List.mem_of_getElem? hreview, twiceDone, rfl, by decide⟩
    exact (generate_of_build reviewLoopTwiceDone g' hg' options).1.mpr hlast

end Workflow
