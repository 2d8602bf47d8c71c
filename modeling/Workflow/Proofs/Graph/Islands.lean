import Mathlib.Data.List.Sort
import Workflow.Proofs.Graph.Accept

/-!
# Islands

An island is a strongly connected component of the graph that the root does not reach. `reachIssues` goes through single
positions and looks for the component of each; told here is that its issues are one for each island, in the order of the first
positions (`unreached_told_by_island`). A component of the positions out of reach is one of the whole graph, since a way back to
such a position never passes through one in reach (`mem_unreached_of_mutual`).
-/

namespace Workflow

namespace Build

/-- Some edge leads from the first position to the second. Both of its ends are ids of nodes. -/
def Linked (d : Document) (i j : Nat) : Prop :=
  ∃ e ∈ d.edges, indexOf? d e.source = some i ∧ indexOf? d e.target = some j

/-- Any number of edges leads from the first position to the second. -/
abbrev LinkedOn (d : Document) : Nat → Nat → Prop := Relation.ReflTransGen (Linked d)

/-- Two positions lead to each other. -/
def Mutual (d : Document) (i j : Nat) : Prop := LinkedOn d i j ∧ LinkedOn d j i

/-- The positions of a strongly connected component, in increasing order, none of which a root leads to. -/
structure IsIsland (d : Document) (root : Nat) (members : List Nat) : Prop where
  increasing : members.Pairwise (· < ·)
  component : ∃ i < d.nodes.length, ∀ j, j ∈ members ↔ Mutual d i j
  unreached : ∀ i ∈ members, ¬LinkedOn d root i

/-- What is told of an island, at its first position: that its nodes form a cycle if there are several of them or the only one
has an edge to itself, else that its only node is not reached. -/
inductive Tells (d : Document) (root : Nat) : List Nat → Issue → Prop
  | cycle {m : Nat} {rest : List Nat} (h : rest ≠ [] ∨ Linked d m m) :
      Tells d root (m :: rest)
        ⟨.isolatedCycle, nodePlace m,
          "nodes " ++ namedList ((m :: rest).map (idAt d.nodes)) ++ " form a cycle that is not reachable from entry '" ++
            idAt d.nodes root ++ "'"⟩
  | alone {m : Nat} (h : ¬Linked d m m) :
      Tells d root [m]
        ⟨.unreachableNode, nodePlace m,
          "node '" ++ idAt d.nodes m ++ "' is not reachable from entry '" ++ idAt d.nodes root ++ "'"⟩

variable {d : Document} {root : Nat}

/-! ## Edges -/

/-- Edges between positions are the resolved edges. -/
theorem linked_eq_hop : Linked d = Hop (resolvedEdges d) := by
  funext i j
  refine propext ⟨?_, ?_⟩
  · rintro ⟨decl, hdecl, hs, ht⟩
    obtain ⟨k, hk⟩ := List.mem_iff_getElem?.mp hdecl
    exact ⟨⟨i, j, decl.condition, k⟩, mem_resolvedEdges.mpr ⟨decl, hk, hs, ht, rfl⟩, rfl, rfl⟩
  · rintro ⟨e, he, rfl, rfl⟩
    obtain ⟨decl, hdecl, hs, ht, -⟩ := mem_resolvedEdges.mp he
    exact ⟨decl, List.mem_of_getElem? hdecl, hs, ht⟩

/-- The positions reached from a position are those that edges lead to. -/
theorem mem_reach_iff_linkedOn {i j : Nat} (hi : i < d.nodes.length) :
    j ∈ reach (targets d.nodes.length (resolvedEdges d)) i ↔ LinkedOn d i j := by
  rw [mem_reach_targets_iff hi, LinkedOn, linked_eq_hop]

/-- The neighbours of a position in the table of targets are those that an edge leads to. -/
theorem mem_targets_iff_linked {i j : Nat} :
    j ∈ (targets d.nodes.length (resolvedEdges d))[i]?.getD [] ↔ Linked d i j := by
  rw [linked_eq_hop]
  exact leads_targets_iff.trans ⟨fun h => h.2, fun h => ⟨(lt_of_hop h).1, h⟩⟩

/-- Edges lead from positions of nodes to positions of nodes. -/
theorem lt_of_linkedOn {i j : Nat} (h : LinkedOn d i j) (hi : i < d.nodes.length) : j < d.nodes.length := by
  rw [LinkedOn, linked_eq_hop] at h
  rcases Relation.ReflTransGen.cases_tail h with rfl | ⟨k, -, hkj⟩
  · exact hi
  · exact (lt_of_hop hkj).2

namespace Mutual

variable {i j k : Nat}

theorem refl (d : Document) (i : Nat) : Mutual d i i := ⟨.refl, .refl⟩

theorem symm (h : Mutual d i j) : Mutual d j i := ⟨h.2, h.1⟩

theorem trans (hij : Mutual d i j) (hjk : Mutual d j k) : Mutual d i k := ⟨hij.1.trans hjk.1, hjk.2.trans hij.2⟩

end Mutual

/-! ## The positions out of reach -/

/-- The positions of nodes that the walk from a root does not reach. -/
def unreached (d : Document) (root : Nat) : List Nat :=
  (List.range d.nodes.length).filter (· ∉ reach (targets d.nodes.length (resolvedEdges d)) root)

theorem mem_unreached (hroot : root < d.nodes.length) {i : Nat} :
    i ∈ unreached d root ↔ i < d.nodes.length ∧ ¬LinkedOn d root i := by
  rw [unreached, List.mem_filter, List.mem_range, decide_eq_true_eq, mem_reach_iff_linkedOn hroot]

theorem pairwise_unreached (d : Document) (root : Nat) : (unreached d root).Pairwise (· < ·) :=
  List.pairwise_lt_range.sublist List.filter_sublist

/-- What leads to a position out of reach and back is out of reach too. -/
theorem mem_unreached_of_mutual (hroot : root < d.nodes.length) {i j : Nat} (hi : i ∈ unreached d root) (h : Mutual d i j) :
    j ∈ unreached d root := by
  obtain ⟨hlt, hnot⟩ := (mem_unreached hroot).mp hi
  exact (mem_unreached hroot).mpr ⟨lt_of_linkedOn h.1 hlt, fun hj => hnot (hj.trans h.2)⟩

/-- The row of a position in the table of what the positions out of reach lead to. -/
def reachRow (d : Document) (i : Nat) : Nat × List Nat := (i, reach (targets d.nodes.length (resolvedEdges d)) i)

/-- The component of a position among those out of reach. -/
def islandOf (d : Document) (root i : Nat) : List Nat :=
  component ((unreached d root).map (reachRow d)) (reachRow d i)

theorem islandOf_eq_filter (d : Document) (root i : Nat) :
    islandOf d root i = (unreached d root).filter fun j => j ∈ (reachRow d i).2 && i ∈ (reachRow d j).2 := by
  rw [islandOf, component, List.filter_map, List.map_map]
  exact List.map_id _

theorem pairwise_islandOf (d : Document) (root i : Nat) : (islandOf d root i).Pairwise (· < ·) := by
  rw [islandOf_eq_filter]
  exact (pairwise_unreached d root).sublist List.filter_sublist

theorem mem_islandOf (hroot : root < d.nodes.length) {i j : Nat} (hi : i ∈ unreached d root) :
    j ∈ islandOf d root i ↔ Mutual d i j := by
  have hlt := ((mem_unreached hroot).mp hi).1
  rw [islandOf_eq_filter, List.mem_filter, Bool.and_eq_true, decide_eq_true_eq, decide_eq_true_eq, reachRow, reachRow,
    mem_reach_iff_linkedOn hlt]
  constructor
  · rintro ⟨hj, hij, hji⟩
    exact ⟨hij, (mem_reach_iff_linkedOn ((mem_unreached hroot).mp hj).1).mp hji⟩
  · intro h
    exact ⟨mem_unreached_of_mutual hroot hi h, h.1, (mem_reach_iff_linkedOn (lt_of_linkedOn h.1 hlt)).mpr h.2⟩

theorem self_mem_islandOf (hroot : root < d.nodes.length) {i : Nat} (hi : i ∈ unreached d root) : i ∈ islandOf d root i :=
  (mem_islandOf hroot hi).mpr (.refl d i)

/-- The component of a position out of reach is an island. -/
theorem isIsland_islandOf (hroot : root < d.nodes.length) {i : Nat} (hi : i ∈ unreached d root) :
    IsIsland d root (islandOf d root i) where
  increasing := pairwise_islandOf d root i
  component := ⟨i, ((mem_unreached hroot).mp hi).1, fun _ => mem_islandOf hroot hi⟩
  unreached := fun _ hj =>
    ((mem_unreached hroot).mp (mem_unreached_of_mutual hroot hi ((mem_islandOf hroot hi).mp hj))).2

/-- An island is the component of each of its positions. -/
theorem IsIsland.eq_islandOf (hroot : root < d.nodes.length) {members : List Nat} (h : IsIsland d root members) {i : Nat}
    (hi : i ∈ members) : i ∈ Build.unreached d root ∧ members = islandOf d root i := by
  obtain ⟨k, hk, hcomponent⟩ := h.component
  have hki := (hcomponent i).mp hi
  have hout : i ∈ Build.unreached d root := (mem_unreached hroot).mpr ⟨lt_of_linkedOn hki.1 hk, h.unreached i hi⟩
  refine ⟨hout, h.increasing.eq_of_mem_iff (pairwise_islandOf d root i) fun j => ?_⟩
  rw [hcomponent, mem_islandOf hroot hout]
  exact ⟨hki.symm.trans, hki.trans⟩

/-- No island is empty. -/
theorem IsIsland.exists_head? {members : List Nat} (h : IsIsland d root members) : ∃ m, members.head? = some m := by
  obtain ⟨i, -, hcomponent⟩ := h.component
  have hi := (hcomponent i).mpr (.refl d i)
  cases members with
  | nil => exact absurd hi List.not_mem_nil
  | cons m rest => exact ⟨m, rfl⟩

/-! ## The islands in order -/

/-- A position comes first in its component. -/
def isFirst (d : Document) (root i : Nat) : Bool := (islandOf d root i).head? == some i

/-- The components of the positions out of reach, in the order of their first positions. -/
def islands (d : Document) (root : Nat) : List (List Nat) :=
  ((unreached d root).filter (isFirst d root)).map (islandOf d root)

theorem mem_islands (hroot : root < d.nodes.length) {members : List Nat} :
    members ∈ islands d root ↔ IsIsland d root members := by
  simp only [islands, List.mem_map, List.mem_filter, isFirst, beq_iff_eq]
  constructor
  · rintro ⟨i, ⟨hi, -⟩, rfl⟩
    exact isIsland_islandOf hroot hi
  · intro h
    obtain ⟨m, hm⟩ := h.exists_head?
    obtain ⟨hout, heq⟩ := h.eq_islandOf hroot (List.mem_of_head? hm)
    exact ⟨m, ⟨hout, heq ▸ hm⟩, heq.symm⟩

/-- The first positions of the islands increase. -/
theorem pairwise_heads_islands (d : Document) (root : Nat) : ((islands d root).filterMap List.head?).Pairwise (· < ·) := by
  have hheads : (islands d root).filterMap List.head? = (unreached d root).filter (isFirst d root) := by
    rw [islands, List.filterMap_map]
    refine (List.filterMap_congr fun i hi => ?_).trans List.filterMap_some
    exact beq_iff_eq.mp (List.mem_filter.mp hi).2
  rw [hheads]
  exact (pairwise_unreached d root).sublist List.filter_sublist

/-- The islands hold exactly the positions out of reach. -/
theorem mem_flatten_islands (hroot : root < d.nodes.length) {i : Nat} :
    i ∈ (islands d root).flatten ↔ i < d.nodes.length ∧ ¬LinkedOn d root i := by
  rw [← mem_unreached hroot, List.mem_flatten]
  constructor
  · rintro ⟨members, hmembers, hi⟩
    exact (((mem_islands hroot).mp hmembers).eq_islandOf hroot hi).1
  · intro hi
    exact ⟨_, (mem_islands hroot).mpr (isIsland_islandOf hroot hi), self_mem_islandOf hroot hi⟩

/-- No position stands in two islands. -/
theorem nodup_flatten_islands (hroot : root < d.nodes.length) : (islands d root).flatten.Nodup := by
  refine List.nodup_flatten.mpr ⟨?_, ?_⟩
  · intro members hmembers
    exact ((mem_islands hroot).mp hmembers).increasing.imp fun h => Nat.ne_of_lt h
  · rw [islands, List.pairwise_map]
    refine ((pairwise_unreached d root).sublist List.filter_sublist).imp_of_mem ?_
    intro i j hi hj hij k hki hkj
    obtain ⟨hi, hfirsti⟩ := List.mem_filter.mp hi
    obtain ⟨hj, hfirstj⟩ := List.mem_filter.mp hj
    -- two components that meet are one, and it has one first position
    have hsame : islandOf d root i = islandOf d root j :=
      ((isIsland_islandOf hroot hi).eq_islandOf hroot hki).2.trans
        ((isIsland_islandOf hroot hj).eq_islandOf hroot hkj).2.symm
    rw [isFirst, beq_iff_eq] at hfirsti hfirstj
    rw [hsame, hfirstj, Option.some.injEq] at hfirsti
    omega

/-! ## Their issues -/

/-- The issue of a position out of reach tells of its component if the position comes first there; the others are not told. -/
theorem islandIssues_islandOf (hroot : root < d.nodes.length) {i : Nat} (hi : i ∈ unreached d root) :
    if isFirst d root i then
      ∃ issue, islandIssues d ((targets d.nodes.length (resolvedEdges d))[i]?.getD []) (idAt d.nodes root) i
        (islandOf d root i) = [issue] ∧ Tells d root (islandOf d root i) issue
    else
      islandIssues d ((targets d.nodes.length (resolvedEdges d))[i]?.getD []) (idAt d.nodes root) i
        (islandOf d root i) = [] := by
  have hself := self_mem_islandOf hroot hi
  have hloop := mem_targets_iff_linked (d := d) (i := i) (j := i)
  rw [isFirst]
  generalize islandOf d root i = members at hself ⊢
  generalize (targets d.nodes.length (resolvedEdges d))[i]?.getD [] = next at hloop ⊢
  rcases members with _ | ⟨m, _ | ⟨n, rest⟩⟩
  · exact absurd hself List.not_mem_nil
  · rw [List.mem_singleton] at hself
    subst hself
    have hfirst : [i].head? = some i := rfl
    rw [hfirst, if_pos BEq.rfl, islandIssues]
    by_cases hl : Linked d i i
    · rw [if_pos (by simp [hloop.mpr hl]), if_pos hfirst]
      exact ⟨_, rfl, .cycle (.inr hl)⟩
    · rw [if_neg (by simp [hloop, hl])]
      exact ⟨_, rfl, .alone hl⟩
  · have hmany : (decide ((m :: n :: rest).length > 1) || decide (i ∈ next)) = true := by simp
    rw [islandIssues, if_pos hmany, List.head?_cons]
    by_cases hm : m = i
    · subst hm
      rw [if_pos BEq.rfl, if_pos rfl]
      exact ⟨_, rfl, .cycle (.inl (List.cons_ne_nil _ _))⟩
    · rw [if_neg (by simpa using hm), if_neg (by simpa using hm)]

/-- Where each chosen item of a list has one image and the others none, the images match the chosen items. -/
theorem forall₂_flatMap_filter {α β γ : Type} {R : β → γ → Prop} {p : α → Bool} {f : α → β} {g : α → List γ} {l : List α}
    (h : ∀ a ∈ l, if p a then ∃ c, g a = [c] ∧ R (f a) c else g a = []) :
    List.Forall₂ R ((l.filter p).map f) (l.flatMap g) := by
  induction l with
  | nil => exact .nil
  | cons a l ih =>
    have ha := h a List.mem_cons_self
    have hrest := ih fun b hb => h b (List.mem_cons_of_mem a hb)
    rw [List.flatMap_cons]
    by_cases hp : p a
    · rw [if_pos hp] at ha
      obtain ⟨c, hc, hR⟩ := ha
      rw [List.filter_cons_of_pos hp, List.map_cons, hc, List.singleton_append]
      exact .cons hR hrest
    · rw [if_neg hp] at ha
      rwa [List.filter_cons_of_neg hp, ha, List.nil_append]

/-- The issues of nodes out of reach are those of the islands, in order. -/
theorem forall₂_tells_reachIssues (h : root? d = some root) : List.Forall₂ (Tells d root) (islands d root) (reachIssues d) := by
  have hissues : reachIssues d = (unreached d root).flatMap fun i =>
      islandIssues d ((targets d.nodes.length (resolvedEdges d))[i]?.getD []) (idAt d.nodes root) i (islandOf d root i) := by
    rw [reachIssues, h]
    exact List.flatMap_map (reachRow d) _ _
  rw [hissues]
  exact forall₂_flatMap_filter fun i hi => islandIssues_islandOf (root?_lt h) hi

/-- The issues with which a document is refused a graph are those of its structure. -/
theorem refusalIssues_eq_issues (d : Document) : Graph.refusalIssues d = issues d := by
  rw [Graph.refusalIssues]
  cases hb : Graph.build d with
  | ok g => exact (build_eq_ok_iff.mp hb).1.symm
  | error r => rw [(build_eq_error_iff.mp hb).2]

end Build

open Build

/-- What is told of reachability is exact. Without a root nothing is told. With one, the issues with the codes of reachability
are one for each island, in the order of their first positions; the islands hold every position that the root does not lead to,
each once, and no other. -/
theorem unreached_told_by_island (d : Document) :
    match root? d with
    | none => (Graph.refusalIssues d).filter (·.code ∈ reachCodes) = []
    | some root =>
      ∃ islands : List (List Nat),
        (∀ members, members ∈ islands ↔ IsIsland d root members) ∧
          (islands.filterMap List.head?).Pairwise (· < ·) ∧
          List.Forall₂ (Tells d root) islands ((Graph.refusalIssues d).filter (·.code ∈ reachCodes)) ∧
          islands.flatten.Nodup ∧
          ∀ i, i ∈ islands.flatten ↔ i < d.nodes.length ∧ ¬LinkedOn d root i := by
  rw [refusalIssues_eq_issues, filter_reachCodes_issues]
  cases hroot : root? d with
  | none =>
    simp only
    rw [reachIssues, hroot]
  | some root =>
    have hlt := root?_lt hroot
    exact ⟨islands d root, fun _ => mem_islands hlt, pairwise_heads_islands d root, forall₂_tells_reachIssues hroot,
      nodup_flatten_islands hlt, fun _ => mem_flatten_islands hlt⟩

/-- A start that goes straight to the end, beside two steps that turn in a circle, one that they feed and one that feeds only
itself. -/
def strayLoops : Document where
  name := "stray loops"
  description := none
  version := none
  entry := "begin"
  nodes := [⟨"ping", .transform [], none⟩, ⟨"begin", .start [], none⟩, ⟨"fed", .transform [], none⟩,
    ⟨"pong", .transform [], none⟩, ⟨"finish", .finish [], none⟩, ⟨"self", .transform [], none⟩]
  edges := [⟨"begin", "finish", none⟩, ⟨"ping", "pong", none⟩, ⟨"pong", "ping", none⟩, ⟨"pong", "fed", none⟩,
    ⟨"fed", "finish", none⟩, ⟨"self", "self", none⟩]

example : (Graph.refusalIssues strayLoops).map (fun i => (i.code, i.place)) =
    [(.isolatedCycle, nodePlace 0), (.unreachableNode, nodePlace 2), (.isolatedCycle, nodePlace 5)] := by decide

end Workflow
