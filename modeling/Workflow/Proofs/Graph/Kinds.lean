import Mathlib
import Workflow.Graph

/-!
# How many nodes of each kind

The nodes of a graph are counted one by one under their kinds, and the counts are sorted in the end. Counting keeps that there is
one count for each kind that occurs, with the number of its nodes so far (`Counts.step`), and sorting brings the kinds into their
order (`kindCounts_pairwise`).
-/

namespace Workflow

/-! ## Counting -/

/-- The counts of the kinds of some nodes: there is one for each kind that occurs, with the number of its nodes. -/
structure Counts (nodes : List Node) (counts : List (NodeKind × Nat)) : Prop where
  distinct : (counts.map (·.1)).Nodup
  mem : ∀ k count, (k, count) ∈ counts ↔ count = nodes.countP (·.kind = k) ∧ 0 < count
  total : (counts.map (·.2)).sum = nodes.length

variable {k k' : NodeKind} {count : Nat} {counts counts' : List (NodeKind × Nat)} {nodes : List Node}

/-- Counting a kind once more changes no other count. -/
theorem mem_countKind_of_ne (h : k' ≠ k) : (k', count) ∈ countKind k counts ↔ (k', count) ∈ counts := by
  induction counts with
  | nil => simp only [countKind, List.mem_singleton, Prod.mk.injEq, h, false_and, List.not_mem_nil]
  | cons c counts ih =>
    rw [countKind]
    split
    · next hc =>
      have hne : (k', count) ≠ c := fun heq => h (by rw [← hc, ← heq])
      simp only [List.mem_cons, Prod.mk.injEq, h, hne, false_and, false_or]
    · rw [List.mem_cons, List.mem_cons, ih]

/-- The kind itself has one more than before, or one if it has not been counted. -/
theorem mem_countKind_self (h : (counts.map (·.1)).Nodup) : (k, count) ∈ countKind k counts ↔
    (∃ before, (k, before) ∈ counts ∧ count = before + 1) ∨ k ∉ counts.map (·.1) ∧ count = 1 := by
  induction counts with
  | nil => simp [countKind]
  | cons c counts ih =>
    rw [List.map_cons, List.nodup_cons] at h
    rw [countKind]
    split
    · next hc =>
      have hrest : ∀ before, (k, before) ∉ counts := fun before hmem => h.1 (List.mem_map.mpr ⟨_, hmem, hc.symm⟩)
      simp [hrest, Prod.ext_iff, hc]
    · next hc => simp [ih h.2, Ne.symm hc, Prod.ext_iff]

/-- The kinds that are counted are those that were, and the kind itself. -/
theorem mem_kinds_countKind : k' ∈ (countKind k counts).map (·.1) ↔ k' = k ∨ k' ∈ counts.map (·.1) := by
  induction counts with
  | nil => simp [countKind]
  | cons c counts ih =>
    rw [countKind]
    split
    · next hc => simp [hc]
    · rw [List.map_cons, List.mem_cons, ih, List.map_cons, List.mem_cons, or_left_comm]

/-- No kind is counted twice. -/
theorem nodup_kinds_countKind (h : (counts.map (·.1)).Nodup) (k : NodeKind) : ((countKind k counts).map (·.1)).Nodup := by
  induction counts with
  | nil => exact List.nodup_singleton k
  | cons c counts ih =>
    rw [List.map_cons, List.nodup_cons] at h
    rw [countKind]
    split
    · next hc =>
      rw [List.map_cons, List.nodup_cons, ← hc]
      exact h
    · next hc =>
      rw [List.map_cons, List.nodup_cons, mem_kinds_countKind, not_or]
      exact ⟨⟨hc, h.1⟩, ih h.2⟩

/-- Together there is one more. -/
theorem total_countKind (k : NodeKind) (counts : List (NodeKind × Nat)) :
    ((countKind k counts).map (·.2)).sum = (counts.map (·.2)).sum + 1 := by
  induction counts with
  | nil => rfl
  | cons c counts ih =>
    rw [countKind]
    split
    · simp only [List.map_cons, List.sum_cons]
      omega
    · simp only [List.map_cons, List.sum_cons, ih]
      omega

namespace Counts

/-- The kinds that are counted are those that occur. -/
theorem mem_kinds (h : Counts nodes counts) : k ∈ counts.map (·.1) ↔ 0 < nodes.countP (·.kind = k) := by
  rw [List.mem_map]
  constructor
  · rintro ⟨c, hc, rfl⟩
    obtain ⟨heq, hpos⟩ := (h.mem c.1 c.2).mp hc
    exact heq ▸ hpos
  · exact fun hpos => ⟨(k, _), (h.mem k _).mpr ⟨rfl, hpos⟩, rfl⟩

/-- One more node is counted under its kind. -/
theorem step (h : Counts nodes counts) (n : Node) : Counts (nodes ++ [n]) (countKind n.kind counts) where
  distinct := nodup_kinds_countKind h.distinct n.kind
  mem k count := by
    have hone : (nodes ++ [n]).countP (·.kind = k) = nodes.countP (·.kind = k) + if n.kind = k then 1 else 0 := by
      rw [List.countP_append, List.countP_singleton]
      simp only [decide_eq_true_eq]
    by_cases hk : k = n.kind
    · subst hk
      rw [mem_countKind_self h.distinct, hone, if_pos rfl, h.mem_kinds]
      simp only [h.mem]
      constructor
      · rintro (⟨before, ⟨rfl, hpos⟩, rfl⟩ | ⟨hnone, rfl⟩) <;> omega
      · rintro ⟨rfl, -⟩
        by_cases hpos : 0 < nodes.countP (·.kind = n.kind)
        · exact Or.inl ⟨_, ⟨rfl, hpos⟩, rfl⟩
        · exact Or.inr ⟨hpos, by omega⟩
    · rw [mem_countKind_of_ne hk, h.mem, hone, if_neg (Ne.symm hk), Nat.add_zero]
  total := by rw [total_countKind, h.total, List.length_append, List.length_singleton]

/-- The order of counts does not matter. -/
theorem perm (h : Counts nodes counts) (hp : counts'.Perm counts) : Counts nodes counts' where
  distinct := (hp.map (·.1)).nodup_iff.mpr h.distinct
  mem k count := by rw [hp.mem_iff, h.mem]
  total := by rw [(hp.map (·.2)).sum_eq, h.total]

end Counts

/-- Nodes that are counted one by one are counted. -/
theorem counts_foldl (nodes : List Node) : Counts nodes (nodes.foldl (fun counts n => countKind n.kind counts) []) := by
  induction nodes using List.reverseRecOn with
  | nil => exact ⟨List.nodup_nil, fun k count => by simp, rfl⟩
  | append_singleton nodes n ih =>
    rw [List.foldl_append]
    exact ih.step n

/-! ## Sorting -/

/-- Counts are in order by their kinds, and those of one kind by the numbers. -/
theorem countsInOrder_iff {a b : NodeKind × Nat} :
    countsInOrder a b = true ↔ a.1.rank < b.1.rank ∨ a.1.rank = b.1.rank ∧ a.2 ≤ b.2 := by
  simp only [countsInOrder, Bool.or_eq_true, Bool.and_eq_true, decide_eq_true_eq, beq_iff_eq]

theorem countsInOrder_total (a b : NodeKind × Nat) : (countsInOrder a b || countsInOrder b a) = true := by
  rw [Bool.or_eq_true, countsInOrder_iff, countsInOrder_iff]
  omega

theorem countsInOrder_trans (a b c : NodeKind × Nat) (hab : countsInOrder a b = true) (hbc : countsInOrder b c = true) :
    countsInOrder a c = true := by
  rw [countsInOrder_iff] at *
  omega

/-- No two kinds have one place in the order. -/
theorem rank_injective : Function.Injective NodeKind.rank := by
  intro k k'
  cases k <;> cases k' <;> decide

namespace Graph

/-- The counts of a graph are those of its nodes. -/
theorem counts_kindCounts (g : Graph) : Counts g.nodes g.kindCounts := (counts_foldl g.nodes).perm (List.mergeSort_perm _ _)

/-- Their kinds ascend: no kind is counted twice, so the numbers have no part in the order. -/
theorem kindCounts_pairwise (g : Graph) : g.kindCounts.Pairwise fun a b => a.1.rank < b.1.rank := by
  have hsorted : g.kindCounts.Pairwise fun a b => countsInOrder a b = true :=
    List.pairwise_mergeSort countsInOrder_trans countsInOrder_total _
  have hdistinct : g.kindCounts.Pairwise fun a b => a.1 ≠ b.1 := List.pairwise_map.mp g.counts_kindCounts.distinct
  refine (hsorted.and hdistinct).imp fun hboth => ?_
  have hrank := rank_injective.ne hboth.2
  rcases countsInOrder_iff.mp hboth.1 with hlt | hsame
  · exact hlt
  · exact absurd hsame.1 hrank

end Graph

end Workflow
