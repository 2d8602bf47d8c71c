import Mathlib.Data.List.Perm.Subperm
import Mathlib.Logic.Relation
import Workflow.Graph.Reach

/-!
# Reachability: the walk is sound and complete

Statements about `visit` and `reach`: the walk over a table of neighbours returns exactly the positions that a chain of
neighbours joins to its root (`mem_reach_iff`). A step for each position is enough because every position is to do at most
once (`visit_closed`).
-/

namespace Workflow

/-- One step along a table of neighbours. -/
def Leads (next : Array (List Nat)) (i j : Nat) : Prop := j ∈ next[i]?.getD []

/-- Any number of steps along a table of neighbours. -/
abbrev LeadsOn (next : Array (List Nat)) : Nat → Nat → Prop := Relation.ReflTransGen (Leads next)

/-- The positions next to one that are not among those seen, each once. -/
def fresh (next : Array (List Nat)) (seen : List Nat) (i : Nat) : List Nat :=
  ((next[i]?.getD []).filter (· ∉ seen)).eraseDups

namespace ReachAux

/-- A list without its repetitions holds nothing twice. -/
theorem nodup_eraseDups (l : List Nat) : l.eraseDups.Nodup := by
  induction hn : l.length using Nat.strongRecOn generalizing l with
  | ind n ih =>
    cases l with
    | nil => exact List.nodup_nil
    | cons a l =>
      rw [List.eraseDups_cons, List.nodup_cons]
      have hlen := List.length_filter_le (fun b => !b == a) l
      rw [List.length_cons] at hn
      refine ⟨?_, ih _ (by omega) _ rfl⟩
      intro ha
      rw [List.mem_eraseDups, List.mem_filter] at ha
      simp at ha

/-- The walk goes on with the fresh neighbours of the first position to do. -/
theorem visit_cons (next : Array (List Nat)) (steps i : Nat) (todo seen : List Nat) :
    visit next (steps + 1) (i :: todo) seen =
      visit next steps (todo ++ fresh next seen i) (seen ++ fresh next seen i) := rfl

/-- A fresh position is a neighbour that was not seen. -/
theorem mem_fresh {next : Array (List Nat)} {seen : List Nat} {i j : Nat} :
    j ∈ fresh next seen i ↔ Leads next i j ∧ j ∉ seen := by
  rw [fresh, List.mem_eraseDups, List.mem_filter, decide_eq_true_eq, Leads]

/-- The walk forgets nothing that it saw. -/
theorem subset_visit (next : Array (List Nat)) (steps : Nat) :
    ∀ todo seen, ∀ j ∈ seen, j ∈ visit next steps todo seen := by
  induction steps with
  | zero => intro todo seen j hj; exact hj
  | succ steps ih =>
    intro todo seen j hj
    cases todo with
    | nil => exact hj
    | cons i todo =>
      rw [visit_cons]
      exact ih _ _ j (List.mem_append_left _ hj)

/-- Whatever the walk returns is joined by steps to something seen at its beginning, provided that everything to do was
seen. -/
theorem visit_sound (next : Array (List Nat)) (steps : Nat) :
    ∀ todo seen, (∀ i ∈ todo, i ∈ seen) → ∀ j ∈ visit next steps todo seen, ∃ i ∈ seen, LeadsOn next i j := by
  induction steps with
  | zero => intro todo seen _ j hj; exact ⟨j, hj, .refl⟩
  | succ steps ih =>
    intro todo seen htodo j hj
    cases todo with
    | nil => exact ⟨j, hj, .refl⟩
    | cons i todo =>
      rw [visit_cons] at hj
      have hsub : ∀ k ∈ todo ++ fresh next seen i, k ∈ seen ++ fresh next seen i := by
        intro k hk
        rcases List.mem_append.mp hk with hk | hk
        · exact List.mem_append_left _ (htodo k (List.mem_cons_of_mem _ hk))
        · exact List.mem_append_right _ hk
      obtain ⟨k, hk, hkj⟩ := ih _ _ hsub j hj
      rcases List.mem_append.mp hk with hk | hk
      · exact ⟨k, hk, hkj⟩
      · exact ⟨i, htodo i List.mem_cons_self, .head (mem_fresh.mp hk).1 hkj⟩

/-- A list without repetitions of numbers below a bound is no longer than the bound. -/
theorem length_le_of_lt {l : List Nat} {size : Nat} (hnd : l.Nodup) (hlt : ∀ i ∈ l, i < size) : l.length ≤ size := by
  have hsub : l ⊆ List.range size := fun i hi => List.mem_range.mpr (hlt i hi)
  simpa using (hnd.subperm hsub).length_le

/-- The walk ends with a closed set: what was seen splits into positions that are done, whose neighbours were all seen, and
positions to do, and a step for each position that is not done is enough. -/
theorem visit_closed (next : Array (List Nat)) (size : Nat) (hnext : ∀ i j, Leads next i j → j < size) (steps : Nat) :
    ∀ done todo, (∀ i ∈ done, ∀ j, Leads next i j → j ∈ done ++ todo) → (done ++ todo).Nodup →
      (∀ i ∈ done ++ todo, i < size) → size ≤ steps + done.length →
      ∀ i ∈ visit next steps todo (done ++ todo), ∀ j, Leads next i j → j ∈ visit next steps todo (done ++ todo) := by
  induction steps with
  | zero =>
    intro done todo hdone hnd hlt hsize
    have hlen := length_le_of_lt hnd hlt
    rw [List.length_append] at hlen
    have hnil : todo = [] := List.eq_nil_of_length_eq_zero (by omega)
    subst hnil
    rw [List.append_nil] at hdone ⊢
    exact hdone
  | succ steps ih =>
    intro done todo hdone hnd hlt hsize
    cases todo with
    | nil =>
      rw [List.append_nil] at hdone ⊢
      exact hdone
    | cons i todo =>
      have hsplit : done ++ i :: todo ++ fresh next (done ++ i :: todo) i =
          (done ++ [i]) ++ (todo ++ fresh next (done ++ i :: todo) i) := by simp
      rw [visit_cons, hsplit]
      apply ih
      · intro k hk j hj
        rw [← hsplit]
        rcases List.mem_append.mp hk with hk | hk
        · exact List.mem_append_left _ (hdone k hk j hj)
        · rw [List.mem_singleton] at hk
          subst hk
          by_cases hseen : j ∈ done ++ k :: todo
          · exact List.mem_append_left _ hseen
          · exact List.mem_append_right _ (mem_fresh.mpr ⟨hj, hseen⟩)
      · rw [← hsplit]
        refine List.nodup_append.mpr ⟨hnd, nodup_eraseDups _, ?_⟩
        intro a ha b hb hab
        subst hab
        exact (mem_fresh.mp hb).2 ha
      · intro k hk
        rw [← hsplit] at hk
        rcases List.mem_append.mp hk with hk | hk
        · exact hlt k hk
        · exact hnext i k (mem_fresh.mp hk).1
      · rw [List.length_append, List.length_singleton]
        omega

end ReachAux

open ReachAux

/-- The root is among the positions reached from it. -/
theorem root_mem_reach (next : Array (List Nat)) (root : Nat) : root ∈ reach next root :=
  subset_visit next _ _ _ root List.mem_cons_self

/-- In a table that never leaves its own positions, the walk reaches exactly the positions that a chain of neighbours joins
to its root. -/
theorem mem_reach_iff {next : Array (List Nat)} {root : Nat} (hnext : ∀ i j, Leads next i j → j < next.size)
    (hroot : root < next.size) (j : Nat) : j ∈ reach next root ↔ LeadsOn next root j := by
  constructor
  · intro hj
    obtain ⟨i, hi, hij⟩ := visit_sound next _ [root] [root] (fun _ h => h) j hj
    rw [List.mem_singleton] at hi
    rwa [hi] at hij
  · intro hj
    have hclosed := visit_closed next next.size hnext next.size [] [root] (by simp) (by simp) (by simpa using hroot)
      (by simp)
    induction hj with
    | refl => exact root_mem_reach next root
    | tail _ hab ih => exact hclosed _ ih _ hab

end Workflow
