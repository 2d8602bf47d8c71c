import Mathlib
import Workflow.Proofs.Install.Course
import Workflow.Proofs.Install.Shared

/-!
# Steps of jobs for one package

A step of one of several jobs for one package goes from what is so of the place of the package, and of the job, to what is so, and
undoes nothing of what is so of the others (`Job.shared_step`). That is shown for an operation that succeeds
(`Job.shared_of_outcome`, `Job.shares_after_ok`) and for one that fails (`Job.shares_after_error`).
-/

namespace Workflow

open Disk

namespace Job

variable {j : Job} {initial d d' : Disk} {places : List Spot} {base : Spot} {artifacts : List Artifact} {phase : Phase}

/-- The work on the next file begins with what is known before it. -/
theorem shares_stage (hplaced : j.Placed initial places base) (haccepted : j.Accepted) (hframe : j.Frame initial places base d)
    (hready : j.Ready places base d) (hstaging : j.StagingKnown base d) {rest : List Artifact} (hrest : ∀ a ∈ rest, a ∈ j.artifacts) :
    j.Shares initial places base d (.stage (j.carrying artifacts) rest) := by
  cases rest with
  | nil => exact ⟨hready, hstaging⟩
  | cons a rest =>
    obtain ⟨ha, hrest⟩ := List.forall_mem_cons.mp hrest
    obtain ⟨way, htrail, hway⟩ := exists_trail_of_stagedFile hplaced haccepted hframe hstaging.plain ha
    have hfile : (j.carrying artifacts).stagedFile a = j.stagedFile a := rfl
    rw [Phase.stage, hfile]
    cases hparent : (j.stagedFile a).parent? with
    | none => exact ⟨hready, hstaging, ha, hrest⟩
    | some above =>
      rw [Option.map_some, Option.getD_some, Making.start]
      by_cases hsome : above.isNone = true
      · rw [if_pos hsome]
        exact ⟨hready, hstaging, ha, hrest⟩
      · rw [if_neg hsome]
        refine ⟨hready, hstaging, ha, hrest, List.forall_mem_singleton.mpr ?_⟩
        exact Stays.parent ⟨way, _, htrail, hway⟩ hparent (Bool.eq_false_iff.mpr hsome)

/-- An operation that succeeds is tame. -/
theorem shared_of_outcome (hplaced : j.Placed initial places base) (haccepted : j.Accepted) (h : j.Shared initial places base d)
    (hshares : j.Shares initial places base d phase) {a : Action} (ha : phase.action? (j.carrying artifacts) = some a)
    (hop : d.outcome a = .ok d') : j.Shared initial places base d' ∧ j.Tame initial places base d d' := by
  have hroot : j.root ∈ j.ownNames := List.mem_cons_self
  have hstagingName : j.stagingName ∈ j.ownNames := List.mem_cons_of_mem _ List.mem_cons_self
  have hbackupName : j.backupName ∈ j.ownNames := List.mem_cons_of_mem _ (List.mem_cons_of_mem _ List.mem_cons_self)
  have htop := h.frame.top hplaced
  cases phase with
  | makingTarget m =>
    cases ha
    obtain ⟨way, goal, htrail, hway⟩ := hshares.1 m.current List.mem_cons_self
    exact h.extended hplaced ((htrail.extends_of_ensureDir htop hop).mono fun s hs => hway s hs)
  | clearingStaging =>
    cases ha
    exact shared_of_removeOne h hplaced hshares haccepted hstagingName (staging_eq (j := j) ▸ hop)
  | makingParent m a rest =>
    cases ha
    obtain ⟨hready, hstaging, -, -, hstays⟩ := hshares
    rcases ensureDir_eq_ok htop (hstays m.current List.mem_cons_self) hop with rfl | ⟨parent, name, hplace, hparent, hnone, rfl⟩
    · exact ⟨h, .refl j initial places base _⟩
    · rcases hplace with hplace | ⟨a', ha', names, hspot, hprefix⟩
      · obtain ⟨left, hleads⟩ := hready
        exact absurd hnone (hleads.stand?_ne_none _ hplace)
      · rw [hspot]
        refine shared_of_staging h hplaced hready (Entry.only_leaf (fun t stand hhas => ?_) ⟨a', ha', Or.inr ⟨rfl, ?_⟩⟩)
        · cases hhas with
          | here => rfl
          | into hmem => exact absurd hmem List.not_mem_nil
        · rwa [List.append_nil]
  | writing a rest =>
    cases ha
    obtain ⟨hready, hstaging, ha, -⟩ := hshares
    obtain ⟨way, htrail, -⟩ := exists_trail_of_stagedFile hplaced haccepted h.frame hstaging.plain ha
    obtain ⟨-, -, -, rfl⟩ := write_eq_ok htrail htop hop
    refine shared_of_staging h hplaced hready (Entry.only_leaf (fun t stand hhas => ?_) ?_)
    · cases hhas
      rfl
    · rw [List.append_nil]
      exact listed_file ha
  | clearingBackup =>
    cases ha
    exact shared_of_removeOne h hplaced hshares.1 haccepted hbackupName (backup_eq (j := j) ▸ hop)
  | looking =>
    cases ha
    obtain rfl := look_eq_ok hop
    exact ⟨h, .refl j initial places base _⟩
  | settingAside =>
    cases ha
    exact shared_of_settingAside h hplaced hshares.1 haccepted hop
  | swapping previous =>
    cases ha
    exact shared_of_swapping h hplaced hshares.1 haccepted hshares.2.1 hop
  | restoring error =>
    cases ha
    exact shared_of_restoring h hplaced hshares.1 haccepted hshares.2 hop
  | clearingPrevious =>
    cases ha
    exact shared_of_removeOne h hplaced hshares haccepted hbackupName (backup_eq (j := j) ▸ hop)
  | cleaning error =>
    cases ha
    exact shared_of_removeOne h hplaced hshares haccepted hstagingName (staging_eq (j := j) ▸ hop)
  | finished result => cases ha

/-- What is so in the next phase after an operation that succeeds. -/
theorem shares_after_ok (hplaced : j.Placed initial places base) (haccepted : j.Accepted) (h : j.Shared initial places base d')
    (hshares : j.Shares initial places base d' phase)
    (hmade : ∀ m, phase = .makingTarget m → m.current = j.dir → j.Ready places base d') :
    j.Shares initial places base d' (phase.after (j.carrying artifacts) (.ok ())) := by
  cases phase with
  | makingTarget m =>
    obtain ⟨hstays, hlast⟩ := hshares
    rw [Phase.after]
    cases hafter : m.after (.ok ()) with
    | more m' => exact ⟨stays_of_after_more hafter hstays, (Making.after_more hafter).2.trans hlast⟩
    | made =>
      rw [(Making.after_made hafter).2, List.getLast?_singleton, Option.some.injEq] at hlast
      exact hmade m rfl hlast
    | failed e => trivial
  | makingParent m a rest =>
    obtain ⟨hready, hstaging, ha, hrest, hstays⟩ := hshares
    rw [Phase.after]
    cases hafter : m.after (.ok ()) with
    | more m' => exact ⟨hready, hstaging, ha, hrest, stays_of_after_more hafter hstays⟩
    | made => exact ⟨hready, hstaging, ha, hrest⟩
    | failed e => exact hready
  | writing a rest =>
    obtain ⟨hready, hstaging, -, hrest⟩ := hshares
    exact shares_stage hplaced haccepted h.frame hready hstaging hrest
  | clearingStaging | clearingBackup | looking | settingAside | clearingPrevious | cleaning | finished => exact hshares
  | swapping previous => cases previous <;> exact hshares.1
  | restoring error => exact hshares.1

/-- What is so in the next phase after an operation that fails. -/
theorem shares_after_error (hplaced : j.Placed initial places base) (haccepted : j.Accepted) (h : j.Shared initial places base d)
    (hartifacts : ∀ a ∈ artifacts, a ∈ j.artifacts) (hshares : j.Shares initial places base d phase) {a : Action} {e : FileError}
    (ha : phase.action? (j.carrying artifacts) = some a) (hop : d.outcome a = .error e) :
    j.Shares initial places base d (phase.after (j.carrying artifacts) (.error e)) := by
  cases phase with
  | makingTarget m =>
    obtain ⟨hstays, hlast⟩ := hshares
    rw [Phase.after]
    cases hafter : m.after (.error e) with
    | more m' => exact ⟨stays_of_after_more hafter hstays, (Making.after_more hafter).2.trans hlast⟩
    | made => cases (Making.after_made hafter).1
    | failed e => trivial
  | clearingStaging =>
    cases ha
    by_cases hnone : e = .noEntry
    · subst hnone
      have hground : j.Grounded initial places base d := ⟨h.frame, hshares⟩
      have hmissing := hground.find?_of_removeOne isName_stagingName (staging_eq (j := j) ▸ hop)
      exact shares_stage hplaced haccepted h.frame hshares (stagingKnown_of_missing hmissing) hartifacts
    · rw [Phase.after]
      · trivial
      · exact hnone
  | makingParent m a rest =>
    obtain ⟨hready, hstaging, ha, hrest, hstays⟩ := hshares
    rw [Phase.after]
    cases hafter : m.after (.error e) with
    | more m' => exact ⟨hready, hstaging, ha, hrest, stays_of_after_more hafter hstays⟩
    | made => cases (Making.after_made hafter).1
    | failed e => exact hready
  | writing a rest => exact hshares.1
  | clearingBackup =>
    cases ha
    by_cases hnone : e = .noEntry
    · subst hnone
      have hground : j.Grounded initial places base d := ⟨h.frame, hshares.1⟩
      have hmissing := hground.find?_of_removeOne isName_backupName (backup_eq (j := j) ▸ hop)
      exact ⟨hshares.1, hshares.2, backupKnown_of_missing hmissing⟩
    · rw [Phase.after]
      · exact hshares.1
      · exact hnone
  | looking => exact hshares
  | settingAside => exact hshares.1
  | swapping previous =>
    cases previous with
    | false => exact hshares.1
    | true => exact ⟨hshares.1, hshares.2.2⟩
  | restoring error => exact hshares.1
  | clearingPrevious => exact hshares
  | cleaning error =>
    by_cases hnone : e = .noEntry
    · subst hnone
      cases error <;> trivial
    · rw [Phase.after]
      · cases error <;> trivial
      · exact hnone
  | finished result => trivial

/-- A step of a job goes on from what is so, and is tame. -/
theorem shared_step (hplaced : j.Placed initial places base) (haccepted : j.Accepted) (h : j.Shared initial places base d)
    (hartifacts : ∀ a ∈ artifacts, a ∈ j.artifacts) (hshares : j.Shares initial places base d phase) :
    j.Shared initial places base (Install.step (j.carrying artifacts) none d phase).1 ∧
      j.Tame initial places base d (Install.step (j.carrying artifacts) none d phase).1 ∧
      j.Shares initial places base (Install.step (j.carrying artifacts) none d phase).1
        (Install.step (j.carrying artifacts) none d phase).2 := by
  rw [Install.step]
  cases ha : phase.action? (j.carrying artifacts) with
  | none => exact ⟨h, .refl j initial places base d, hshares⟩
  | some a =>
    simp only [perform_eq]
    cases hop : d.outcome a with
    | error e =>
      exact ⟨h, .refl j initial places base d, shares_after_error hplaced haccepted h hartifacts hshares ha hop⟩
    | ok d' =>
      obtain ⟨h', htame⟩ := shared_of_outcome hplaced haccepted h hshares ha hop
      refine ⟨h', htame, shares_after_ok hplaced haccepted h' (hshares.tame htame) ?_⟩
      rintro m rfl hdir
      cases ha
      exact ready_of_ensureDir (h.frame.top hplaced) (h.frame.trail hplaced) (hdir ▸ hop)

end Job

end Workflow
