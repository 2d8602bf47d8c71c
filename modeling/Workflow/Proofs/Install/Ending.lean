import Mathlib
import Workflow.Proofs.Disk.Count
import Workflow.Proofs.Install.Making

/-!
# Installations come to an end

What is left of a job is weighed: the entries that are on the disk and may have to be removed, and the operations that its phase can
still ask for (`Phase.weight`). Every step makes the sum less (`Install.step_weight`), so a job on a disk in order is finished after
as many operations as it is given (`Install.run_bound`), and the result of an installation is that of its job
(`Install.run_eq_install`).
-/

namespace Workflow

open Disk

/-! ## Attempts to make a directory -/

namespace Path

/-- Trimming makes no path longer. -/
theorem length_trimEnd_le (p : Path) : p.trimEnd.length ≤ p.length := by
  obtain ⟨idle, hp, -⟩ := exists_trimEnd_append p
  have hlength := congrArg List.length hp
  rw [List.length_append] at hlength
  omega

/-- The directory that a path stands in is shorter than the path. -/
theorem length_trimEnd_parent {p above : Path} (h : p.parent? = some above) :
    0 < p.trimEnd.length ∧ (above.isNone = false → above.trimEnd.length < p.trimEnd.length) := by
  rw [parent?] at h
  split at h
  · cases h
  · cases h
  · next htrim =>
    cases h
    rw [htrim]
    exact ⟨Nat.one_pos, fun hsome => by cases hsome⟩
  · next first rest hne hsingle htrim =>
    have hrest : 0 < rest.length := List.length_pos_iff.mpr fun hnil => hsingle (by rw [hnil])
    rw [htrim, List.length_cons]
    refine ⟨Nat.succ_pos _, fun _ => ?_⟩
    cases h
    split
    · have htop : (trimEnd ["", ""]).length = 1 := rfl
      rw [htop]
      omega
    · have hinner := length_trimEnd_le (trimEnd (first :: rest.dropLast))
      have houter := length_trimEnd_le (first :: rest.dropLast)
      rw [List.length_cons, List.length_dropLast] at houter
      omega

end Path

namespace Making

/-- How many attempts a making takes at most: two for each directory above the current one, and one for each that waits. -/
def tries (m : Making) : Nat := (if m.retried then 1 else 2 * m.current.trimEnd.length + 1) + m.outer.length

/-- There is an attempt to be made. -/
theorem tries_pos (m : Making) : 0 < m.tries := by
  rw [tries]
  split <;> omega

/-- A making that goes on takes fewer attempts. -/
theorem tries_after {m m' : Making} {outcome : Except FileError Unit} (h : m.after outcome = .more m') : m'.tries < m.tries := by
  obtain ⟨current, retried, outer⟩ := m
  cases outcome with
  | ok =>
    cases outer with
    | nil => cases h
    | cons next outer =>
      rw [after, goOn, MakingResult.more.injEq] at h
      subst h
      simp only [tries, if_true, List.length_cons]
      split <;> omega
  | error e =>
    rcases after_error ⟨current, retried, outer⟩ e with hafter | ⟨-, hretried, above, habove, ⟨-, hafter⟩ | ⟨hsome, hafter⟩⟩
    · rw [hafter] at h
      cases h
    · rw [hafter, MakingResult.more.injEq] at h
      subst h
      simp only at hretried habove
      have hpos := (Path.length_trimEnd_parent habove).1
      simp only [tries, hretried, if_true, Bool.false_eq_true, if_false]
      omega
    · rw [hafter, MakingResult.more.injEq] at h
      subst h
      simp only at hretried habove
      have hless := (Path.length_trimEnd_parent habove).2 hsome
      simp only [tries, hretried, Bool.false_eq_true, if_false, List.length_cons]
      omega

end Making

/-! ## What is left to do -/

namespace Phase

variable {j : Job}

/-- The weight of the files that are still to be written, with all that comes after them. -/
def stageWeight (j : Job) : List Artifact → Nat
  | [] => 6
  | a :: rest => 2 * Install.makingSteps (j.stagedFile a) + 2 + stageWeight j rest

/-- The weight of a phase: how many operations it can still ask for, removals aside. One that adds an entry counts twice, since the
entry may have to be removed. -/
def weight (j : Job) : Phase → Nat
  | makingTarget m => 2 * m.tries + 2 + stageWeight j j.artifacts
  | clearingStaging => 1 + stageWeight j j.artifacts
  | makingParent m _ rest => 2 * m.tries + 2 + stageWeight j rest
  | writing _ rest => 2 + stageWeight j rest
  | clearingBackup => 6
  | looking => 5
  | settingAside => 4
  | swapping _ => 3
  | restoring _ => 2
  | clearingPrevious => 2
  | cleaning _ => 1
  | finished _ => 0

/-- The work on the next file weighs no more than the files. -/
theorem weight_stage_le (j : Job) (artifacts : List Artifact) : (stage j artifacts).weight j ≤ stageWeight j artifacts := by
  cases artifacts with
  | nil => exact Nat.le_refl _
  | cons a rest =>
    rw [stage, stageWeight]
    cases hparent : (j.stagedFile a).parent? with
    | none =>
      simp only [Option.map_none, Option.getD_none, weight]
      omega
    | some above =>
      rw [Option.map_some, Option.getD_some, Making.start]
      cases hsome : above.isNone with
      | true =>
        simp only [if_true, weight]
        omega
      | false =>
        have hless := (Path.length_trimEnd_parent hparent).2 hsome
        have hle := Path.length_trimEnd_le (j.stagedFile a)
        simp only [Bool.false_eq_true, if_false, weight, Making.tries, List.length_nil, Install.makingSteps]
        omega

/-- Nothing is left to do at the end. -/
theorem weight_finish (j : Job) (earlier late : Option InstallError) : (finish j earlier late).weight j = 0 := by
  rw [finish]
  split <;> rfl

/-- After an attempt to make a directory so much less is left to do that one entry more is made up for. -/
theorem weight_after_makingTarget (j : Job) (m : Making) (outcome : Except FileError Unit) :
    (after j outcome (.makingTarget m)).weight j + 2 ≤ (makingTarget m).weight j := by
  have hpos := m.tries_pos
  rw [after]
  cases hafter : m.after outcome with
  | more m' =>
    have hless := Making.tries_after hafter
    simp only [weight]
    omega
  | made | failed =>
    simp only [weight]
    omega

/-- The same on the way to a file. -/
theorem weight_after_makingParent (j : Job) (m : Making) (a : Artifact) (rest : List Artifact) (outcome : Except FileError Unit) :
    (after j outcome (.makingParent m a rest)).weight j + 2 ≤ (makingParent m a rest).weight j := by
  have hpos := m.tries_pos
  rw [after]
  cases hafter : m.after outcome with
  | more m' =>
    have hless := Making.tries_after hafter
    simp only [weight]
    omega
  | made | failed =>
    simp only [weight]
    omega

/-- After a failed operation less is left to do. -/
theorem weight_after_error {phase : Phase} (hgoing : ∀ result, phase ≠ .finished result) (e : FileError) :
    (phase.after j (.error e)).weight j < phase.weight j := by
  cases phase with
  | makingTarget m => exact Nat.lt_of_succ_lt (weight_after_makingTarget j m (.error e))
  | clearingStaging =>
    have hstage := weight_stage_le j j.artifacts
    rw [after.eq_def]
    simp only
    split
    · cases ‹Except.error e = .ok ()›
    · change (stage j j.artifacts).weight j < 1 + stageWeight j j.artifacts
      omega
    · exact Nat.lt_add_right _ Nat.one_pos
  | makingParent m a rest => exact Nat.lt_of_succ_lt (weight_after_makingParent j m a rest (.error e))
  | writing a rest =>
    simp only [after, weight]
    omega
  | clearingBackup =>
    rw [after.eq_def]
    simp only
    split <;> simp_all [weight]
  | looking | settingAside | restoring | clearingPrevious => simp [after, weight]
  | swapping previous => cases previous <;> simp [after, weight]
  | cleaning error =>
    rw [after.eq_def]
    simp only
    split
    · cases ‹Except.error e = .ok ()›
    · rw [weight_finish]
      exact Nat.one_pos
    · rw [weight_finish]
      exact Nat.one_pos
  | finished result => exact absurd rfl (hgoing result)

end Phase

namespace Install

variable {j : Job} {d d' : Disk} {phase : Phase}

/-- After an operation that succeeds there is less on the disk, or less is left to do. -/
theorem weight_after_ok {a : Action} (h : d.Ordered) (ha : phase.action? j = some a) (hop : d.outcome a = .ok d') :
    d'.Ordered ∧ d'.count + (phase.after j (.ok ())).weight j < d.count + phase.weight j := by
  cases phase with
  | makingTarget m =>
    cases ha
    obtain ⟨hordered, hcount⟩ := ensureDir_count h hop
    have hless := Phase.weight_after_makingTarget j m (.ok ())
    exact ⟨hordered, by omega⟩
  | clearingStaging =>
    cases ha
    obtain ⟨hordered, hcount⟩ := removeOne_count h Job.isName_stagingName (Job.staging_eq ▸ hop)
    exact ⟨hordered, Nat.add_lt_add_right hcount _⟩
  | makingParent m a rest =>
    cases ha
    obtain ⟨hordered, hcount⟩ := ensureDir_count h hop
    have hless := Phase.weight_after_makingParent j m a rest (.ok ())
    exact ⟨hordered, by omega⟩
  | writing a rest =>
    cases ha
    obtain ⟨hordered, hcount⟩ := write_count h hop
    have hstage := Phase.weight_stage_le j rest
    refine ⟨hordered, ?_⟩
    change d'.count + (Phase.stage j rest).weight j < d.count + (2 + Phase.stageWeight j rest)
    omega
  | clearingBackup =>
    cases ha
    obtain ⟨hordered, hcount⟩ := removeOne_count h Job.isName_backupName (Job.backup_eq ▸ hop)
    exact ⟨hordered, Nat.add_lt_add_right hcount _⟩
  | looking =>
    cases ha
    obtain rfl := look_eq_ok hop
    exact ⟨h, Nat.add_lt_add_left (Nat.lt_succ_self 4) _⟩
  | settingAside =>
    cases ha
    obtain ⟨hordered, hcount⟩ := rename_count h hop
    exact ⟨hordered, Nat.add_lt_add_of_le_of_lt hcount (Nat.lt_succ_self 3)⟩
  | swapping previous =>
    cases ha
    obtain ⟨hordered, hcount⟩ := rename_count h hop
    refine ⟨hordered, Nat.add_lt_add_of_le_of_lt hcount ?_⟩
    cases previous <;> simp [Phase.after, Phase.weight]
  | restoring error =>
    cases ha
    obtain ⟨hordered, hcount⟩ := rename_count h hop
    exact ⟨hordered, Nat.add_lt_add_of_le_of_lt hcount (Nat.lt_succ_self 1)⟩
  | clearingPrevious =>
    cases ha
    obtain ⟨hordered, hcount⟩ := removeOne_count h Job.isName_backupName (Job.backup_eq ▸ hop)
    exact ⟨hordered, Nat.add_lt_add_right hcount _⟩
  | cleaning error =>
    cases ha
    obtain ⟨hordered, hcount⟩ := removeOne_count h Job.isName_stagingName (Job.staging_eq ▸ hop)
    exact ⟨hordered, Nat.add_lt_add_right hcount _⟩
  | finished result => cases ha

/-- Every step of a job that is not finished makes what is on the disk and what is left to do less. -/
theorem step_weight (h : d.Ordered) (hgoing : ∀ result, phase ≠ .finished result) :
    (step j none d phase).1.Ordered ∧
      (step j none d phase).1.count + (step j none d phase).2.weight j < d.count + phase.weight j := by
  rw [step]
  cases ha : phase.action? j with
  | none =>
    cases phase with
    | finished result => exact absurd rfl (hgoing result)
    | _ => cases ha
  | some a =>
    simp only [perform_eq]
    cases hop : d.outcome a with
    | ok d' => exact weight_after_ok h ha hop
    | error e => exact ⟨h, Nat.add_lt_add_left (Phase.weight_after_error hgoing e) _⟩

/-- A job is finished after as many operations as the disk and its phase weigh. -/
theorem run_of_weight_le {steps : Nat} (h : d.Ordered) (hsteps : d.count + phase.weight j ≤ steps) :
    ∃ d' result, run j steps d phase = (d', .finished result) := by
  induction steps generalizing d phase with
  | zero =>
    have hpos := d.count_pos
    omega
  | succ steps ih =>
    by_cases hfinished : ∃ result, phase = .finished result
    · obtain ⟨result, rfl⟩ := hfinished
      exact ⟨d, result, run_finished j _ d result⟩
    · obtain ⟨hordered, hless⟩ := step_weight (j := j) h fun result heq => hfinished ⟨result, heq⟩
      rw [run_succ]
      exact ih hordered (by omega)

/-- The files of a job weigh as much as it takes to write them. -/
theorem stageWeight_eq (j : Job) : Phase.stageWeight j j.artifacts = 6 + 2 * writingSteps j := by
  rw [writingSteps]
  induction j.artifacts with
  | nil => rfl
  | cons a rest ih =>
    rw [Phase.stageWeight, ih, List.foldr_cons]
    omega

/-- A job on a disk in order is finished within its bound. -/
theorem run_bound (j : Job) (h : d.Ordered) : ∃ d' result, run j (bound j d) d (.first j) = (d', .finished result) := by
  refine run_of_weight_le h ?_
  have hfiles := stageWeight_eq j
  have hdir := Path.length_trimEnd_le j.dir
  rw [Phase.first, Making.start, bound, makingSteps]
  by_cases hnone : j.dir.isNone = true
  · rw [if_pos hnone]
    simp only [Phase.weight]
    omega
  · rw [if_neg hnone]
    simp only [Phase.weight, Making.tries, Bool.false_eq_true, if_false, List.length_nil]
    omega

/-- On a disk in order an installation ends as its job does. -/
theorem run_eq_install {dir : Path} {artifacts : List Artifact} {root : String} (h : d.Ordered)
    (haccepted : packageRoot none artifacts = .ok root) :
    run ⟨dir, root, artifacts⟩ (bound ⟨dir, root, artifacts⟩ d) d (.first ⟨dir, root, artifacts⟩) =
      ((install d dir artifacts).1, .finished (install d dir artifacts).2) := by
  obtain ⟨d', result, hrun⟩ := run_bound ⟨dir, root, artifacts⟩ h
  rw [install, haccepted]
  simp only [hrun]

end Install

end Workflow
