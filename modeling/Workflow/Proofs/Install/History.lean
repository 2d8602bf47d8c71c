import Mathlib
import Workflow.Proofs.Install.Safety

/-!
# A package over many runs

Runs for one package in one directory, one after the other, each of which comes to its end or is cut off (`Install.Attempt`,
`Install.History`). What stood in the place of the package before a run stands there or is the backup after it, however far the run
came and whatever failed (`Install.Attempt.whole`). So a package that was once installed, or a later one, is found in its place or as
the backup, as long as no run clears a backup that is the only copy without putting its own package in place
(`Install.stored_of_history`).
-/

namespace Workflow

open Disk

namespace Job

variable {j : Job} {initial d d' : Disk} {places : List Spot} {base : Spot} {phase : Phase}

/-! ## One run -/

/-- Whether it is credible that an operation fails in a way. It is not that there is said to be no staging directory where there is
one. -/
def credible (j : Job) (d : Disk) (e : FileError) : Phase → Bool
  | .clearingStaging => decide (e = .noEntry → (d.perform (.removeOne j.staging)).2 = .error .noEntry)
  | _ => true

/-- A job bears a credible failure, unless it is that the former package cannot be put back. -/
theorem bears_of_credible {e : FileError} (h : j.credible d e phase = true) (hphase : ∀ error, phase ≠ .restoring error) :
    j.bears d e phase = true := by
  cases phase with
  | restoring error => exact absurd rfl (hphase error)
  | clearingStaging => exact h
  | _ => rfl

/-- The former package could not be put back: it is the backup, and the job clears up or is finished. -/
structure Stuck (j : Job) (initial : Disk) (places : List Spot) (base : Spot) (d : Disk) (phase : Phase) : Prop where
  at_end : (∃ error, phase = .cleaning (some error)) ∧ j.Grounded initial places base d ∨ ∃ error, phase = .finished (.error error)
  gone : d.find? (base ++ [j.root]) = none
  kept : d.find? (base ++ [j.backupName]) = initial.find? (base ++ [j.root])

/-- What is so of a run at any time: nothing has changed elsewhere, and what holds in its phase does, or it could not put back the
former package. -/
structure Courses (j : Job) (initial : Disk) (places : List Spot) (base : Spot) (d : Disk) (phase : Phase) : Prop where
  frame : j.Frame initial places base d
  holds : j.Holds initial places base true d phase ∨ j.Stuck initial places base d phase

/-- An operation that succeeds is never the last one. -/
theorem after_ok_ne_finished {a : Action} (ha : phase.action? j = some a) (result : Except InstallError (List Path)) :
    phase.after j (.ok ()) ≠ .finished result := by
  have hstage : ∀ rest, Phase.stage j rest ≠ .finished result := by
    intro rest
    cases rest with
    | nil => exact fun hx => by cases hx
    | cons a rest =>
      rw [Phase.stage]
      split <;> exact fun hx => by cases hx
  cases phase with
  | makingTarget m =>
    obtain ⟨current, retried, outer⟩ := m
    cases outer <;> exact fun hx => by cases hx
  | makingParent m a rest =>
    obtain ⟨current, retried, outer⟩ := m
    cases outer <;> exact fun hx => by cases hx
  | writing a rest => exact hstage rest
  | swapping previous => cases previous <;> exact fun hx => by cases hx
  | finished result => cases ha
  | clearingStaging | clearingBackup | looking | settingAside | restoring | clearingPrevious | cleaning => exact fun hx => by cases hx

/-- Until the end nothing changes elsewhere. -/
theorem Holds.frame {fails : Bool} (h : j.Holds initial places base fails d phase) (hgoing : ∀ result, phase ≠ .finished result) :
    j.Frame initial places base d := by
  cases phase with
  | makingTarget => exact h.1
  | swapping previous => cases previous <;> exact h.1.frame
  | cleaning error => cases error <;> exact h.1.frame
  | clearingStaging | makingParent | writing | clearingBackup | looking | settingAside | restoring | clearingPrevious =>
    exact h.1.frame
  | finished result => exact absurd rfl (hgoing result)

section

variable (hplaced : j.Placed initial places base) (haccepted : j.Accepted)

include hplaced haccepted

/-- After an operation that succeeds. -/
theorem Courses.after_ok {a : Action} (h : j.Courses initial places base d phase) (ha : phase.action? j = some a)
    (hop : d.outcome a = .ok d') : j.Courses initial places base d' (phase.after j (.ok ())) := by
  rcases h.holds with hholds | hstuck
  · have hnext := holds_after_ok hplaced haccepted hholds ha hop
    exact ⟨hnext.frame (after_ok_ne_finished ha), Or.inl hnext⟩
  · rcases hstuck.at_end with ⟨⟨error, rfl⟩, hground⟩ | ⟨error, rfl⟩
    · cases ha
      obtain ⟨hground', new, rfl⟩ := hground.removeOne_eq_ok hplaced isName_stagingName own_staging (staging_eq ▸ hop)
      have hroot := apart_at base (stagingName_ne_root (j := j))
      have hbackup := apart_at base (stagingName_ne_backupName (j := j))
      refine ⟨hground'.frame, Or.inr ⟨Or.inl ⟨⟨error, rfl⟩, hground'⟩, ?_, ?_⟩⟩
      · rw [Entry.find?_replace_of_apart hroot.1 hroot.2, hstuck.gone]
      · rw [Entry.find?_replace_of_apart hbackup.1 hbackup.2, hstuck.kept]
    · cases ha

/-- After an operation that fails, for a reason on the disk or without one. -/
theorem Courses.after_error {a : Action} {e : FileError} (h : j.Courses initial places base d phase) (ha : phase.action? j = some a)
    (he : (∀ error, phase ≠ .restoring error) → j.Holds initial places base true d phase → j.Explained base true d e phase) :
    j.Courses initial places base d (phase.after j (.error e)) := by
  refine ⟨h.frame, ?_⟩
  rcases h.holds with hholds | hstuck
  · by_cases hrestoring : ∃ error, phase = .restoring error
    · obtain ⟨error, rfl⟩ := hrestoring
      exact Or.inr ⟨Or.inl ⟨⟨error, rfl⟩, hholds.1⟩, hholds.2.1.gone, hholds.2.1.kept⟩
    · exact Or.inl (holds_after_error hplaced haccepted hholds (he (fun error heq => hrestoring ⟨error, heq⟩) hholds))
  · rcases hstuck.at_end with ⟨⟨error, rfl⟩, hground⟩ | ⟨error, rfl⟩
    · refine Or.inr ⟨Or.inr ⟨error, ?_⟩, hstuck.gone, hstuck.kept⟩
      rw [Phase.after.eq_def]
      simp only
      split
      · cases ‹Except.error e = .ok ()›
      · rfl
      · rfl
    · cases ha

/-- A step of a run, which may fail in a credible way. -/
theorem Courses.step {fault : Option FileError} (h : j.Courses initial places base d phase)
    (hcredible : fault.all (j.credible d · phase) = true) :
    j.Courses initial places base (Install.step j fault d phase).1 (Install.step j fault d phase).2 := by
  rw [Install.step]
  cases ha : phase.action? j with
  | none => exact h
  | some a =>
    cases fault with
    | some e =>
      exact h.after_error hplaced haccepted ha fun hphase hholds => explained_of_bears hholds (bears_of_credible hcredible hphase)
    | none =>
      simp only [perform_eq]
      cases hop : d.outcome a with
      | ok d' => exact h.after_ok hplaced haccepted ha hop
      | error e => exact h.after_error hplaced haccepted ha fun _ hholds => explained_of_outcome hplaced hholds ha hop

end

end Job

/-! ## Attempts -/

namespace Install

variable {j : Job} {initial d d' : Disk} {dir : Path} {root : String} {places : List Spot} {base : Spot} {phase : Phase}

/-- Whether all failures of a run are credible. -/
def credibleAll (j : Job) : List (Option FileError) → Disk → Phase → Bool
  | [], _, _ => true
  | fault :: faults, d, phase =>
    fault.all (j.credible d · phase) && credibleAll j faults (step j fault d phase).1 (step j fault d phase).2

/-- A run of a job takes the disk so far and is then in a phase: finished, or cut off before the next operation. -/
def Attempt (j : Job) (d d' : Disk) (phase : Phase) : Prop :=
  ∃ faults, credibleAll j faults d (.first j) = true ∧ disturbed j faults d (.first j) = (d', phase)

/-- A run in which nothing fails without a reason is an attempt, as far as it comes. -/
theorem attempt_run (j : Job) (steps : Nat) (d : Disk) : Attempt j d (run j steps d (.first j)).1 (run j steps d (.first j)).2 := by
  have hcredible : ∀ steps now before, credibleAll j (.replicate steps none) now before = true := by
    intro steps
    induction steps with
    | zero => exact fun _ _ => rfl
    | succ steps ih => exact fun _ _ => ih _ _
  exact ⟨.replicate steps none, hcredible steps _ _, by rw [run_eq_disturbed]⟩

/-- What is so at any time of a run. -/
theorem Attempt.courses (h : Attempt j d d' phase) (hplaced : j.Placed d places base) (haccepted : j.Accepted) :
    j.Courses d places base d' phase := by
  obtain ⟨faults, hcredible, hrun⟩ := h
  have hsteps : ∀ {faults now before}, j.Courses d places base now before → credibleAll j faults now before = true →
      j.Courses d places base (disturbed j faults now before).1 (disturbed j faults now before).2 := by
    intro faults
    induction faults with
    | nil => exact fun hcourses _ => hcourses
    | cons fault faults ih =>
      intro now before hcourses hcredible
      rw [credibleAll, Bool.and_eq_true] at hcredible
      exact ih (hcourses.step hplaced haccepted hcredible.1) hcredible.2
  have hend := hsteps ⟨.refl, Or.inl (Job.holds_first hplaced true)⟩ hcredible
  rwa [hrun] at hend

/-- A run leaves the directory in its place, for whatever files come next. -/
theorem Attempt.placed (h : Attempt j d d' phase) (hplaced : j.Placed d places base) (haccepted : j.Accepted)
    (artifacts : List Artifact) : (j.carrying artifacts).Placed d' places base :=
  ((h.courses hplaced haccepted).frame.placed hplaced).carrying artifacts

/-- At any time of a run the package is whole. -/
theorem Attempt.whole (h : Attempt j d d' phase) (hplaced : j.Placed d places base) (haccepted : j.Accepted) :
    j.Whole d base d' := by
  rcases (h.courses hplaced haccepted).holds with hholds | hstuck
  · exact Job.whole_of_holds haccepted hholds
  · exact ⟨Or.inr (Or.inl hstuck.gone), fun _ _ => hstuck.kept⟩

/-- After a run that succeeds the package is in its place. -/
theorem Attempt.complete {paths : List Path} (h : Attempt j d d' (.finished (.ok paths))) (hplaced : j.Placed d places base)
    (haccepted : j.Accepted) : j.Complete (base ++ [j.root]) d' := by
  rcases (h.courses hplaced haccepted).holds with hholds | hstuck
  · exact hholds.2.2.1.complete
  · rcases hstuck.at_end with ⟨⟨error, hphase⟩, -⟩ | ⟨error, hphase⟩ <;> cases hphase

/-! ## Histories -/

/-- A run has found the place of the package empty, has changed the backup, and has put nothing in the place of the package. -/
def Stranded (j : Job) (base : Spot) (d d' : Disk) : Prop :=
  d.find? (base ++ [j.root]) = none ∧ d'.find? (base ++ [j.root]) = none ∧
    d'.find? (base ++ [j.backupName]) ≠ d.find? (base ++ [j.backupName])

/-- What runs for one package may come to, the last run first. The first index tells that one of them has succeeded and that none has
stranded since. -/
inductive History (dir : Path) (root : String) (base : Spot) (initial : Disk) : Bool → List (List Artifact) → Disk → Prop
  | start : History dir root base initial false [] initial
  | attempt {installed safe : Bool} {runs : List (List Artifact)} {d d' : Disk} {artifacts : List Artifact} {phase : Phase}
      (before : History dir root base initial installed runs d) (haccepted : packageRoot none artifacts = .ok root)
      (h : Attempt ⟨dir, root, artifacts⟩ d d' phase)
      (hsafe : safe = true → installed = true ∧ ¬Stranded ⟨dir, root, artifacts⟩ base d d') :
      History dir root base initial safe (artifacts :: runs) d'
  | success {installed : Bool} {runs : List (List Artifact)} {d d' : Disk} {artifacts : List Artifact} {paths : List Path}
      (before : History dir root base initial installed runs d) (haccepted : packageRoot none artifacts = .ok root)
      (h : Attempt ⟨dir, root, artifacts⟩ d d' (.finished (.ok paths))) :
      History dir root base initial true (artifacts :: runs) d'

/-- The package of one of some runs is in its place, or there is nothing and it is the backup. -/
def Stored (dir : Path) (root : String) (base : Spot) (runs : List (List Artifact)) (d : Disk) : Prop :=
  ∃ artifacts ∈ runs, (Job.mk dir root artifacts).Complete (base ++ [root]) d ∨
    d.find? (base ++ [root]) = none ∧
      (Job.mk dir root artifacts).Complete (base ++ [(Job.mk dir root artifacts).backupName]) d

/-- A package is complete wherever the tree of a complete one stands. -/
theorem complete_of_find?_eq {spot spot' : Spot} (h : j.Complete spot d) (heq : d'.find? spot' = d.find? spot) :
    j.Complete spot' d' := by
  intro inside
  rw [Entry.stand?, Entry.find?_append, heq, ← Entry.find?_append]
  exact h inside

/-- A package that is stored stays so, or a later one is, through a run that does not strand. -/
theorem Stored.attempt {runs : List (List Artifact)} {artifacts : List Artifact} (h : Stored dir root base runs d)
    (haccepted : ∀ a ∈ runs, packageRoot none a = .ok root) (hwhole : (Job.mk dir root artifacts).Whole d base d')
    (hsafe : ¬Stranded ⟨dir, root, artifacts⟩ base d d') : Stored dir root base (artifacts :: runs) d' := by
  obtain ⟨former, hmem, hstored⟩ := h
  obtain ⟨hplace, hbackup⟩ := hwhole
  have hformer : former ∈ artifacts :: runs := List.mem_cons_of_mem _ hmem
  rcases hstored with hcomplete | ⟨hgone, hcomplete⟩
  · have hstood : d.find? (base ++ [root]) ≠ none :=
      mt Entry.stand?_eq_none_iff.mpr (Job.Complete.stand?_root (j := ⟨dir, root, former⟩) (haccepted former hmem) hcomplete)
    rcases hplace with hsame | hgone | hnew
    · exact ⟨former, hformer, Or.inl (complete_of_find?_eq hcomplete hsame)⟩
    · exact ⟨former, hformer, Or.inr ⟨hgone, complete_of_find?_eq hcomplete (hbackup hstood hgone)⟩⟩
    · exact ⟨artifacts, List.mem_cons_self, Or.inl hnew⟩
  · have hstays : d'.find? (base ++ [root]) = none → Stored dir root base (artifacts :: runs) d' := by
      intro hgone'
      have hsame := not_not.mp fun hne => hsafe ⟨hgone, hgone', hne⟩
      exact ⟨former, hformer, Or.inr ⟨hgone', complete_of_find?_eq hcomplete hsame⟩⟩
    rcases hplace with hsame | hgone' | hnew
    · exact hstays (hsame.trans hgone)
    · exact hstays hgone'
    · exact ⟨artifacts, List.mem_cons_self, Or.inl hnew⟩

/-- The runs of a history are for packages of its root. -/
theorem History.accepted {installed : Bool} {runs : List (List Artifact)} (h : History dir root base initial installed runs d) :
    ∀ a ∈ runs, packageRoot none a = .ok root := by
  induction h with
  | start => exact fun a ha => absurd ha List.not_mem_nil
  | attempt _ haccepted _ _ ih => exact List.forall_mem_cons.mpr ⟨haccepted, ih⟩
  | success _ haccepted _ ih => exact List.forall_mem_cons.mpr ⟨haccepted, ih⟩

/-- The directory of a history has its place at any time. -/
theorem History.placed {installed : Bool} {runs : List (List Artifact)} (h : History dir root base initial installed runs d)
    (hplaced : (Job.mk dir root []).Placed initial places base) (artifacts : List Artifact) :
    (Job.mk dir root artifacts).Placed d places base := by
  induction h generalizing artifacts with
  | start => exact hplaced.carrying artifacts
  | attempt _ haccepted h _ ih => exact h.placed (ih _) haccepted artifacts
  | success _ haccepted h ih => exact h.placed (ih _) haccepted artifacts

/-- Once a run for a package has succeeded, the package of one of the runs is in its place or the backup, however far the later runs
came and whatever failed in them, until one of them strands. -/
theorem stored_of_history {runs : List (List Artifact)}
    (hplaced : (Job.mk dir root []).Placed initial places base)
    (h : History dir root base initial true runs d) : Stored dir root base runs d := by
  generalize hinstalled : true = installed at h
  induction h with
  | start => cases hinstalled
  | attempt before haccepted h hsafe ih =>
    obtain ⟨hbefore, hnot⟩ := hsafe hinstalled.symm
    exact (ih hbefore.symm).attempt before.accepted (h.whole (before.placed hplaced _) haccepted) hnot
  | success before haccepted h _ =>
    exact ⟨_, List.mem_cons_self, Or.inl (h.complete (before.placed hplaced _) haccepted)⟩

/-- Another package for the disk with a package. -/
def newerJob : Job := ⟨["out"], "pkg", [⟨"pkg/newer.py", "newer"⟩]⟩

/-- A third package for it. -/
def newestJob : Job := ⟨["out"], "pkg", [⟨"pkg/newest.py", "newest"⟩]⟩

/-- After a second run that was cut off when it had set the first package aside, that is the backup. -/
theorem stored_of_history_notes :
    let d := (run notesJob 18 notes (.first notesJob)).1
    let d' := (run newerJob 9 d (.first newerJob)).1
    d'.stand? ["out", "pkg"] = none ∧ Stored ["out"] "pkg" ["out"] [newerJob.artifacts, notesJob.artifacts] d' := by
  intro d d'
  have hresult : (run notesJob 18 notes (.first notesJob)).2 = .finished (.ok [["out", "pkg", "new.py"]]) :=
    Phase.eq_finished (by decide +kernel)
  have hsuccess := attempt_run notesJob 18 notes
  rw [hresult] at hsuccess
  have haccepted : packageRoot none newerJob.artifacts = .ok "pkg" := by decide +kernel
  have hthere : d.stand? ["out", "pkg"] = some .dir := by decide +kernel
  have hsafe : ¬Stranded newerJob ["out"] d d' := by
    rintro ⟨hgone, -⟩
    have hnone : d.stand? ["out", "pkg"] = none := Entry.stand?_eq_none_iff.mpr hgone
    rw [hthere] at hnone
    cases hnone
  exact ⟨by decide +kernel, stored_of_history (placed_notesJob.carrying [])
    (.attempt (.success .start accepted_notesJob hsuccess) haccepted (attempt_run newerJob 9 d) fun _ => ⟨rfl, hsafe⟩)⟩

/-- A third run strands: the second one has left the first package as the backup alone, and the third one clears the backup and is cut
off before its own package is in place. -/
theorem not_stored_of_stranded :
    let first := run notesJob 18 notes (.first notesJob)
    let second := run newerJob 9 first.1 (.first newerJob)
    let third := run newestJob 13 second.1 (.first newestJob)
    first.2.result? = some (.ok [["out", "pkg", "new.py"]]) ∧
      ∀ artifacts ∈ [newestJob.artifacts, newerJob.artifacts, notesJob.artifacts],
        ¬(Job.mk ["out"] "pkg" artifacts).Complete ["out", "pkg"] third.1 ∧
          ¬(Job.mk ["out"] "pkg" artifacts).Complete ["out", ".pkg.previous"] third.1 := by
  intro first second third
  have hresult : first.2.result? = some (.ok [["out", "pkg", "new.py"]]) := by decide +kernel
  have haccepted : ∀ a ∈ [newestJob.artifacts, newerJob.artifacts, notesJob.artifacts], packageRoot none a = .ok "pkg" := by
    decide +kernel
  have hroot : third.1.stand? ["out", "pkg"] = none := by decide +kernel
  have hbackup : third.1.stand? ["out", ".pkg.previous"] = none := by decide +kernel
  refine ⟨hresult, fun artifacts hmem => ⟨fun hcomplete => ?_, fun hcomplete => ?_⟩⟩
  · exact Job.Complete.stand?_root (j := ⟨["out"], "pkg", artifacts⟩) (haccepted artifacts hmem) hcomplete hroot
  · exact Job.Complete.stand?_root (j := ⟨["out"], "pkg", artifacts⟩) (haccepted artifacts hmem) hcomplete hbackup

end Install

end Workflow
