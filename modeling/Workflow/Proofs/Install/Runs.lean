import Mathlib
import Workflow.Proofs.Install.Steps

/-!
# Runs of a job

Every step of a job goes from what holds to what holds, be it undisturbed (`holds_step`) or failing without a reason on the disk
(`holds_step_fault`). So what holds at the beginning (`holds_first`) leads to what holds at any time of a run (`holds_run`,
`holds_disturbed`).
-/

namespace Workflow

open Disk

/-! ## Steps -/

namespace Disk

variable {d d' : Disk}

/-- The disk after an operation, or why there is none. -/
def outcome (d : Disk) : Action → Except FileError Disk
  | .ensureDir p => d.ensureDir p
  | .removeOne p => d.removeOne p
  | .write p contents => d.write p contents.toUTF8
  | .look p => d.look p
  | .rename source target => d.rename source target

/-- An operation that succeeds changes the disk; one that fails does not. -/
theorem perform_eq (a : Action) :
    d.perform a =
      match d.outcome a with
      | .ok d' => (d', .ok ())
      | .error e => (d, .error e) := by
  cases a <;> rfl

end Disk

namespace Job

variable {j : Job} {initial d d' : Disk} {places : List Spot} {base : Spot} {fails : Bool}

/-- After an operation that succeeds, the next phase holds. -/
theorem holds_after_ok (hplaced : j.Placed initial places base) (haccepted : j.Accepted) {phase : Phase} {a : Action}
    (h : j.Holds initial places base fails d phase) (ha : phase.action? j = some a) (hop : d.outcome a = .ok d') :
    j.Holds initial places base fails d' (phase.after j (.ok ())) := by
  cases phase with
  | makingTarget m => cases ha; exact holds_of_makingTarget hplaced h hop
  | clearingStaging =>
    cases ha
    obtain ⟨hground, new, rfl⟩ := h.1.removeOne_eq_ok hplaced isName_stagingName own_staging (staging_eq ▸ hop)
    exact ⟨hground, h.2.replace_entry stagingName_ne_root new⟩
  | makingParent m a rest => cases ha; exact holds_of_makingParent hplaced h hop
  | writing a rest => cases ha; exact holds_of_writing hplaced haccepted h hop
  | clearingBackup => cases ha; exact holds_of_clearingBackup hplaced h hop
  | looking => cases ha; exact look_eq_ok hop ▸ h
  | settingAside => cases ha; exact holds_of_settingAside hplaced haccepted h hop
  | swapping previous => cases ha; exact holds_of_swapping hplaced haccepted h hop
  | restoring error =>
    cases ha
    obtain ⟨restored, hrestored, hground, hkept⟩ := exists_restore hplaced h.1 h.2.1
    obtain rfl := Except.ok.inj (hrestored.symm.trans hop)
    exact ⟨hground, hkept⟩
  | clearingPrevious => cases ha; exact holds_of_clearingPrevious hplaced haccepted h hop
  | cleaning error => cases ha; exact holds_of_cleaning hplaced haccepted h hop
  | finished result => cases ha

/-- An operation that the disk makes fail fails for a reason. -/
theorem explained_of_outcome (hplaced : j.Placed initial places base) {phase : Phase} {a : Action} {e : FileError}
    (h : j.Holds initial places base fails d phase) (ha : phase.action? j = some a) (hop : d.outcome a = .error e) :
    j.Explained base fails d e phase := by
  cases phase with
  | clearingStaging =>
    cases ha
    rintro rfl
    exact h.1.find?_of_removeOne isName_stagingName (staging_eq ▸ hop)
  | clearingBackup =>
    cases ha
    rintro - rfl
    exact h.1.find?_of_removeOne isName_backupName (backup_eq ▸ hop)
  | restoring error =>
    cases ha
    obtain ⟨restored, hrestored, -, -⟩ := exists_restore hplaced h.1 h.2.1
    cases hrestored.symm.trans hop
  | clearingPrevious =>
    cases ha
    exact fun _ => find?_of_removeOne_eq_error h.2.2 hop
  | cleaning error =>
    cases ha
    cases error with
    | none =>
      rintro - rfl
      exact h.1.find?_of_removeOne isName_stagingName (staging_eq ▸ hop)
    | some error => trivial
  | makingTarget | makingParent | writing | looking | settingAside | swapping | finished => trivial

/-- A step that fails only for what stands on the disk goes from what holds to what holds. -/
theorem holds_step (hplaced : j.Placed initial places base) (haccepted : j.Accepted) {phase : Phase}
    (h : j.Holds initial places base fails d phase) :
    j.Holds initial places base fails (Install.step j none d phase).1 (Install.step j none d phase).2 := by
  rw [Install.step]
  cases ha : phase.action? j with
  | none => exact h
  | some a =>
    simp only [perform_eq]
    cases hop : d.outcome a with
    | ok d' => exact holds_after_ok hplaced haccepted h ha hop
    | error e => exact holds_after_error hplaced haccepted h (explained_of_outcome hplaced h ha hop)

/-- Whether a job bears an operation that fails without a reason on the disk. It bears all failures, but for one to put the former
package back, and for the answer that there is no staging directory where there is one. -/
def bears (j : Job) (d : Disk) (e : FileError) : Phase → Bool
  | .clearingStaging => decide (e = .noEntry → (d.perform (.removeOne j.staging)).2 = .error .noEntry)
  | .restoring _ => false
  | _ => true

/-- A failure that a job bears is as good as one for a reason. -/
theorem explained_of_bears {phase : Phase} {e : FileError} (h : j.Holds initial places base true d phase)
    (he : j.bears d e phase = true) : j.Explained base true d e phase := by
  cases phase with
  | clearingStaging =>
    intro hnone
    have hanswer := of_decide_eq_true he hnone
    rw [perform_eq] at hanswer
    cases hop : d.outcome (.removeOne j.staging) with
    | ok d' =>
      rw [hop] at hanswer
      cases hanswer
    | error err =>
      rw [hop] at hanswer
      obtain rfl := Except.error.inj hanswer
      exact h.1.find?_of_removeOne isName_stagingName (staging_eq ▸ hop)
  | clearingBackup =>
    intro hx
    cases hx
  | restoring error => cases he
  | clearingPrevious =>
    intro hx
    cases hx
  | cleaning error =>
    cases error with
    | none =>
      intro hx
      cases hx
    | some error => trivial
  | makingTarget | makingParent | writing | looking | settingAside | swapping | finished => trivial

/-- A step that fails without a reason goes from what holds to what holds, if the job bears it. -/
theorem holds_step_fault (hplaced : j.Placed initial places base) (haccepted : j.Accepted) {phase : Phase} {e : FileError}
    (h : j.Holds initial places base true d phase) (he : j.bears d e phase = true) :
    j.Holds initial places base true (Install.step j (some e) d phase).1 (Install.step j (some e) d phase).2 := by
  rw [Install.step]
  cases phase.action? j with
  | none => exact h
  | some a => exact holds_after_error hplaced haccepted h (explained_of_bears h he)

/-- What holds at the beginning. -/
theorem holds_first (hplaced : j.Placed d places base) (fails : Bool) : j.Holds d places base fails d (.first j) := by
  rw [Phase.first, Making.start]
  by_cases hnone : j.dir.isNone = true
  · rw [if_pos hnone]
    refine ⟨⟨Frame.refl, mostLinks, ?_⟩, rfl⟩
    obtain ⟨rfl, rfl⟩ := hplaced.trail.of_idle (Path.isIdle_of_isNone hnone)
    rw [Path.stem, if_pos hnone]
    exact .done mostLinks []
  · rw [if_neg hnone]
    exact ⟨Frame.refl, rfl, List.forall_mem_singleton.mpr ⟨places, base, hplaced.trail, fun _ hs => hs⟩, rfl⟩

end Job

/-! ## Runs -/

namespace Install

/-- A run of a job, operation by operation. Each operation fails in the way that is given for it, if any. -/
def disturbed (j : Job) : List (Option FileError) → Disk → Phase → Disk × Phase
  | [], d, phase => (d, phase)
  | fault :: faults, d, phase => disturbed j faults (step j fault d phase).1 (step j fault d phase).2

/-- Whether a job bears all failures of a run. -/
def bearsAll (j : Job) : List (Option FileError) → Disk → Phase → Bool
  | [], _, _ => true
  | fault :: faults, d, phase =>
    fault.all (j.bears d · phase) && bearsAll j faults (step j fault d phase).1 (step j fault d phase).2

/-- A run without failures is an undisturbed one. -/
theorem run_eq_disturbed (j : Job) (steps : Nat) (d : Disk) (phase : Phase) :
    run j steps d phase = disturbed j (.replicate steps none) d phase := by
  induction steps generalizing d phase with
  | zero => rfl
  | succ steps ih =>
    rw [List.replicate_succ, disturbed, ← ih]
    by_cases hfinished : ∃ result, phase = .finished result
    · obtain ⟨result, rfl⟩ := hfinished
      cases steps <;> rfl
    · rw [run]
      exact fun result heq => hfinished ⟨result, heq⟩

end Install

namespace Job

variable {j : Job} {initial d : Disk} {places : List Spot} {base : Spot} {fails : Bool} {phase : Phase}

/-- What holds at the end of a run that the job bears. -/
theorem holds_disturbed (hplaced : j.Placed initial places base) (haccepted : j.Accepted) {faults : List (Option FileError)}
    (h : j.Holds initial places base true d phase) (hbears : Install.bearsAll j faults d phase = true) :
    j.Holds initial places base true (Install.disturbed j faults d phase).1 (Install.disturbed j faults d phase).2 := by
  induction faults generalizing d phase with
  | nil => exact h
  | cons fault faults ih =>
    rw [Install.bearsAll, Bool.and_eq_true] at hbears
    refine ih ?_ hbears.2
    cases fault with
    | none => exact holds_step hplaced haccepted h
    | some e => exact holds_step_fault hplaced haccepted h hbears.1

/-- What holds at the end of an undisturbed run. -/
theorem holds_run (hplaced : j.Placed initial places base) (haccepted : j.Accepted) (steps : Nat)
    (h : j.Holds initial places base fails d phase) :
    j.Holds initial places base fails (Install.run j steps d phase).1 (Install.run j steps d phase).2 := by
  rw [Install.run_eq_disturbed]
  induction steps generalizing d phase with
  | zero => exact h
  | succ steps ih => exact ih (holds_step hplaced haccepted h)

/-! ## Directories that lead nowhere -/

/-- What a job comes to in a directory whose path goes round in links: it makes directories until that fails. -/
def Lost (j : Job) (initial d : Disk) : Phase → Prop
  | .makingTarget m => m.paths.getLast? = some j.dir ∧ d.stand? [] = some .dir ∧
      ∀ s target, d.stand? s = some (.link target) ↔ initial.stand? s = some (.link target)
  | .finished (.error _) => True
  | _ => False

/-- After an attempt to make a directory the job is still lost: the last of the directories cannot be made. -/
theorem lost_after {m : Making} {result : Except FileError Unit} (hno : ¬∃ places base, Trail initial [] j.dir places base)
    (h : j.Lost initial d (.makingTarget m)) (hmade : result = .ok () → ∃ places goal, Trail d [] m.current places goal) :
    j.Lost initial d (.after j result (.makingTarget m)) := by
  obtain ⟨hlast, htop, hlinks⟩ := h
  rw [Phase.after]
  cases hafter : m.after result with
  | more m' => exact ⟨(Making.after_more hafter).2.trans hlast, htop, hlinks⟩
  | made =>
    obtain ⟨hok, hpaths⟩ := Making.after_made hafter
    obtain ⟨places, goal, htrail⟩ := hmade hok
    rw [hpaths, List.getLast?_singleton, Option.some.injEq] at hlast
    rw [hlast] at htrail
    exact absurd ⟨places, goal, htrail.congr fun s _ target => (hlinks s target).symm⟩ hno
  | failed e => trivial

/-- A job that is lost stays lost. -/
theorem lost_step (hno : ¬∃ places base, Trail initial [] j.dir places base) (h : j.Lost initial d phase)
    (fault : Option FileError) : j.Lost initial (Install.step j fault d phase).1 (Install.step j fault d phase).2 := by
  cases phase with
  | makingTarget m =>
    cases fault with
    | some e => exact lost_after hno h fun hx => by cases hx
    | none =>
      simp only [Install.step, Phase.action?, perform_eq]
      cases hop : d.outcome (.ensureDir m.current) with
      | error e => exact lost_after hno h fun hx => by cases hx
      | ok d' =>
        obtain ⟨hlast, htop, hlinks⟩ := h
        obtain ⟨places, goal, htrail⟩ := exists_trail_of_ensureDir hop
        have hstays : Stays d (fun _ => True) m.current := ⟨places, goal, htrail, fun _ _ => trivial⟩
        rcases ensureDir_eq_ok htop hstays hop with rfl | ⟨parent, name, -, hparent, hnone, rfl⟩
        · exact lost_after hno ⟨hlast, htop, hlinks⟩ fun _ => ⟨places, goal, htrail⟩
        · have hsame := link_iff_of_replace_empty hparent hnone
          have hlinks' := fun s target => (hsame s target).trans (hlinks s target)
          refine lost_after hno ⟨hlast, ?_, hlinks'⟩ fun _ => ⟨places, goal, htrail.congr fun s _ target => hsame s target⟩
          rw [stand?_replace_empty hparent hnone]
          split
          · rfl
          · exact htop
  | finished result =>
    cases result with
    | ok paths => exact absurd h id
    | error e => trivial
  | clearingStaging | makingParent | writing | clearingBackup | looking | settingAside | swapping | restoring | clearingPrevious
  | cleaning => exact absurd h id

/-- A job that is lost at the beginning of a run is lost at its end. -/
theorem lost_disturbed (hno : ¬∃ places base, Trail initial [] j.dir places base) (h : j.Lost initial d phase)
    (faults : List (Option FileError)) :
    j.Lost initial (Install.disturbed j faults d phase).1 (Install.disturbed j faults d phase).2 := by
  induction faults generalizing d phase with
  | nil => exact h
  | cons fault faults ih => exact ih (lost_step hno h fault)

/-- The directory of a job that succeeds leads somewhere. -/
theorem exists_trail_of_finished (htop : d.stand? [] = some .dir) {faults : List (Option FileError)} {paths : List Path}
    (hfinished : (Install.disturbed j faults d (.first j)).2 = .finished (.ok paths)) :
    ∃ places base, Trail d [] j.dir places base := by
  by_contra hno
  have hfirst : j.Lost d d (.first j) := by
    rw [Phase.first, Making.start]
    by_cases hnone : j.dir.isNone = true
    · exact absurd ⟨[], [], trail_of_idle (Path.isIdle_of_isNone hnone) []⟩ hno
    · rw [if_neg hnone]
      exact ⟨rfl, htop, fun _ _ => Iff.rfl⟩
  have hlost := lost_disturbed hno hfirst faults
  rw [hfinished] at hlost
  exact hlost

end Job

end Workflow
