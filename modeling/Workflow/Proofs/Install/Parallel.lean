import Mathlib
import Workflow.Proofs.Install.Course
import Workflow.Proofs.Install.Safety
import Workflow.Proofs.Package.Names

/-!
# Two packages at a time

Two jobs at work on one disk, their operations in any order (`Install.Pair`). If they install packages of different names in one
directory, and each succeeds alone, both succeed, and what stands on the disk in the end is what stands there when one is done after
the other, whichever is first (`Install.Pair.run_undisturbed`). That is so in a directory whose path does not lead through an entry
that one of them works at; beside it stands what happens to two packages in a directory that is the staging directory of one.
-/

namespace Workflow

open Disk

/-! ## Names of different packages -/

/-- An identifier holds no point. -/
theorem point_not_mem_of_isIdentifier {s : String} (h : isIdentifier s = true) : '.' ∉ s.toList := fun hmem =>
  absurd ((isIdentifier_iff.mp h).1.2 '.' hmem) (by decide)

namespace Job

variable {j other : Job}

/-- A hidden name is no identifier. -/
theorem hidden_ne_of_isIdentifier {s : String} (h : isIdentifier s = true) (root suffix : String) :
    "." ++ root ++ "." ++ suffix ≠ s := by
  rintro rfl
  refine point_not_mem_of_isIdentifier h ?_
  simp only [String.toList_append, List.mem_append]
  exact Or.inl (Or.inl (Or.inl (by decide)))

/-- A staging name and a backup name end differently. -/
theorem stagingName_ne_backupName_of : j.stagingName ≠ other.backupName := by
  intro heq
  have hlast := congrArg (·.toList.getLast?) heq
  have hstaging : "staging".toList.getLast? = some 'g' := by decide
  have hprevious : "previous".toList.getLast? = some 's' := by decide
  simp only [stagingName, backupName, String.toList_append, List.getLast?_append, hstaging, hprevious, Option.some_or] at hlast
  exact absurd hlast (by decide)

/-- Jobs for packages with different identifiers work at different entries. -/
theorem apart_ownNames (hj : isIdentifier j.root = true) (hother : isIdentifier other.root = true) (hne : j.root ≠ other.root) :
    ∀ name ∈ j.ownNames, name ∉ other.ownNames := by
  have hroot : ∀ suffix, "." ++ j.root ++ "." ++ suffix ≠ "." ++ other.root ++ "." ++ suffix := by
    intro suffix heq
    simp only [String.append_left_inj, String.append_right_inj] at heq
    exact hne heq
  have hhidden := hidden_ne_of_isIdentifier hj other.root
  have hhidden' := hidden_ne_of_isIdentifier hother j.root
  simp only [ownNames, List.mem_cons, List.not_mem_nil, or_false, not_or]
  rintro name (rfl | rfl | rfl)
  · exact ⟨hne, (hhidden _).symm, (hhidden _).symm⟩
  · exact ⟨hhidden' _, hroot _, stagingName_ne_backupName_of⟩
  · exact ⟨hhidden' _, stagingName_ne_backupName_of.symm, hroot _⟩

end Job

namespace Install

/-! ## Runs of two jobs -/

/-- Two jobs at work on one disk. -/
structure Pair where
  disk : Disk
  phase : Bool → Phase

namespace Pair

/-- Two jobs that begin. -/
def first (jobs : Bool → Job) (d : Disk) : Pair := ⟨d, fun k => .first (jobs k)⟩

/-- One operation of one of two jobs. -/
def step (jobs : Bool → Job) (p : Pair) (k : Bool) : Pair :=
  let (d, phase) := Install.step (jobs k) none p.disk (p.phase k)
  ⟨d, Function.update p.phase k phase⟩

/-- Operations of two jobs, in the order in which the jobs take their turns. -/
def run (jobs : Bool → Job) (p : Pair) (turns : List Bool) : Pair := turns.foldl (step jobs) p

/-- Both jobs are finished. -/
def Finished (p : Pair) : Prop := ∀ k, ∃ result, p.phase k = .finished result

variable {jobs : Bool → Job} {d initial : Disk} {places : List Spot} {base : Spot} {ending : Bool → Disk} {paths : Bool → List Path}
  {p p' : Pair} {left : Bool → Nat}

/-- A turn changes the disk as a step of the job does. -/
theorem step_disk (k : Bool) : (p.step jobs k).disk = (Install.step (jobs k) none p.disk (p.phase k)).1 := rfl

/-- A turn of a job leads to its next phase. -/
theorem step_phase_self (k : Bool) : (p.step jobs k).phase k = (Install.step (jobs k) none p.disk (p.phase k)).2 :=
  Function.update_self k _ p.phase

/-- A turn of one job leaves the phase of the other one. -/
theorem step_phase_other (k : Bool) : (p.step jobs k).phase (!k) = p.phase (!k) :=
  Function.update_of_ne (Bool.not_ne_self k) _ p.phase

/-- While one job has all the turns, it runs alone. -/
theorem run_replicate (jobs : Bool → Job) (p : Pair) (k : Bool) (n : Nat) :
    run jobs p (.replicate n k) = ⟨(Install.run (jobs k) n p.disk (p.phase k)).1,
      Function.update p.phase k (Install.run (jobs k) n p.disk (p.phase k)).2⟩ := by
  induction n generalizing p with
  | zero =>
    obtain ⟨d, phase⟩ := p
    exact congrArg (Pair.mk d) (Function.update_eq_self k phase).symm
  | succ n ih =>
    rw [List.replicate_succ, run, List.foldl_cons, ← run, ih, run_succ]
    simp only [step, Function.update_self, Function.update_idem]

/-- When one job has come to its end, the other one begins on what is there then. -/
theorem run_series {k : Bool} {steps : Nat} {ending : Disk} {paths : List Path}
    (h : Install.run (jobs k) steps d (.first (jobs k)) = (ending, .finished (.ok paths))) (n : Nat) :
    let p := run jobs (first jobs d) (.replicate steps k ++ .replicate n !k)
    p.phase k = .finished (.ok paths) ∧ (p.disk, p.phase !k) = Install.run (jobs !k) n ending (.first (jobs !k)) := by
  have hne : (!k) ≠ k := Bool.not_ne_self k
  intro p
  have hp : p = run jobs (run jobs (first jobs d) (.replicate steps k)) (.replicate n !k) := List.foldl_append
  rw [hp, run_replicate, run_replicate]
  simp only [first, h, Function.update_self, Function.update_of_ne hne, Function.update_of_ne hne.symm, and_self]

/-! ## On course -/

/-- Both jobs are on course, with so many steps left, and nothing has changed but their entries and missing directories. -/
structure OnCourse (jobs : Bool → Job) (initial : Disk) (places : List Spot) (base : Spot) (ending : Bool → Disk)
    (paths : Bool → List Path) (left : Bool → Nat) (p : Pair) : Prop where
  each (k : Bool) : (jobs k).OnCourse initial places base (ending k) (paths k) (left k) p.disk (p.phase k)
  elsewhere (s : Spot) : (∀ k, ¬(jobs k).Own base s) → s ∉ places → p.disk.stand? s = initial.stand? s

/-- A step of one job keeps both on course. -/
theorem OnCourse.step (h : OnCourse jobs initial places base ending paths left p) (hplaced : ∀ k, (jobs k).Placed initial places base)
    (haccepted : ∀ k, (jobs k).Accepted) (hapart : ∀ k, ∀ name ∈ (jobs k).ownNames, name ∉ (jobs (!k)).ownNames) (k : Bool) :
    OnCourse jobs initial places base ending paths (Function.update left k (left k - 1)) (p.step jobs k) := by
  obtain ⟨hown, hchange⟩ := (h.each k).step (hplaced k) (haccepted k)
  constructor
  case each =>
    intro k'
    rcases Bool.eq_or_eq_not k' k with rfl | rfl
    · rwa [Function.update_self, step_disk, step_phase_self]
    · have hturn := h.each (!k)
      rw [Function.update_of_ne (Bool.not_ne_self k), step_disk, step_phase_other]
      rcases hchange with hextends | ⟨edits, hedits, hedited⟩
      · exact hturn.extended (hplaced _) hextends
      · rw [hedited]
        refine hturn.edited_other (hplaced k) ?_ hedits
        simpa only [Bool.not_not] using hapart (!k)
  case elsewhere =>
    intro s hs hplace
    rw [← h.elsewhere s hs hplace]
    rcases hchange with hextends | ⟨edits, hedits, hedited⟩
    · exact (hextends.stand s).resolve_right fun hx => hplace hx.1
    · rw [step_disk, hedited]
      refine stand?_edited fun edit hedit hprefix => hs k ?_
      exact (hedits edit hedit).imp (·.trans hprefix) (Or.imp (·.trans hprefix) (·.trans hprefix))

/-- Turns of both jobs keep both on course. Every turn counts. -/
theorem OnCourse.run (h : OnCourse jobs initial places base ending paths left p) (hplaced : ∀ k, (jobs k).Placed initial places base)
    (haccepted : ∀ k, (jobs k).Accepted) (hapart : ∀ k, ∀ name ∈ (jobs k).ownNames, name ∉ (jobs (!k)).ownNames)
    (turns : List Bool) :
    OnCourse jobs initial places base ending paths (fun k => left k - turns.count k) (p.run jobs turns) := by
  induction turns generalizing p left with
  | nil => exact h
  | cons k turns ih =>
    have hrest := ih (h.step hplaced haccepted hapart k)
    have hleft : (fun k' => Function.update left k (left k - 1) k' - turns.count k') = fun k' => left k' - (k :: turns).count k' := by
      funext k'
      rcases Bool.eq_or_eq_not k' k with rfl | rfl
      · rw [Function.update_self, List.count_cons_self]
        omega
      · rw [Function.update_of_ne (Bool.not_ne_self k), List.count_cons_of_ne (Bool.not_ne_self k).symm]
    rwa [hleft] at hrest

/-- Jobs that succeed alone are on course at the beginning. -/
theorem OnCourse.first (hplaced : ∀ k, (jobs k).Placed d places base) (halone : ∀ k, Returns (jobs k) d (ending k) (paths k)) :
    ∃ left, OnCourse jobs d places base ending paths left (first jobs d) := by
  have hfirst : ∀ k, ∃ enough, (jobs k).OnCourse d places base (ending k) (paths k) enough d (.first (jobs k)) := by
    intro k
    obtain ⟨steps, hrun⟩ := halone k
    exact Job.OnCourse.first (hplaced k) hrun
  choose left hleft using hfirst
  exact ⟨left, hleft, fun _ _ _ => rfl⟩

/-- Two jobs on course that are finished have both succeeded, and only one disk can be the result. -/
theorem OnCourse.stand?_eq {left' : Bool → Nat} (h : OnCourse jobs initial places base ending paths left p)
    (h' : OnCourse jobs initial places base ending paths left' p') (hp : p.Finished) (hp' : p'.Finished) (s : Spot) :
    p.disk.stand? s = p'.disk.stand? s := by
  have hagree : ∀ {left p}, OnCourse jobs initial places base ending paths left p → p.Finished →
      ∀ k, (jobs k).Agree places base (ending k) p.disk := by
    intro left p h hp k
    obtain ⟨result, hresult⟩ := hp k
    have hk := h.each k
    rw [hresult] at hk
    exact hk.of_finished.2
  by_cases hown : ∃ k, (jobs k).Own base s
  · obtain ⟨k, hown⟩ := hown
    rw [(hagree h hp k).stand? hown, (hagree h' hp' k).stand? hown]
  · have hnot : ∀ k, ¬(jobs k).Own base s := fun k hx => hown ⟨k, hx⟩
    by_cases hplace : s ∈ places
    · rw [(hagree h hp true).way s (Or.inr hplace), (hagree h' hp' true).way s (Or.inr hplace)]
    · rw [h.elsewhere s hnot hplace, h'.elsewhere s hnot hplace]

/-! ## Packages with different names -/

/-- Two jobs for packages with different names in one directory, each of which succeeds alone, come to an end whatever the order of
their operations is, if both have enough turns; both succeed, and what stands on the disk then is what stands there when one of them
has been done after the other, whichever was first. -/
theorem run_undisturbed {d : Disk} {dir : Path} {roots : Bool → String} {artifacts : Bool → List Artifact} {places : List Spot}
    {base : Spot} {alone : Bool → Disk} {paths : Bool → List Path}
    (haccepted : ∀ k, packageRoot none (artifacts k) = .ok (roots k)) (hroots : ∀ k, isIdentifier (roots k) = true)
    (hne : roots true ≠ roots false) (hplaced : ∀ k, (Job.mk dir (roots k) (artifacts k)).Placed d places base)
    (halone : ∀ k, Returns ⟨dir, roots k, artifacts k⟩ d (alone k) (paths k)) :
    let jobs (k : Bool) : Job := ⟨dir, roots k, artifacts k⟩
    (∀ turns k result, (run jobs (first jobs d) turns).phase k = .finished result → result = .ok (paths k)) ∧
      (∃ enough, ∀ turns : List Bool, (∀ k, enough ≤ turns.count k) → (run jobs (first jobs d) turns).Finished) ∧
      ∀ turns, (run jobs (first jobs d) turns).Finished → ∀ k, ∃ last, Returns (jobs (!k)) (alone k) last (paths !k) ∧
        ∀ s, (run jobs (first jobs d) turns).disk.stand? s = last.stand? s := by
  intro jobs
  have hapart : ∀ k, ∀ name ∈ (jobs k).ownNames, name ∉ (jobs (!k)).ownNames := by
    intro k
    cases k with
    | true => exact Job.apart_ownNames (hroots true) (hroots false) hne
    | false => exact Job.apart_ownNames (hroots false) (hroots true) hne.symm
  obtain ⟨left, hfirst⟩ := OnCourse.first hplaced halone
  have hrun := fun turns => hfirst.run hplaced haccepted hapart turns
  have hfinished : ∀ turns : List Bool, (∀ k, left k ≤ turns.count k) →
      ∀ k, (run jobs (first jobs d) turns).phase k = .finished (.ok (paths k)) := by
    intro turns hturns k
    have hk := (hrun turns).each k
    simp only [Nat.sub_eq_zero_of_le (hturns k)] at hk
    exact hk.finished_of_zero
  refine ⟨fun turns k result hresult => ?_, ⟨left true + left false, fun turns hturns k => ?_⟩, fun turns hturns k => ?_⟩
  · have hk := (hrun turns).each k
    rw [hresult] at hk
    exact hk.of_finished.1
  · refine ⟨_, hfinished turns (fun k => ?_) k⟩
    have hk := hturns k
    cases k <;> omega
  · -- One job after the other is one of the orders.
    obtain ⟨steps, hsteps⟩ := halone k
    have hfirst' : Install.run (jobs k) (steps + left k) d (.first (jobs k)) = (alone k, .finished (.ok (paths k))) :=
      run_of_le hsteps (Nat.le_add_right steps (left k))
    obtain ⟨-, hlast⟩ := run_series hfirst' (left !k)
    generalize hseries : List.replicate (steps + left k) k ++ List.replicate (left !k) (!k) = series at hlast
    have hcount : ∀ k', left k' ≤ series.count k' := by
      intro k'
      rw [← hseries, List.count_append, List.count_replicate, List.count_replicate]
      cases k <;> cases k' <;> simp
    have hend := hfinished series hcount
    refine ⟨(run jobs (first jobs d) series).disk, ⟨left !k, ?_⟩, fun s => ?_⟩
    · rw [← hlast, hend]
    · exact (hrun turns).stand?_eq (hrun series) hturns (fun k => ⟨_, hend k⟩) s

/-- Two packages whose directory is missing, installed in turns: the disk is the one after the second package has followed the
first. -/
theorem run_undisturbed_inTurns :
    let jobs (k : Bool) : Job := ⟨["out", "gen"], if k then "one" else "two", if k then [⟨"one/x.py", "1"⟩] else [⟨"two/y.py", "2"⟩]⟩
    let p := run jobs (first jobs .empty) (.flatten (.replicate 20 [true, false]))
    p.phase true = .finished (.ok [["out", "gen", "one", "x.py"]]) ∧ p.phase false = .finished (.ok [["out", "gen", "two", "y.py"]]) ∧
      ∃ last, Returns (jobs false) (Install.run (jobs true) 20 .empty (.first (jobs true))).1 last [["out", "gen", "two", "y.py"]] ∧
        ∀ s, p.disk.stand? s = last.stand? s := by
  intro jobs p
  have hresult : ∀ k, (p.phase k).result? = some (.ok (jobs k).written) := by decide +kernel
  have hfinished : p.Finished := fun k => ⟨_, Phase.eq_finished (hresult k)⟩
  have hplaced : ∀ k, (jobs k).Placed .empty [["out"], ["out", "gen"]] ["out", "gen"] := by
    have hout : Entry.empty.stand? ["out"] = none := rfl
    have hgen : Entry.empty.stand? ["out", "gen"] = none := rfl
    have htrail : Trail .empty [] ["out", "gen"] [["out"], ["out", "gen"]] ["out", "gen"] :=
      .down ⟨rfl, by decide⟩ (fun target hx => by cases hout.symm.trans hx)
        (.down ⟨rfl, by decide⟩ (fun target hx => by cases hgen.symm.trans hx) (.done _))
    intro k
    cases k <;> exact ⟨rfl, htrail, by decide, by decide, by decide⟩
  have halone : ∀ k, Returns (jobs k) .empty (Install.run (jobs k) 20 .empty (.first (jobs k))).1 (jobs k).written := by
    have hend : ∀ k, (Install.run (jobs k) 20 .empty (.first (jobs k))).2.result? = some (.ok (jobs k).written) := by decide +kernel
    exact fun k => ⟨20, Prod.ext rfl (Phase.eq_finished (hend k))⟩
  have hall := run_undisturbed (by decide +kernel) (by decide +kernel) (by decide) hplaced halone
  exact ⟨Phase.eq_finished (hresult true), Phase.eq_finished (hresult false), hall.2.2 _ hfinished true⟩

/-- In a directory that is a link at the place of a staging directory, each of two packages can be installed alone. But the place
of one depends on which is first, and if the link is removed in between, the other one fails. -/
theorem run_disturbed_through_staging :
    let d : Disk := .dir [(".a.staging", .link ".")]
    let jobs (k : Bool) : Job := ⟨[".a.staging"], if k then "a" else "b", if k then [⟨"a/x.py", "a"⟩] else [⟨"b/x.py", "b"⟩]⟩
    let inSeries (k : Bool) := run jobs (first jobs d) (.replicate 14 k ++ .replicate 14 !k)
    (∀ k, packageRoot none (jobs k).artifacts = .ok (jobs k).root ∧ isIdentifier (jobs k).root = true) ∧
      (∀ k, ∃ alone, Returns (jobs k) d alone (jobs k).written) ∧
      (∀ k k', ((inSeries k).phase k').result? = some (.ok (jobs k').written)) ∧
      (inSeries true).disk.stand? ["b"] = none ∧ (inSeries false).disk.stand? ["b"] = some .dir ∧
      ((run jobs (first jobs d) (.replicate 6 false ++ .replicate 2 true ++ .replicate 6 false)).phase false).result? =
        some (.error (.io [".a.staging", "b"] .noEntry)) := by
  intro d jobs inSeries
  have hend : ∀ k, (Install.run (jobs k) 14 d (.first (jobs k))).2.result? = some (.ok (jobs k).written) := by decide +kernel
  refine ⟨by decide +kernel, fun k => ⟨_, 14, Prod.ext rfl (Phase.eq_finished (hend k))⟩, ?_, ?_, ?_, ?_⟩ <;> decide +kernel

end Pair

end Install

end Workflow
