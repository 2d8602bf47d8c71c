import Mathlib
import Workflow.Proofs.Install.Agree
import Workflow.Proofs.Install.Making

/-!
# Jobs on course

A job that succeeds alone, on a disk where others work as well. It is on course (`Job.OnCourse`) as long as it does what it does
alone: while its directory is made, that is in promise; afterwards the disk is to the job what it would be if it were alone. Its own
steps keep it on course and bring it nearer to its end (`OnCourse.step`). What others do keeps it on course if it is no more than to
make missing directories (`OnCourse.extended`) or to change other entries (`OnCourse.edited_other`).
-/

namespace Workflow

open Disk

/-! ## Runs -/

namespace Install

variable {j : Job} {d ending : Disk} {phase : Phase} {result : Except InstallError (List Path)} {steps : Nat}

/-- A finished run stays as it is. -/
theorem run_of_le {more : Nat} (h : run j steps d phase = (ending, .finished result)) (hmore : steps ≤ more) :
    run j more d phase = (ending, .finished result) := by
  induction steps generalizing d phase more with
  | zero =>
    obtain ⟨rfl, rfl⟩ := Prod.mk.inj h
    exact run_finished j more _ _
  | succ steps ih =>
    obtain ⟨more, rfl⟩ := Nat.exists_eq_add_of_le' hmore
    rw [run_succ] at h
    rw [← Nat.add_assoc, run_succ]
    exact ih h (by omega)

/-- A run that is finished after some steps is finished one step earlier, seen from one step later. -/
theorem run_step (h : run j steps d phase = (ending, .finished result)) :
    run j (steps - 1) (step j none d phase).1 (step j none d phase).2 = (ending, .finished result) := by
  have hnext : run j (steps + 1) d phase = (ending, .finished result) := run_of_le h (Nat.le_succ steps)
  cases steps with
  | zero =>
    obtain ⟨rfl, rfl⟩ := Prod.mk.inj h
    rfl
  | succ steps =>
    rw [run_succ] at h
    exact h

/-- A job that succeeds: after some operations it is finished, with the paths of its files. -/
def Returns (j : Job) (d ending : Disk) (paths : List Path) : Prop :=
  ∃ steps, run j steps d (.first j) = (ending, .finished (.ok paths))

end Install

/-- A job does not go back to making its directory. -/
theorem Phase.after_ne_makingTarget (j : Job) (outcome : Except FileError Unit) {phase : Phase}
    (h : ∀ m, phase ≠ .makingTarget m) : ∀ m, phase.after j outcome ≠ .makingTarget m := by
  have hstage : ∀ artifacts m, Phase.stage j artifacts ≠ .makingTarget m := by
    intro artifacts m
    cases artifacts with
    | nil =>
      intro hx
      cases hx
    | cons a rest =>
      rw [Phase.stage]
      split <;> exact fun hx => by cases hx
  have hfinish : ∀ earlier late m, Phase.finish j earlier late ≠ .makingTarget m := by
    intro earlier late m
    rw [Phase.finish]
    split <;> exact fun hx => by cases hx
  intro m
  cases phase with
  | makingTarget m => exact absurd rfl (h m)
  | restoring | finished =>
    intro hx
    cases hx
  | _ =>
    rw [Phase.after.eq_def]
    simp only
    split <;> first | exact hstage _ m | exact hfinish _ _ m | exact fun hx => by cases hx

/-- A job that does not make its directory any more does not after a step. -/
theorem Install.step_ne_makingTarget {j : Job} {d : Disk} {phase : Phase} (h : ∀ m, phase ≠ .makingTarget m) :
    ∀ m, (step j none d phase).2 ≠ .makingTarget m := by
  rw [step]
  cases phase.action? j with
  | none => exact h
  | some a => exact Phase.after_ne_makingTarget j _ h

namespace Job

variable {j other : Job} {initial d d' ending : Disk} {places : List Spot} {base : Spot} {paths : List Path} {phase : Phase}
  {steps : Nat}

/-! ## On course -/

/-- A job is on course: it needs at most so many steps more to the end that it comes to alone. -/
inductive OnCourse (j : Job) (initial : Disk) (places : List Spot) (base : Spot) (ending : Disk) (paths : List Path) :
    Nat → Disk → Phase → Prop
  | making {steps tries rest : Nat} {d made : Disk} {m : Making} (hpromising : m.Promising places tries d)
      (hlast : m.paths.getLast? = some j.dir) (hgrows : Grows places initial d)
      (hentries : ∀ name ∈ j.ownNames, d.find? (base ++ [name]) = initial.find? (base ++ [name]))
      (hextends : Extends places initial made) (hleads : ∃ left, Disk.Leads made mostLinks [] j.dir places left base)
      (hrun : Install.run j rest made .clearingStaging = (ending, .finished (.ok paths))) (hsteps : tries + rest ≤ steps) :
      OnCourse j initial places base ending paths steps d (.makingTarget m)
  | working {steps : Nat} {d alone : Disk} {phase : Phase} (hholds : j.Holds initial places base false alone phase)
      (hground : j.Grounded initial places base alone) (hpast : ∀ m, phase ≠ .makingTarget m) (hagree : j.Agree places base alone d)
      (hrun : Install.run j steps alone phase = (ending, .finished (.ok paths))) :
      OnCourse j initial places base ending paths steps d phase

/-- When the path of a directory leads to it, so does its stem. -/
theorem ready_of_leads {left : Nat} (h : Disk.Leads d mostLinks [] j.dir places left base) : j.Ready places base d := by
  obtain ⟨idle, hdir, hidle⟩ := Path.exists_stem_append j.dir
  rw [hdir] at h
  exact ⟨left, h.cut hidle⟩

/-- Nothing has changed elsewhere when only directories of the way have appeared. -/
theorem Frame.of_extends (h : Extends places initial d) : j.Frame initial places base d :=
  fun s _ => h.stand s

/-- Two disks on which the way has been made from the same one are the same on the way. -/
theorem eq_of_grows {made : Disk} (hgrows : Grows places initial d) (hextends : Extends places initial made) {s : Spot}
    (hs : s ∈ places) (hthere : d.stand? s ≠ none) (hthere' : made.stand? s ≠ none) : d.stand? s = made.stand? s := by
  rcases hextends.stand s with hsame | ⟨-, hnone, hdir⟩
  · rw [hsame] at hthere' ⊢
    exact hgrows.eq_of_ne_none hs hthere'
  · rcases hgrows s hs with hsame | ⟨-, hdir'⟩
    · exact absurd (hsame.trans hnone) hthere
    · rw [hdir, hdir']

namespace OnCourse

/-- When the directory has been made, beside others, the disk is to the job what it would be if it were alone. -/
theorem of_made {rest left left' : Nat} {made : Disk} (hplaced : j.Placed initial places base) (htop : d.stand? [] = some .dir)
    (hgrows : Grows places initial d) (hleads : Disk.Leads d mostLinks [] j.dir places left base)
    (hentries : ∀ name ∈ j.ownNames, d.find? (base ++ [name]) = initial.find? (base ++ [name]))
    (hextends : Extends places initial made) (hleads' : Disk.Leads made mostLinks [] j.dir places left' base)
    (hrun : Install.run j rest made .clearingStaging = (ending, .finished (.ok paths))) :
    j.OnCourse initial places base ending paths rest d .clearingStaging := by
  have hentries' : ∀ name ∈ j.ownNames, made.find? (base ++ [name]) = initial.find? (base ++ [name]) := fun name hname =>
    hextends.find _ fun p hp => hplaced.not_prefix_way (own_of_mem hname) (Or.inr hp)
  have hground : j.Grounded initial places base made := ⟨.of_extends hextends, ready_of_leads hleads'⟩
  refine .working ⟨hground, hentries' j.root List.mem_cons_self⟩ hground (fun m hx => by cases hx) ⟨fun s hs => ?_, ?_⟩ hrun
  · rcases hs with rfl | hs
    · rw [htop, hextends.top hplaced.top]
    · exact eq_of_grows hgrows hextends hs (hleads.stand?_ne_none s hs) (hleads'.stand?_ne_none s hs)
  · exact fun name hname => (hentries name hname).trans (hentries' name hname).symm

/-- A step of the job keeps it on course. It makes no more than missing directories of the way, or changes its own entries. -/
theorem step (h : j.OnCourse initial places base ending paths steps d phase) (hplaced : j.Placed initial places base)
    (haccepted : j.Accepted) :
    j.OnCourse initial places base ending paths (steps - 1) (Install.step j none d phase).1 (Install.step j none d phase).2 ∧
      (Extends places d (Install.step j none d phase).1 ∨
        ∃ edits, (∀ edit ∈ edits, j.Own base edit.1) ∧ (Install.step j none d phase).1 = d.edited edits) := by
  cases h with
  | making hpromising hlast hgrows hentries hextends hleads hrun hsteps =>
    have hpos := hpromising.pos
    simp only [Install.step, Phase.action?, perform_eq, outcome]
    rcases hpromising.step with ⟨made, hmade, hmore, hafter⟩ | ⟨hmissing, m', hafter, hpromising'⟩
    · rw [hmade]
      have hgrows' := hgrows.extend hmore
      have hentries' : ∀ name ∈ j.ownNames, made.find? (base ++ [name]) = initial.find? (base ++ [name]) := fun name hname =>
        (hmore.find _ fun p hp => hplaced.not_prefix_way (own_of_mem hname) (Or.inr hp)).trans (hentries name hname)
      refine ⟨?_, Or.inl hmore⟩
      rcases hafter with ⟨hpaths, hafter⟩ | ⟨m', hafter, hpromising'⟩
      · obtain ⟨left, hleads⟩ := hleads
        rw [hpaths, List.getLast?_singleton, Option.some.injEq] at hlast
        rw [hlast] at hmade
        obtain ⟨left', hleads'⟩ := (hgrows.trail hplaced.trail).leads_of_ensureDir hpromising.top hmade
        simp only [Phase.after, hafter]
        exact of_made hplaced (hmore.top hpromising.top) hgrows' hleads' hentries' hextends hleads
          (Install.run_of_le hrun (by omega))
      · simp only [Phase.after, hafter]
        exact .making hpromising' ((Making.after_more hafter).2.trans hlast) hgrows' hentries' hextends hleads hrun (by omega)
    · rw [hmissing]
      simp only [Phase.after, hafter]
      refine ⟨?_, Or.inl (.refl places d)⟩
      exact .making hpromising' ((Making.after_more hafter).2.trans hlast) hgrows hentries hextends hleads hrun (by omega)
  | working hholds hground hpast hagree hrun =>
    obtain ⟨edits, next, hedits, hstep, hstep'⟩ := hagree.step hplaced haccepted hholds hpast
    have hholds' := holds_step hplaced haccepted hholds
    have hrun' := Install.run_step hrun
    rw [hstep] at hholds' hrun'
    rw [hstep']
    refine ⟨.working hholds' ?_ ?_ (hagree.edited hplaced (hground.stand?_base hplaced) hedits) hrun', Or.inr ⟨edits, hedits, rfl⟩⟩
    · exact edited_induction hground fun d hground edit hedit => hground.replace hplaced (hedits edit hedit) edit.2
    · have hnext := Install.step_ne_makingTarget (j := j) (d := d) hpast
      rwa [hstep'] at hnext

/-- Directories of the way may appear. -/
theorem extended (h : j.OnCourse initial places base ending paths steps d phase) (hplaced : j.Placed initial places base)
    (hmore : Extends places d d') : j.OnCourse initial places base ending paths steps d' phase := by
  cases h with
  | making hpromising hlast hgrows hentries hextends hleads hrun hsteps =>
    refine .making (hpromising.of_grows (hmore.top hpromising.top) (hmore.grows places)) hlast (hgrows.extend hmore) ?_ hextends hleads
      hrun hsteps
    exact fun name hname =>
      (hmore.find _ fun p hp => hplaced.not_prefix_way (own_of_mem hname) (Or.inr hp)).trans (hentries name hname)
  | working hholds hground hpast hagree hrun =>
    exact .working hholds hground hpast (hagree.extended hplaced hground.ready hmore) hrun

/-- Entries of a job for another package may change. -/
theorem edited_other (h : j.OnCourse initial places base ending paths steps d phase) (hother : other.Placed initial places base)
    (hapart : ∀ name ∈ j.ownNames, name ∉ other.ownNames) {edits : List (Spot × Option Entry)}
    (hedits : ∀ edit ∈ edits, other.Own base edit.1) :
    j.OnCourse initial places base ending paths steps (d.edited edits) phase := by
  cases h with
  | making hpromising hlast hgrows hentries hextends hleads hrun hsteps =>
    have hagree := (Agree.refl j places base d).edited_other hother hapart hedits
    have hsame : Grows places d (d.edited edits) := fun s hs => Or.inl (hagree.way s (Or.inr hs))
    refine .making (hpromising.of_grows ((hagree.way [] (Or.inl rfl)).trans hpromising.top) hsame) hlast (fun s hs => ?_)
      (fun name hname => (hagree.entries name hname).trans (hentries name hname)) hextends hleads hrun hsteps
    rw [hagree.way s (Or.inr hs)]
    exact hgrows s hs
  | working hholds hground hpast hagree hrun =>
    exact .working hholds hground hpast (hagree.edited_other hother hapart hedits) hrun

/-- A job that succeeds alone is on course at the beginning. -/
theorem first (hplaced : j.Placed d places base) (hrun : Install.run j steps d (.first j) = (ending, .finished (.ok paths))) :
    ∃ enough, j.OnCourse d places base ending paths enough d (.first j) := by
  have hholds := holds_first hplaced false
  rw [Phase.first, Making.start] at hrun hholds ⊢
  by_cases hnone : j.dir.isNone = true
  · rw [if_pos hnone] at hrun hholds ⊢
    exact ⟨steps, .working hholds hholds.1 (fun m hx => by cases hx) (.refl j places base d) hrun⟩
  · rw [if_neg hnone] at hrun ⊢
    obtain ⟨tries, made, rest, -, hmakes, hrun⟩ := Install.run_making hrun
    obtain ⟨hextends, hleads⟩ := hmakes.extends_and_leads hplaced.top hplaced.trail
    have hpromising : Making.Promising places (2 * tries + 1) d ⟨j.dir, false, []⟩ := by
      refine ⟨hplaced.top, List.forall_mem_singleton.mpr ⟨places, base, hplaced.trail, fun _ hs => hs⟩, List.isChain_singleton _,
        List.forall_mem_singleton.mpr ⟨tries, made, hmakes⟩, ?_⟩
      exact (if_neg Bool.false_ne_true).mpr ⟨tries, made, hmakes, Nat.lt_succ_self _⟩
    exact ⟨_, .making hpromising rfl (.refl places d) (fun _ _ => rfl) hextends hleads hrun (Nat.le_refl _)⟩

/-- A job on course that is finished has succeeded, and the disk is to it what it would be if it were alone. -/
theorem of_finished {result : Except InstallError (List Path)}
    (h : j.OnCourse initial places base ending paths steps d (.finished result)) :
    result = .ok paths ∧ j.Agree places base ending d := by
  cases h with
  | working hholds hground hpast hagree hrun =>
    rw [Install.run_finished, Prod.mk.injEq, Phase.finished.injEq] at hrun
    exact ⟨hrun.2, hrun.1 ▸ hagree⟩

/-- A job on course that has no steps left is finished. -/
theorem finished_of_zero (h : j.OnCourse initial places base ending paths 0 d phase) : phase = .finished (.ok paths) := by
  cases h with
  | making hpromising hlast hgrows hentries hextends hleads hrun hsteps =>
    have hpos := hpromising.pos
    omega
  | working hholds hground hpast hagree hrun => exact congrArg Prod.snd hrun

end OnCourse

end Job

end Workflow
