import Mathlib
import Workflow.Proofs.Install.Parallel
import Workflow.Proofs.Install.SharedSteps

/-!
# One package from two jobs

Two jobs that install files under one name in one directory. Whatever the order of their operations is, all that stands in the place
of the package comes from the former occupant or from the files of one of the jobs; and as long as they go to work one at a time,
what stands there is a whole: the former occupant, nothing, or the package of one job (`Install.Pair.run_samePackage`). When both are
at work, the hidden entries that they share let files of one get into the package of the other
(`Install.Pair.run_mixed_packages`).
-/

namespace Workflow

open Disk

/-! ## At work -/

namespace Phase

/-- The staging directory has been cleared and the job is not finished. -/
def isAtWork : Phase → Bool
  | makingTarget _ | clearingStaging | finished _ => false
  | _ => true

/-- The job makes its directory or is finished: it has nothing to do with the entries of its package. -/
def isOutside : Phase → Bool
  | makingTarget _ | finished _ => true
  | _ => false

end Phase

namespace Job

variable {j : Job} {initial d : Disk} {places : List Spot} {base : Spot} {m : Making} {phase : Phase}

/-- A job that is at work has its directory. -/
theorem ready_of_isAtWork (hshares : j.Shares initial places base d phase) (hwork : phase.isAtWork = true) :
    j.Ready places base d := by
  cases phase with
  | makingTarget | clearingStaging | finished => cases hwork
  | makingParent | writing | clearingBackup | looking | settingAside | swapping | restoring => exact hshares.1
  | clearingPrevious | cleaning => exact hshares

/-- While its directory is there, a job that makes it changes nothing, and is not at work afterwards. -/
theorem step_makingTarget_of_ready (htop : d.stand? [] = some .dir) (hstays : ∀ p ∈ m.paths, Stays d (· ∈ places) p)
    (hready : j.Ready places base d) :
    (Install.step j none d (.makingTarget m)).1 = d ∧ (Install.step j none d (.makingTarget m)).2.isAtWork = false := by
  have hafter : ∀ outcome, (Phase.after j outcome (.makingTarget m)).isAtWork = false := by
    intro outcome
    rw [Phase.after]
    split <;> rfl
  simp only [Install.step, Phase.action?, perform_eq]
  cases hop : d.outcome (.ensureDir m.current) with
  | error e => exact ⟨rfl, hafter _⟩
  | ok d' =>
    rcases ensureDir_eq_ok htop (hstays m.current List.mem_cons_self) hop with rfl | ⟨parent, name, hplace, -, hnone, -⟩
    · exact ⟨rfl, hafter _⟩
    · obtain ⟨left, hleads⟩ := hready
      exact absurd hnone (hleads.stand?_ne_none _ hplace)

end Job

namespace Install.Pair

variable {jobs : Bool → Job} {j : Job} {artifacts : Bool → List Artifact} {initial start : Disk} {places : List Spot} {base : Spot}
  {p : Pair} {k : Bool}

/-! ## Where things come from -/

/-- What is so of two jobs for one package, whatever they are doing. -/
structure Traced (j : Job) (initial : Disk) (places : List Spot) (base : Spot) (p : Pair) : Prop where
  shared : j.Shared initial places base p.disk
  each (k : Bool) : j.Shares initial places base p.disk (p.phase k)

/-- At first everything is the former occupant's. -/
theorem Traced.first (hplaced : j.Placed initial places base) :
    Traced j initial places base (.first (fun k => j.carrying (artifacts k)) initial) := by
  refine ⟨⟨.refl, fun e hfind inside stand hhas => Or.inl ⟨e, hfind, hhas⟩⟩, fun k => ?_⟩
  have hholds := Job.holds_first hplaced false
  change j.Shares initial places base initial (.first j)
  rw [Phase.first, Making.start] at hholds ⊢
  by_cases hnone : j.dir.isNone = true
  · rw [if_pos hnone] at hholds ⊢
    exact hholds.1.ready
  · rw [if_neg hnone] at hholds ⊢
    exact hholds.2.2

section

variable (hplaced : j.Placed initial places base) (haccepted : j.Accepted) (hartifacts : ∀ k, ∀ a ∈ artifacts k, a ∈ j.artifacts)

include hplaced haccepted hartifacts

/-- A step of either job keeps it so. -/
theorem Traced.step (h : Traced j initial places base p) (k : Bool) :
    Traced j initial places base (p.step (fun k => j.carrying (artifacts k)) k) := by
  obtain ⟨hshared, htame, hown⟩ := Job.shared_step hplaced haccepted h.shared (hartifacts k) (h.each k)
  refine ⟨hshared, fun k' => ?_⟩
  rcases Bool.eq_or_eq_not k' k with rfl | rfl
  · rwa [step_disk, step_phase_self]
  · rw [step_disk, step_phase_other]
    exact (h.each !k).tame htame

/-- Turns of the jobs keep it so. -/
theorem Traced.run (h : Traced j initial places base p) (turns : List Bool) :
    Traced j initial places base (p.run (fun k => j.carrying (artifacts k)) turns) := by
  induction turns generalizing p with
  | nil => exact h
  | cons k turns ih => exact ih (h.step hplaced haccepted hartifacts k)

end

/-! ## One at a time -/

/-- A job takes a turn at the entries of the package only while the other one is not at work. -/
def oneAtATime (jobs : Bool → Job) (p : Pair) : List Bool → Bool
  | [] => true
  | k :: turns => ((p.phase k).isOutside || !(p.phase !k).isAtWork) && oneAtATime jobs (p.step jobs k) turns

/-- What stands at the place of the package is a whole: what stood there at first, nothing, or the package of one of the jobs. -/
def Whole (jobs : Bool → Job) (initial : Disk) (spot : Spot) (d : Disk) : Prop :=
  d.find? spot = initial.find? spot ∨ d.find? spot = none ∨ ∃ k, (jobs k).Complete spot d

/-- Where the same stands, the same is a whole. -/
theorem Whole.of_eq {spot : Spot} {d : Disk} (h : Whole jobs initial spot start) (heq : d.find? spot = start.find? spot) :
    Whole jobs initial spot d := by
  refine h.imp heq.trans (Or.imp heq.trans ?_)
  rintro ⟨k, hcomplete⟩
  refine ⟨k, fun inside => ?_⟩
  rw [← hcomplete inside, Entry.stand?, Entry.stand?, Entry.find?_append, Entry.find?_append, heq]

/-- What stands there as a whole is what stood there or a package. -/
theorem Whole.stand? {spot : Spot} {d : Disk} (h : Whole jobs initial spot d) (hthere : d.stand? spot ≠ none) :
    d.stand? spot = initial.stand? spot ∨ ∃ k, (jobs k).Complete spot d := by
  rcases h with hkept | hgone | hcomplete
  · exact Or.inl (congrArg (Option.map Entry.stand) hkept)
  · exact absurd (Entry.stand?_eq_none_iff.mpr hgone) hthere
  · exact Or.inr hcomplete

/-- What is so as long as the jobs work one at a time: the package is a whole, and a job that is at work goes on as if it had begun
alone, when the package was a whole. -/
structure InTurn (jobs : Bool → Job) (initial : Disk) (places : List Spot) (base spot : Spot) (p : Pair) : Prop where
  whole : Whole jobs initial spot p.disk
  work (k : Bool) : (p.phase k).isAtWork = true → (p.phase !k).isAtWork = false ∧ ∃ start, Whole jobs initial spot start ∧
    (jobs k).Placed start places base ∧ (jobs k).Holds start places base false p.disk (p.phase k)

/-- A step of a job that has begun alone. -/
theorem InTurn.of_holds (haccepted : ∀ k, (jobs k).Accepted) (hwhole : Whole jobs initial (base ++ [(jobs k).root]) start)
    (hplaced : (jobs k).Placed start places base) (hholds : (jobs k).Holds start places base false p.disk (p.phase k))
    (hother : (p.phase !k).isAtWork = false) :
    InTurn jobs initial places base (base ++ [(jobs k).root]) (p.step jobs k) := by
  have hnext := Job.holds_step hplaced (haccepted k) hholds
  constructor
  case whole =>
    rcases (Job.whole_of_holds (haccepted k) hnext).1 with hkept | hgone | hcomplete
    · exact hwhole.of_eq hkept
    · exact Or.inr (Or.inl hgone)
    · exact Or.inr (Or.inr ⟨k, hcomplete⟩)
  case work =>
    intro k' hwork
    rcases Bool.eq_or_eq_not k' k with rfl | rfl
    · rw [step_disk, step_phase_self, step_phase_other]
      exact ⟨hother, start, hwhole, hplaced, hnext⟩
    · rw [step_phase_other] at hwork
      cases hother.symm.trans hwork

section

variable (hplaced : j.Placed initial places base) (haccepted : ∀ k, (j.carrying (artifacts k)).Accepted)

include hplaced haccepted

/-- A step of a job whose turn it is keeps it so. -/
theorem InTurn.step (h : InTurn (fun k => j.carrying (artifacts k)) initial places base (base ++ [j.root]) p)
    (htraced : Traced j initial places base p) (hturn : ((p.phase k).isOutside || !(p.phase !k).isAtWork) = true) :
    InTurn (fun k => j.carrying (artifacts k)) initial places base (base ++ [j.root])
      (p.step (fun k => j.carrying (artifacts k)) k) := by
  have hnow := (htraced.shared.frame.placed hplaced).carrying (artifacts k)
  have hshares := htraced.each k
  have hidle : (p.phase k).isOutside = false → (p.phase !k).isAtWork = false := by
    intro houtside
    rwa [houtside, Bool.false_or, Bool.not_eq_true'] at hturn
  cases hphase : p.phase k with
  | finished result =>
    have hsame : p.step (fun k => j.carrying (artifacts k)) k = p := by
      have hupdate : Function.update p.phase k (.finished result) = p.phase := by rw [← hphase, Function.update_eq_self]
      rw [Pair.step, hphase]
      exact congrArg (Pair.mk p.disk) hupdate
    rwa [hsame]
  | clearingStaging =>
    rw [hphase] at hshares hidle
    have hholds : (j.carrying (artifacts k)).Holds p.disk places base false p.disk .clearingStaging := ⟨⟨.refl, hshares⟩, rfl⟩
    exact .of_holds haccepted h.whole hnow (hphase ▸ hholds) (hidle rfl)
  | makingTarget m =>
    rw [hphase] at hshares
    cases hother : (p.phase !k).isAtWork with
    | false =>
      have hholds : (j.carrying (artifacts k)).Holds p.disk places base false p.disk (.makingTarget m) := ⟨.refl, rfl, hshares⟩
      exact .of_holds haccepted h.whole hnow (hphase ▸ hholds) hother
    | true =>
      -- The other job is at work, so the directory is there.
      have hready : j.Ready places base p.disk := Job.ready_of_isAtWork (htraced.each !k) hother
      obtain ⟨hdisk, hafter⟩ := Job.step_makingTarget_of_ready (j := j.carrying (artifacts k)) hnow.top hshares.1 hready
      constructor
      case whole =>
        rw [step_disk, hphase, hdisk]
        exact h.whole
      case work =>
        intro k' hwork
        rcases Bool.eq_or_eq_not k' k with rfl | rfl
        · rw [step_phase_self, hphase] at hwork
          cases hafter.symm.trans hwork
        · rw [step_disk, step_phase_other, Bool.not_not, step_phase_self, hphase, hdisk]
          exact ⟨hafter, (h.work (!k) hother).2⟩
  | makingParent | writing | clearingBackup | looking | settingAside | swapping | restoring | clearingPrevious | cleaning =>
    obtain ⟨hother, start, hwhole, hstart, hholds⟩ := h.work k (by rw [hphase]; rfl)
    exact .of_holds haccepted hwhole hstart hholds hother

/-- Turns that the jobs take one at a time keep it so. -/
theorem InTurn.run (hall : j.Accepted) (hartifacts : ∀ k, ∀ a ∈ artifacts k, a ∈ j.artifacts)
    (h : InTurn (fun k => j.carrying (artifacts k)) initial places base (base ++ [j.root]) p)
    (htraced : Traced j initial places base p) {turns : List Bool}
    (hturns : oneAtATime (fun k => j.carrying (artifacts k)) p turns = true) :
    InTurn (fun k => j.carrying (artifacts k)) initial places base (base ++ [j.root])
      (p.run (fun k => j.carrying (artifacts k)) turns) := by
  induction turns generalizing p with
  | nil => exact h
  | cons k turns ih =>
    rw [oneAtATime, Bool.and_eq_true] at hturns
    exact ih (h.step hplaced haccepted htraced hturns.1) (htraced.step hplaced hall hartifacts k) hturns.2

end

/-! ## Packages with the same name -/

/-- Two jobs that install files under one name in one directory. Whatever the order of their operations is, and however far they have
come, what stands in the place of the package or below is something that the former occupant had there (`Entry.has_iff_of_distinct`),
or a whole file of one of the jobs under its names, or a directory on the way to one. And as long as the jobs work one at a time,
what stands in the place of the package is what stood there at first, nothing, or the package of one of the jobs. -/
theorem run_samePackage {d : Disk} {dir : Path} {root : String} {artifacts : Bool → List Artifact} {places : List Spot} {base : Spot}
    (haccepted : ∀ k, packageRoot none (artifacts k) = .ok root)
    (hplaced : ∀ k, (Job.mk dir root (artifacts k)).Placed d places base) :
    let jobs (k : Bool) : Job := ⟨dir, root, artifacts k⟩
    (∀ turns inside stand, (run jobs (first jobs d) turns).disk.stand? (base ++ [root] ++ inside) = some stand →
      (∃ e, d.find? (base ++ [root]) = some e ∧ e.Has inside stand) ∨ ∃ k, (jobs k).Listed (root :: inside) stand) ∧
      ∀ turns, oneAtATime jobs (first jobs d) turns = true →
        Whole jobs d (base ++ [root]) (run jobs (first jobs d) turns).disk := by
  intro jobs
  let j : Job := ⟨dir, root, artifacts true ++ artifacts false⟩
  have hall : j.Accepted := packageRoot_append (haccepted true) (haccepted false)
  have hartifacts : ∀ k, ∀ a ∈ artifacts k, a ∈ j.artifacts := by
    intro k a ha
    cases k with
    | true => exact List.mem_append_left _ ha
    | false => exact List.mem_append_right _ ha
  have hjoint : j.Placed d places base := (hplaced true).carrying j.artifacts
  have hfirst : Traced j d places base (first jobs d) := .first hjoint
  refine ⟨fun turns inside stand hstand => ?_, fun turns hturns => ?_⟩
  · have hpackage := (hfirst.run hjoint hall hartifacts turns).shared.package
    obtain ⟨e, hfind, hstand⟩ := Option.map_eq_some_iff.mp hstand
    rw [Entry.find?_append] at hfind
    obtain ⟨found, hfound, hfind⟩ := Option.bind_eq_some_iff.mp hfind
    have hhas : found.Has inside stand := Entry.has_of_stand? (by rw [Entry.stand?, hfind, ← hstand]; rfl)
    rcases hpackage found hfound inside stand hhas with hformer | ⟨a, ha, hlisted⟩
    · exact Or.inl hformer
    · rcases List.mem_append.mp ha with ha | ha
      · exact Or.inr ⟨true, a, ha, hlisted⟩
      · exact Or.inr ⟨false, a, ha, hlisted⟩
  · have hidle : ∀ k, ((first jobs d).phase k).isAtWork = false := by
      intro k
      change (Phase.first (jobs k)).isAtWork = false
      rw [Phase.first]
      split <;> rfl
    have hinTurn : InTurn jobs d places base (base ++ [root]) (first jobs d) :=
      ⟨Or.inl rfl, fun k hwork => by cases (hidle k).symm.trans hwork⟩
    exact (hinTurn.run hjoint haccepted hall hartifacts hfirst hturns).whole

/-- Two packages for one place whose jobs make their directory at the same time, and then work one after the other: the second one
takes the place of the first one. -/
theorem run_samePackage_inTurns :
    let jobs (k : Bool) : Job := ⟨["out"], "pkg", if k then [⟨"pkg/a.py", "1"⟩] else [⟨"pkg/b.py", "2"⟩]⟩
    let turns := [true, false] ++ .replicate 10 true ++ .replicate 14 false
    let d := (run jobs (first jobs .empty) turns).disk
    (d.stand? ["out", "pkg", "b.py"] = some (.file "2".toUTF8) ∧
      ((∃ e, Entry.find? .empty ["out", "pkg"] = some e ∧ e.Has ["b.py"] (.file "2".toUTF8)) ∨
        ∃ k, (jobs k).Listed ["pkg", "b.py"] (.file "2".toUTF8))) ∧
      oneAtATime jobs (first jobs .empty) turns = true ∧ Whole jobs .empty ["out", "pkg"] d := by
  intro jobs turns d
  have hplaced : ∀ k, (jobs k).Placed .empty [["out"]] ["out"] := by
    have hout : Entry.empty.stand? ["out"] = none := rfl
    have htrail : Trail .empty [] ["out"] [["out"]] ["out"] :=
      .down ⟨rfl, by decide⟩ (fun target hx => by cases hout.symm.trans hx) (.done _)
    intro k
    cases k <;> exact ⟨rfl, htrail, by decide, by decide, by decide⟩
  have hall := run_samePackage (by decide +kernel) hplaced
  have hstand : d.stand? ["out", "pkg", "b.py"] = some (.file "2".toUTF8) := by decide +kernel
  have hturns : oneAtATime jobs (first jobs .empty) turns = true := by decide +kernel
  exact ⟨⟨hstand, hall.1 turns ["b.py"] _ hstand⟩, hturns, hall.2 turns hturns⟩

/-- Two jobs that both find the staging directory cleared write into the same one, and the first that is done moves the files of both
to the place of the package. And a job whose directory is reached through the place of its package makes directories there. -/
theorem run_mixed_packages :
    let jobs (k : Bool) : Job := ⟨["out"], "pkg", if k then [⟨"pkg/a.py", "1"⟩] else [⟨"pkg/b.py", "2"⟩]⟩
    let mixed := run jobs (first jobs .empty) ([true, true, false, false] ++ .replicate 4 true ++ .replicate 2 false ++ .replicate 3 true)
    let through (_ : Bool) : Job := ⟨["pkg", "x", "..", ".."], "pkg", clashing⟩
    let led := run through (first through .empty) (.replicate 20 true ++ .replicate 20 false)
    ((∀ k, (jobs k).Accepted) ∧ mixed.disk.stand? ["out", "pkg", "a.py"] = some (.file "1".toUTF8) ∧
      mixed.disk.stand? ["out", "pkg", "b.py"] = some (.file "2".toUTF8) ∧ ¬Whole jobs .empty ["out", "pkg"] mixed.disk) ∧
    ((∀ k, (through k).Accepted) ∧ led.disk.stand? ["pkg", "x"] = some .dir ∧ (¬∃ k, (through k).Listed ["pkg", "x"] .dir) ∧
      ¬Whole through .empty ["pkg"] led.disk) := by
  intro jobs mixed through led
  refine ⟨⟨?_, ?_, ?_, fun hwhole => ?_⟩, ?_, ?_, ?_, fun hwhole => ?_⟩
  · unfold Job.Accepted
    decide +kernel
  · decide +kernel
  · decide +kernel
  · -- Each package is without the file of the other one.
    have hforeign : ∀ k, mixed.disk.stand? (["out", "pkg"] ++ [if k then "b.py" else "a.py"]) ≠
        packageStand (jobs k).artifacts ["pkg", if k then "b.py" else "a.py"] := by decide +kernel
    obtain ⟨k, hcomplete⟩ := (hwhole.stand? (by decide +kernel)).resolve_left (by decide +kernel)
    exact hforeign k (hcomplete _)
  · unfold Job.Accepted
    decide +kernel
  · decide +kernel
  · have hnone : ∀ a ∈ clashing, ¬["pkg", "x"] <+: a.names := by decide +kernel
    rintro ⟨k, a, ha, ⟨hfile, -⟩ | ⟨-, hprefix⟩⟩
    · cases hfile
    · exact hnone a ha hprefix
  · have hmade : led.disk.stand? ["pkg", "x"] ≠ packageStand clashing ["pkg", "x"] := by decide +kernel
    obtain ⟨k, hcomplete⟩ := (hwhole.stand? (by decide +kernel)).resolve_left (by decide +kernel)
    exact hmade (hcomplete ["x"])

end Install.Pair

end Workflow
