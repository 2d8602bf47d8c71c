import Mathlib
import Workflow.Proofs.Install.Runs

/-!
# What an installation guarantees

Nobody ever finds half of a package in its place (`Install.run_never_partial`); an installation that succeeds has put the package
there and has left nothing else behind (`install_exact`); and one that fails, at whatever operation, has left what was there
(`Install.kept_of_ends_error`). All three are about directories whose path does not lead through one of the three entries that a
job works at; beside each stands what happens to one whose path does.
-/

namespace Workflow

open Disk

namespace Job

variable {j : Job} {initial d : Disk} {places : List Spot} {base : Spot} {fails : Bool}

/-! ## The package as a whole -/

/-- A package is a directory. -/
theorem Complete.stand?_root (haccepted : j.Accepted) {spot : Spot} (h : j.Complete spot d) : d.stand? spot ≠ none := by
  obtain ⟨a, ha⟩ := List.exists_mem_of_ne_nil _ (artifacts_ne_nil haccepted)
  obtain ⟨-, -, -, second, rest, hnames⟩ := haccepted.names ha
  have hany : j.artifacts.any ([j.root].isPrefixOf ·.names) = true := by
    refine List.any_eq_true.mpr ⟨a, ha, List.isPrefixOf_iff_prefix.mpr ?_⟩
    rw [hnames]
    exact List.prefix_append [j.root] (second :: rest)
  have hroot := h []
  rw [List.append_nil] at hroot
  rw [hroot, packageStand]
  split
  · exact Option.some_ne_none _
  · rw [if_pos hany]
    exact Option.some_ne_none _

/-- What is found in the place of a package: what stood there at first, nothing, or the package. The former package is never gone
altogether. -/
def Whole (j : Job) (initial : Disk) (base : Spot) (d : Disk) : Prop :=
  (d.find? (base ++ [j.root]) = initial.find? (base ++ [j.root]) ∨ d.find? (base ++ [j.root]) = none ∨
    j.Complete (base ++ [j.root]) d) ∧
  (initial.find? (base ++ [j.root]) ≠ none → d.find? (base ++ [j.root]) = none →
    d.find? (base ++ [j.backupName]) = initial.find? (base ++ [j.root]))

/-- What was not touched is whole. -/
theorem Kept.whole (h : j.Kept initial base d) : j.Whole initial base d :=
  ⟨Or.inl h, fun hstood hgone => absurd (h.symm.trans hgone) hstood⟩

/-- What was set aside is whole. -/
theorem SetAside.whole (h : j.SetAside initial base d) : j.Whole initial base d :=
  ⟨Or.inr (Or.inl h.gone), fun _ _ => h.kept⟩

/-- A package that is there is whole. -/
theorem Complete.whole (haccepted : j.Accepted) (h : j.Complete (base ++ [j.root]) d) : j.Whole initial base d :=
  ⟨Or.inr (Or.inr h), fun _ hgone => absurd (Entry.stand?_eq_none_iff.mpr hgone) (h.stand?_root haccepted)⟩

/-- In every phase the package is whole. -/
theorem whole_of_holds (haccepted : j.Accepted) {phase : Phase} (h : j.Holds initial places base fails d phase) :
    j.Whole initial base d := by
  cases phase with
  | makingTarget | makingParent | writing | clearingBackup | looking | settingAside => exact h.2.1.whole
  | clearingStaging => exact h.2.whole
  | swapping previous =>
    cases previous with
    | false => exact h.2.1.whole
    | true => exact h.2.1.whole
  | restoring => exact h.2.1.whole
  | clearingPrevious => exact h.2.1.complete.whole haccepted
  | cleaning error =>
    cases error with
    | none => exact h.2.1.complete.whole haccepted
    | some => exact h.2.whole
  | finished result =>
    cases result with
    | ok paths => exact h.2.2.1.complete.whole haccepted
    | error e =>
      rcases h with hkept | ⟨-, -, hcomplete⟩
      · exact hkept.whole
      · exact hcomplete.whole haccepted

end Job

/-! ## Disks and packages to look at -/

/-- A disk with a package, and with what runs that were cut off have left beside it. -/
def notes : Disk :=
  .dir [("notes", .dir [("todo", .file "write".toUTF8)]),
    ("out", .dir [(".pkg.previous", .link "../notes"), (".pkg.staging", .dir [("pkg", .dir [])]),
      ("pkg", .dir [("old.py", .file "old".toUTF8)])])]

/-- A package for it. -/
def notesJob : Job := ⟨["out"], "pkg", [⟨"pkg/new.py", "new"⟩]⟩

/-- A package in which a file stands where another file needs a directory. -/
def clashing : List Artifact := [⟨"pkg/a.py", "a"⟩, ⟨"pkg/a.py/b.py", "b"⟩]

/-- A disk with an empty package, and with a staging directory in which a link leads to it. -/
def linked : Disk := .dir [("out", .dir [(".pkg.staging", .dir [("pkg", .link "../pkg")]), ("pkg", .dir [])])]

/-- The package is accepted. -/
theorem accepted_notesJob : notesJob.Accepted := by
  unfold Job.Accepted
  decide +kernel

/-- The package has its place on the disk. -/
theorem placed_notesJob : notesJob.Placed notes [["out"]] ["out"] := by
  have hout : notes.stand? ["out"] = some .dir := rfl
  refine ⟨rfl, .down ⟨rfl, by decide⟩ (fun target hlink => ?_) (.done ["out"]), by decide, by decide, by decide⟩
  rw [List.nil_append, hout] at hlink
  cases hlink

/-! ## Runs that are cut off -/

namespace Install

/-- After any number of operations of an installation, what stands in the place of the package is what stood there before,
nothing, or the package; and if something stood there and nothing does, what stood there is the backup. -/
theorem run_never_partial {d : Disk} {dir : Path} {artifacts : List Artifact} {root : String} {places : List Spot} {base : Spot}
    (haccepted : packageRoot none artifacts = .ok root) (hplaced : (Job.mk dir root artifacts).Placed d places base) (steps : Nat) :
    (Job.mk dir root artifacts).Whole d base (run ⟨dir, root, artifacts⟩ steps d (.first ⟨dir, root, artifacts⟩)).1 :=
  have hfirst := Job.holds_first hplaced
  Job.whole_of_holds haccepted (Job.holds_run hplaced haccepted steps (hfirst false))

/-- When the place of the package is empty, the former package is the backup. -/
theorem run_never_partial_notes :
    notesJob.Whole notes ["out"] (run notesJob 12 notes (.first notesJob)).1 ∧
      (run notesJob 12 notes (.first notesJob)).1.stand? ["out", "pkg"] = none :=
  ⟨run_never_partial accepted_notesJob placed_notesJob 12, by decide +kernel⟩

/-- In a directory that is reached through the place of the package, that place is made as an empty directory. -/
theorem run_partial_through_package :
    let j : Job := ⟨["pkg", ".."], "pkg", clashing⟩
    j.Accepted ∧ Trail .empty [] j.dir [["pkg"]] [] ∧ ∃ steps, ¬j.Whole .empty [] (run j steps .empty (.first j)).1 := by
  intro j
  refine ⟨?_, .down ⟨rfl, by decide⟩ (fun target hlink => nomatch hlink) (.up (.done [])), 13, fun hwhole => ?_⟩
  · unfold Job.Accepted
    decide +kernel
  · have hstand : (run j 13 .empty (.first j)).1.stand? ["pkg"] = some .dir := by decide +kernel
    have hinside : (run j 13 .empty (.first j)).1.stand? ["pkg", "a.py"] = none := by decide +kernel
    have hfile : packageStand j.artifacts ["pkg", "a.py"] ≠ none := by decide +kernel
    have hthere : (run j 13 .empty (.first j)).1.find? ["pkg"] ≠ none := by
      intro hgone
      rw [Entry.stand?_eq_none_iff.mpr hgone] at hstand
      cases hstand
    rcases hwhole.1 with hkept | hgone | hcomplete
    · exact hthere hkept
    · exact hthere hgone
    · exact hfile ((hcomplete ["a.py"]).symm.trans hinside)

end Install

/-! ## Installations that succeed -/

/-- The package is in its place and nothing else has changed. -/
structure Job.Exact (j : Job) (initial : Disk) (places : List Spot) (base : Spot) (d : Disk) : Prop where
  complete : j.Complete (base ++ [j.root]) d
  destination : resolve d false j.destination = .ok (base ++ [j.root])
  staging : d.find? (base ++ [j.stagingName]) = none
  backup : d.find? (base ++ [j.backupName]) = none
  elsewhere : j.Frame initial places base d

/-- An installation that succeeds has written the files of its job and has put the package in its place. -/
theorem exact_of_install {d d' : Disk} {dir : Path} {artifacts : List Artifact} {root : String} {paths : List Path}
    (htop : d.stand? [] = some .dir) (haccepted : packageRoot none artifacts = .ok root)
    (hclear : ∀ places base, Trail d [] dir places base → (Job.mk dir root artifacts).Placed d places base)
    (h : install d dir artifacts = (d', .ok paths)) :
    ∃ places base, Trail d [] dir places base ∧ paths = (Job.mk dir root artifacts).written ∧
      (Job.mk dir root artifacts).Exact d places base d' := by
  rw [install, haccepted] at h
  simp only at h
  split at h
  · next now result hrun =>
    obtain ⟨rfl, rfl⟩ := Prod.mk.inj h
    have hfinished := congrArg Prod.snd hrun
    rw [Install.run_eq_disturbed] at hfinished
    obtain ⟨places, base, htrail⟩ := Job.exists_trail_of_finished htop hfinished
    have hplaced := hclear places base htrail
    have hholds := Job.holds_run hplaced haccepted (Install.bound ⟨dir, root, artifacts⟩ d) (Job.holds_first hplaced false)
    rw [hrun] at hholds
    obtain ⟨hpaths, hframe, hinstalled, hcleared⟩ := hholds
    obtain ⟨hstaging, hbackup⟩ := hcleared rfl
    exact ⟨places, base, htrail, hpaths, hinstalled.complete, hinstalled.destination, hstaging, hbackup, hframe⟩
  · cases h

/-- After an installation that succeeds there are the files of the package in its place, with the directories above them and
nothing else; nothing is left of the staging directory and of the backup; and all else is as it was, but for directories that the
path of the directory was missing. -/
theorem install_exact {d d' : Disk} {dir : Path} {artifacts : List Artifact} {paths : List Path} (htop : d.stand? [] = some .dir)
    (hclear : ∀ root, packageRoot none artifacts = .ok root → ∀ places base, Trail d [] dir places base →
      (Job.mk dir root artifacts).Placed d places base)
    (h : install d dir artifacts = (d', .ok paths)) :
    ∃ root places base, packageRoot none artifacts = .ok root ∧ Trail d [] dir places base ∧
      paths = artifacts.map (fun a => dir.join (Path.ofText a.path)) ∧
      (Job.mk dir root artifacts).Exact d places base d' := by
  cases hroot : packageRoot none artifacts with
  | error e =>
    rw [install, hroot] at h
    cases h
  | ok root =>
    obtain ⟨places, base, htrail, hpaths, hexact⟩ := exact_of_install htop hroot (hclear root hroot) h
    exact ⟨root, places, base, rfl, htrail, hpaths, hexact⟩

/-- The new package takes the place of the old one, and the link that was left as a backup goes without what it leads to. -/
theorem install_exact_notes :
    (install notes notesJob.dir notesJob.artifacts).2 = .ok [["out", "pkg", "new.py"]] ∧
      notesJob.Exact notes [["out"]] ["out"] (install notes notesJob.dir notesJob.artifacts).1 := by
  have hok : (install notes notesJob.dir notesJob.artifacts).2 = .ok [["out", "pkg", "new.py"]] := by decide +kernel
  have hclear : ∀ root, packageRoot none notesJob.artifacts = .ok root → ∀ places base, Trail notes [] notesJob.dir places base →
      (Job.mk notesJob.dir root notesJob.artifacts).Placed notes places base := by
    intro root hroot places base htrail
    obtain rfl : root = "pkg" := Except.ok.inj (hroot.symm.trans accepted_notesJob)
    obtain ⟨rfl, rfl⟩ := htrail.unique placed_notesJob.trail
    exact placed_notesJob
  obtain ⟨root, places, base, hroot, htrail, -, hexact⟩ := install_exact rfl hclear (Prod.ext rfl hok)
  obtain rfl : root = "pkg" := Except.ok.inj (hroot.symm.trans accepted_notesJob)
  obtain ⟨rfl, rfl⟩ := htrail.unique placed_notesJob.trail
  exact ⟨hok, hexact⟩

/-- A directory that is a link at the place of the staging directory is removed as what an earlier run left, and made anew: the
package stands in a directory that is called as the staging directory is. -/
theorem install_through_staging :
    let d : Disk := .dir [(".pkg.staging", .link ".")]
    let result := install d [".pkg.staging"] [⟨"pkg/x.py", "x"⟩]
    Trail d [] [".pkg.staging"] [[".pkg.staging"]] [] ∧ result.2 = .ok [[".pkg.staging", "pkg", "x.py"]] ∧
      result.1.stand? ["pkg"] = none ∧ result.1.stand? [".pkg.staging"] = some .dir := by
  intro d result
  refine ⟨.link ⟨rfl, by decide⟩ rfl (.idle rfl (.done [])), by decide +kernel, by decide +kernel, by decide +kernel⟩

/-! ## Installations that fail -/

/-- The result of a phase, if it is the last one. -/
def Phase.result? : Phase → Option (Except InstallError (List Path))
  | finished result => some result
  | _ => none

/-- A phase with a result is the last one. -/
theorem Phase.eq_finished {phase : Phase} {result : Except InstallError (List Path)} (h : phase.result? = some result) :
    phase = .finished result := by
  cases phase with
  | finished r => rw [Option.some.inj h]
  | _ => cases h

namespace Install

/-- What an installation can end with if operations may fail without a reason on the disk: its files are refused, or the job comes
to an end, having borne all failures. -/
inductive Ends (d : Disk) (dir : Path) (artifacts : List Artifact) : Disk → Except InstallError (List Path) → Prop
  | refused {e : InstallError} (h : packageRoot none artifacts = .error e) : Ends d dir artifacts d (.error e)
  | finished {d' : Disk} {root : String} {result : Except InstallError (List Path)} (h : packageRoot none artifacts = .ok root)
      (faults : List (Option FileError)) (hbears : bearsAll ⟨dir, root, artifacts⟩ faults d (.first ⟨dir, root, artifacts⟩) = true)
      (hrun : disturbed ⟨dir, root, artifacts⟩ faults d (.first ⟨dir, root, artifacts⟩) = (d', .finished result)) :
      Ends d dir artifacts d' result

/-- An installation that fails leaves in the place of the package what stood there, whichever operations failed. Only when nothing
but the removal of the staging directory has failed after all, the package is there. -/
theorem kept_of_ends_error {d d' : Disk} {dir : Path} {artifacts : List Artifact} {places : List Spot} {base : Spot}
    {e : InstallError}
    (hplaced : ∀ root, packageRoot none artifacts = .ok root → (Job.mk dir root artifacts).Placed d places base)
    (h : Ends d dir artifacts d' (.error e)) :
    packageRoot none artifacts = .error e ∧ d' = d ∨
      ∃ root, packageRoot none artifacts = .ok root ∧
        (d'.find? (base ++ [root]) = d.find? (base ++ [root]) ∨
          (∃ late, e = .io (Job.mk dir root artifacts).staging late) ∧ (Job.mk dir root artifacts).Complete (base ++ [root]) d') := by
  cases h with
  | refused h => exact Or.inl ⟨h, rfl⟩
  | @finished _ root _ h faults hbears hrun =>
    have hholds := Job.holds_disturbed (hplaced root h) h (Job.holds_first (hplaced root h) true) hbears
    rw [hrun] at hholds
    refine Or.inr ⟨root, h, ?_⟩
    rcases hholds with hkept | ⟨late, he, hcomplete⟩
    · exact Or.inl hkept
    · exact Or.inr ⟨⟨late, he⟩, hcomplete⟩

/-- When the package cannot be moved to its place, the former one is put back. -/
theorem kept_of_ends_error_notes :
    let faults := .replicate 12 none ++ [some .inputOutput] ++ .replicate 5 none
    (disturbed notesJob faults notes (.first notesJob)).2.result? = some (.error (.io ["out", "pkg"] .inputOutput)) ∧
      notesJob.Kept notes ["out"] (disturbed notesJob faults notes (.first notesJob)).1 := by
  intro faults
  have hresult : (disturbed notesJob faults notes (.first notesJob)).2.result? =
      some (.error (.io ["out", "pkg"] .inputOutput)) := by decide +kernel
  have hends : Ends notes ["out"] notesJob.artifacts (disturbed notesJob faults notes (.first notesJob)).1
      (.error (.io ["out", "pkg"] .inputOutput)) :=
    .finished accepted_notesJob faults (by decide +kernel) (Prod.ext rfl (Phase.eq_finished hresult))
  have hplaced : ∀ root, packageRoot none notesJob.artifacts = .ok root →
      (Job.mk ["out"] root notesJob.artifacts).Placed notes [["out"]] ["out"] := by
    intro root hroot
    obtain rfl : root = "pkg" := Except.ok.inj (hroot.symm.trans accepted_notesJob)
    exact placed_notesJob
  refine ⟨hresult, ?_⟩
  rcases kept_of_ends_error hplaced hends with ⟨hrefused, -⟩ | ⟨root, hroot, hkept | ⟨⟨late, he⟩, -⟩⟩
  · cases hrefused.symm.trans accepted_notesJob
  · obtain rfl : root = "pkg" := Except.ok.inj (hroot.symm.trans accepted_notesJob)
    exact hkept
  · obtain rfl : root = "pkg" := Except.ok.inj (hroot.symm.trans accepted_notesJob)
    exact absurd (InstallError.io.inj he).1 (by decide +kernel)

/-- What stood in the place of the package does not stay when the path of the directory leads through that place, when the package
is there and only then a removal fails, and when a link in a staging directory that is said not to be there leads to that place.
-/
theorem changed_of_ends_error :
    ((install .empty ["pkg", ".."] clashing).2 = .error (.io ["pkg", "..", ".pkg.staging", "pkg", "a.py"] .alreadyThere) ∧
      (install .empty ["pkg", ".."] clashing).1.stand? ["pkg"] = some .dir) ∧
    (let late := disturbed notesJob (.replicate 16 none ++ [some .inputOutput]) notes (.first notesJob);
      late.2.result? = some (.error (.io ["out", ".pkg.staging"] .inputOutput)) ∧
        late.1.stand? ["out", "pkg", "old.py"] = none) ∧
    (let misled := disturbed ⟨["out"], "pkg", clashing⟩ ([none, some .noEntry] ++ .replicate 6 none) linked
        (.first ⟨["out"], "pkg", clashing⟩);
      misled.2.result? = some (.error (.io ["out", ".pkg.staging", "pkg", "a.py"] .alreadyThere)) ∧
        misled.1.stand? ["out", "pkg", "a.py"] = some (.file "a".toUTF8)) := by
  refine ⟨⟨?_, ?_⟩, ⟨?_, ?_⟩, ?_, ?_⟩ <;> decide +kernel

end Install

end Workflow
