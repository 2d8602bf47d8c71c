import Mathlib
import Workflow.Proofs.Install.Staging

/-!
# What holds between two operations

What is so of the disk in each phase of a job (`Job.Holds`). Until the package is swapped in, what stood in its place is there
untouched or kept under the backup name; from then on the tree of the package is in its place. A failed operation leaves that as it
is, as long as there is a reason for the failure (`holds_after_error`).
-/

namespace Workflow

open Disk

namespace Job

variable {j : Job} {initial d d' : Disk} {places : List Spot} {base : Spot} {fails : Bool}

/-! ## The paths of a job -/

/-- The stem of a path that does not end with a slash is the path. -/
theorem stem_concat {p : Path} {part : String} (h : part ≠ "") : Path.stem (p ++ [part]) = p ++ [part] := by
  have hsome : ¬Path.isNone (p ++ [part]) = true := by
    rw [Path.isNone_iff, not_or]
    refine ⟨List.append_ne_nil_of_right_ne_nil _ (List.cons_ne_nil _ _), fun heq => h ?_⟩
    have hmem : part ∈ [""] := heq ▸ List.mem_append_right _ (List.mem_singleton_self part)
    exact List.mem_singleton.mp hmem
  have hlast : (p ++ [part]).getLast? ≠ some "" := by
    rw [List.getLast?_concat]
    exact fun heq => h (Option.some.inj heq)
  rw [Path.stem, if_neg hsome, if_neg hlast]

/-- The path of the package. -/
theorem destination_eq : j.destination = j.dir.stem ++ [j.root] := Path.join_eq rfl

/-- The path of the staging directory. -/
theorem staging_eq : j.staging = j.dir.stem ++ [j.stagingName] := Path.join_eq rfl

/-- The path of the former package. -/
theorem backup_eq : j.backup = j.dir.stem ++ [j.backupName] := Path.join_eq rfl

/-- The path of the package in the staging directory. -/
theorem staged_eq : j.staged = j.dir.stem ++ [j.stagingName] ++ [j.root] := by
  have hjoin : j.staged = Path.stem (j.staging) ++ [j.root] := Path.join_eq rfl
  rw [hjoin, staging_eq, stem_concat isName_stagingName.ne_empty]

/-- An accepted job: its root is the one that its files share. -/
def Accepted (j : Job) : Prop := packageRoot none j.artifacts = .ok j.root

/-- The names of a file of an accepted job. -/
theorem Accepted.names (h : j.Accepted) {a : Artifact} (ha : a ∈ j.artifacts) :
    (Path.ofText a.path).isAbsolute = false ∧ ".." ∉ Path.ofText a.path ∧
      a.names = (Path.ofText a.path).filter (!Path.isIdle ·) ∧ ∃ second rest, a.names = j.root :: second :: rest := by
  obtain ⟨second, rest, hnames⟩ := (packageRoot_eq_ok h).2 a ha
  obtain ⟨habsolute, hup, hfilter⟩ := Path.names?_eq_some hnames
  have heq : a.names = j.root :: second :: rest := by rw [Artifact.names, hnames]; rfl
  exact ⟨habsolute, hup, heq.trans hfilter, second, rest, heq⟩

/-- The root of an accepted job leads down. -/
theorem Accepted.isName_root (h : j.Accepted) : IsName j.root := by
  obtain ⟨a, ha⟩ := List.exists_mem_of_ne_nil _ (artifacts_ne_nil h)
  obtain ⟨-, hup, hfilter, second, rest, hnames⟩ := h.names ha
  have hmem : j.root ∈ (Path.ofText a.path).filter (!Path.isIdle ·) := by
    rw [← hfilter, hnames]
    exact List.mem_cons_self
  obtain ⟨hmem, hidle⟩ := List.mem_filter.mp hmem
  rw [Bool.not_eq_true'] at hidle
  exact ⟨hidle, fun heq => hup (heq ▸ hmem)⟩

/-- The path of a file on its way. -/
theorem Accepted.stagedFile_eq (h : j.Accepted) {a : Artifact} (ha : a ∈ j.artifacts) :
    j.stagedFile a = j.dir.stem ++ [j.stagingName] ++ Path.ofText a.path := by
  rw [stagedFile, Path.join_eq (h.names ha).1, staging_eq, stem_concat isName_stagingName.ne_empty]

/-! ## What stays -/

/-- What stands in the place of the package is what stood there at first. -/
def Kept (j : Job) (initial : Disk) (base : Spot) (d : Disk) : Prop :=
  d.find? (base ++ [j.root]) = initial.find? (base ++ [j.root])

/-- The directory of a job is there, and nothing has changed elsewhere. -/
structure Grounded (j : Job) (initial : Disk) (places : List Spot) (base : Spot) (d : Disk) : Prop where
  frame : j.Frame initial places base d
  ready : j.Ready places base d

/-- A change apart from the place of the package keeps what stands there. -/
theorem Kept.replace (h : j.Kept initial base d) {name : String} (hname : name ≠ j.root) (inside : Spot) (new : Option Entry) :
    j.Kept initial base (d.replace (base ++ [name] ++ inside) new) :=
  (Entry.find?_replace_of_apart (apart_of_ne base hname inside).1 (apart_of_ne base hname inside).2 new).trans h

namespace Grounded

/-- A change at one of the three entries leaves the ground. -/
theorem replace (h : j.Grounded initial places base d) (hplaced : j.Placed initial places base) {s : Spot} (hs : j.Own base s)
    (new : Option Entry) : j.Grounded initial places base (d.replace s new) :=
  ⟨h.frame.replace hs new, h.ready.replace hplaced hs new⟩

/-- The place that the directory leads to is a directory. -/
theorem stand?_base (h : j.Grounded initial places base d) (hplaced : j.Placed initial places base) : d.stand? base = some .dir :=
  have ⟨_, hleads⟩ := h.ready
  hleads.stand?_goal (h.frame.top hplaced)

/-- An entry of the directory has its place there. -/
theorem eq_of_resolve (h : j.Grounded initial places base d) {name : String} (hname : IsName name) {s : Spot}
    (hs : resolve d false (j.dir.stem ++ [name]) = .ok s) : s = base ++ [name] :=
  have ⟨_, hleads⟩ := h.ready
  hleads.eq_of_resolve_entry hname hs

/-- An entry of the directory stays where it is. -/
theorem resolve_congr (h : j.Grounded initial places base d) (h' : j.Grounded initial places base d') {name : String}
    (hname : IsName name) : resolve d' false (j.dir.stem ++ [name]) = resolve d false (j.dir.stem ++ [name]) :=
  have ⟨_, hleads⟩ := h.ready
  have ⟨_, hleads'⟩ := h'.ready
  hleads.resolve_entry_congr hleads' hname

/-- An entry of the directory is missing if its removal finds none. -/
theorem find?_of_removeOne (h : j.Grounded initial places base d) {name : String} (hname : IsName name)
    (hremove : removeOne d (j.dir.stem ++ [name]) = .error .noEntry) : d.find? (base ++ [name]) = none :=
  have ⟨_, hleads⟩ := h.ready
  hleads.find?_of_removeOne hname hremove

/-- A removal at one of the three entries is a change there, and leaves the ground. -/
theorem removeOne_eq_ok (h : j.Grounded initial places base d) (hplaced : j.Placed initial places base) {name : String}
    (hname : IsName name) (hown : j.Own base (base ++ [name])) (hremove : removeOne d (j.dir.stem ++ [name]) = .ok d') :
    j.Grounded initial places base d' ∧ ∃ new, d' = d.replace (base ++ [name]) new := by
  obtain ⟨s, e, hs, -, rfl⟩ := Disk.removeOne_eq_ok hremove
  rw [h.eq_of_resolve hname hs]
  exact ⟨h.replace hplaced hown e.shed, e.shed, rfl⟩

end Grounded

/-! ## What holds in each phase -/

/-- The former package is set aside. -/
structure SetAside (j : Job) (initial : Disk) (base : Spot) (d : Disk) : Prop where
  gone : d.find? (base ++ [j.root]) = none
  kept : d.find? (base ++ [j.backupName]) = initial.find? (base ++ [j.root])
  stood : initial.find? (base ++ [j.root]) ≠ none
  destination : resolve d false j.destination = .ok (base ++ [j.root])
  backup : resolve d false j.backup = .ok (base ++ [j.backupName])

/-- The package is in its place, and its path leads there. -/
structure Installed (j : Job) (base : Spot) (d : Disk) : Prop where
  complete : j.Complete (base ++ [j.root]) d
  destination : resolve d false j.destination = .ok (base ++ [j.root])

/-- The places at which directories may be made on the way to files. -/
def OnTheWay (j : Job) (places : List Spot) (base s : Spot) : Prop :=
  s ∈ places ∨ ∃ a ∈ j.artifacts, ∃ names, s = base ++ [j.stagingName] ++ names ∧ names <+: a.names

/-- What is so of the disk in each phase. `fails` tells whether operations may have failed without a reason on the disk: if not,
entries that were cleared are not there. -/
def Holds (j : Job) (initial : Disk) (places : List Spot) (base : Spot) (fails : Bool) (d : Disk) : Phase → Prop
  | .makingTarget m => j.Frame initial places base d ∧ j.Kept initial base d ∧ (∀ p ∈ m.paths, Stays d (· ∈ places) p) ∧
      m.paths.getLast? = some j.dir
  | .clearingStaging => j.Grounded initial places base d ∧ j.Kept initial base d
  | .makingParent m a rest => j.Grounded initial places base d ∧ j.Kept initial base d ∧
      (∃ done, j.artifacts = done ++ a :: rest ∧ j.Staged base done d) ∧ ∀ p ∈ m.paths, Stays d (j.OnTheWay places base) p
  | .writing a rest => j.Grounded initial places base d ∧ j.Kept initial base d ∧
      ∃ done, j.artifacts = done ++ a :: rest ∧ j.Staged base done d
  | .clearingBackup => j.Grounded initial places base d ∧ j.Kept initial base d ∧ j.Staged base j.artifacts d
  | .looking | .settingAside | .swapping false => j.Grounded initial places base d ∧ j.Kept initial base d ∧
      j.Staged base j.artifacts d ∧ (fails = false → d.find? (base ++ [j.backupName]) = none)
  | .swapping true | .restoring _ => j.Grounded initial places base d ∧ j.SetAside initial base d ∧ j.Staged base j.artifacts d
  | .clearingPrevious => j.Grounded initial places base d ∧ j.Installed base d ∧
      resolve d false j.backup = .ok (base ++ [j.backupName])
  | .cleaning none => j.Grounded initial places base d ∧ j.Installed base d ∧
      (fails = false → d.find? (base ++ [j.backupName]) = none)
  | .cleaning (some _) => j.Grounded initial places base d ∧ j.Kept initial base d
  | .finished (.ok paths) => paths = j.written ∧ j.Frame initial places base d ∧ j.Installed base d ∧
      (fails = false → d.find? (base ++ [j.stagingName]) = none ∧ d.find? (base ++ [j.backupName]) = none)
  | .finished (.error e) => j.Kept initial base d ∨ ∃ late, e = .io j.staging late ∧ j.Complete (base ++ [j.root]) d

/-- That an operation of a phase fails has a reason on the disk, as far as it matters: what is said not to be there is not there,
and the former package can always be put back. -/
def Explained (j : Job) (base : Spot) (fails : Bool) (d : Disk) (e : FileError) : Phase → Prop
  | .clearingStaging => e = .noEntry → d.find? (base ++ [j.stagingName]) = none
  | .clearingBackup => fails = false → e = .noEntry → d.find? (base ++ [j.backupName]) = none
  | .restoring _ => False
  | .clearingPrevious => fails = false → d.find? (base ++ [j.backupName]) = none
  | .cleaning none => fails = false → e = .noEntry → d.find? (base ++ [j.stagingName]) = none
  | _ => True

/-! ## The next file -/

/-- The trail of a file on its way, where no link is in the way. -/
theorem exists_trail_of_stagedFile (hplaced : j.Placed initial places base) (haccepted : j.Accepted)
    (hframe : j.Frame initial places base d)
    (hplain : ∀ names target, d.stand? (base ++ [j.stagingName] ++ names) ≠ some (.link target)) {a : Artifact}
    (ha : a ∈ j.artifacts) :
    ∃ way, Trail d [] (j.stagedFile a) way (base ++ [j.stagingName] ++ a.names) ∧ ∀ s ∈ way, j.OnTheWay places base s := by
  obtain ⟨-, hup, hnames, -⟩ := haccepted.names ha
  have hbase := hframe.trail hplaced
  obtain ⟨idle, hdir, hidle⟩ := Path.exists_stem_append j.dir
  rw [hdir] at hbase
  have hstaging : Trail d base [j.stagingName] [base ++ [j.stagingName]] (base ++ [j.stagingName]) :=
    .down isName_stagingName (by simpa using hplain []) (.done _)
  obtain ⟨inside, hinside, hallowed⟩ := exists_trail_of_names (d := d) hup fun names _ => hplain names
  rw [haccepted.stagedFile_eq ha, hnames]
  refine ⟨_, ((hbase.cut hidle).append hstaging).append hinside, fun s hs => ?_⟩
  rw [List.mem_append, List.mem_append, List.mem_singleton] at hs
  rcases hs with (hs | hs) | hs
  · exact Or.inl hs
  · exact Or.inr ⟨a, ha, [], by rw [hs, List.append_nil], List.nil_prefix⟩
  · obtain ⟨names, rfl, hprefix⟩ := hallowed s hs
    exact Or.inr ⟨a, ha, names, rfl, hnames ▸ hprefix⟩

/-- The work on the next file begins with what holds before it. -/
theorem holds_stage (hplaced : j.Placed initial places base) (haccepted : j.Accepted) {done rest : List Artifact}
    (hground : j.Grounded initial places base d) (hkept : j.Kept initial base d) (hall : j.artifacts = done ++ rest)
    (hstaged : j.Staged base done d) : j.Holds initial places base fails d (.stage j rest) := by
  cases rest with
  | nil =>
    rw [List.append_nil] at hall
    rw [← hall] at hstaged
    exact ⟨hground, hkept, hstaged⟩
  | cons a rest =>
    have ha : a ∈ j.artifacts := hall ▸ List.mem_append_right _ List.mem_cons_self
    obtain ⟨way, htrail, hway⟩ := exists_trail_of_stagedFile hplaced haccepted hground.frame hstaged.plain ha
    rw [Phase.stage]
    cases hparent : (j.stagedFile a).parent? with
    | none => exact ⟨hground, hkept, done, hall, hstaged⟩
    | some above =>
      rw [Option.map_some, Option.getD_some, Making.start]
      by_cases hsome : above.isNone = true
      · rw [if_pos hsome]
        exact ⟨hground, hkept, done, hall, hstaged⟩
      · rw [if_neg hsome]
        refine ⟨hground, hkept, ⟨done, hall, hstaged⟩, List.forall_mem_singleton.mpr ?_⟩
        exact Stays.parent ⟨way, _, htrail, hway⟩ hparent (Bool.eq_false_iff.mpr hsome)

/-- The directories that are made next stay where those before do. -/
theorem stays_of_after_more {allowed : Spot → Prop} {m m' : Making} {outcome : Except FileError Unit}
    (hafter : m.after outcome = .more m') (h : ∀ p ∈ m.paths, Stays d allowed p) : ∀ p ∈ m'.paths, Stays d allowed p := by
  intro p hp
  rcases (Making.after_more hafter).1 p hp with hp | ⟨q, hq, hparent, hsome⟩
  · exact h p hp
  · exact (h q hq).parent hparent hsome

/-! ## After a failed operation -/

/-- After an operation that fails for a reason, the next phase holds. -/
theorem holds_after_error (hplaced : j.Placed initial places base) (haccepted : j.Accepted) {phase : Phase}
    (h : j.Holds initial places base fails d phase) {e : FileError} (he : j.Explained base fails d e phase) :
    j.Holds initial places base fails d (phase.after j (.error e)) := by
  cases phase with
  | makingTarget m =>
    rw [Phase.after]
    cases hafter : m.after (.error e) with
    | more m' => exact ⟨h.1, h.2.1, stays_of_after_more hafter h.2.2.1, (Making.after_more hafter).2.trans h.2.2.2⟩
    | made => cases (Making.after_made hafter).1
    | failed e => exact Or.inl h.2.1
  | clearingStaging =>
    by_cases hnone : e = .noEntry
    · subst hnone
      exact holds_stage hplaced haccepted h.1 h.2 rfl (staged_of_missing (he rfl))
    · rw [Phase.after]
      · exact Or.inl h.2
      · exact hnone
  | makingParent m a rest =>
    rw [Phase.after]
    cases hafter : m.after (.error e) with
    | more m' => exact ⟨h.1, h.2.1, h.2.2.1, stays_of_after_more hafter h.2.2.2⟩
    | made => cases (Making.after_made hafter).1
    | failed e => exact ⟨h.1, h.2.1⟩
  | writing a rest => exact ⟨h.1, h.2.1⟩
  | clearingBackup =>
    by_cases hnone : e = .noEntry
    · subst hnone
      exact ⟨h.1, h.2.1, h.2.2, fun hfails => he hfails rfl⟩
    · rw [Phase.after]
      · exact ⟨h.1, h.2.1⟩
      · exact hnone
  | looking => exact h
  | settingAside => exact ⟨h.1, h.2.1⟩
  | swapping previous =>
    cases previous with
    | false => exact ⟨h.1, h.2.1⟩
    | true => exact h
  | restoring error => exact absurd he id
  | clearingPrevious => exact ⟨h.1, h.2.1, he⟩
  | cleaning error =>
    cases error with
    | none =>
      by_cases hnone : e = .noEntry
      · subst hnone
        exact ⟨rfl, h.1.frame, h.2.1, fun hfails => ⟨he hfails rfl, h.2.2 hfails⟩⟩
      · rw [Phase.after]
        · exact Or.inr ⟨e, rfl, h.2.1.complete⟩
        · exact hnone
    | some error =>
      by_cases hnone : e = .noEntry
      · subst hnone
        exact Or.inl h.2
      · rw [Phase.after]
        · exact Or.inl h.2
        · exact hnone
  | finished result => exact h

end Job

end Workflow
