import Mathlib
import Workflow.Proofs.Disk.Alike
import Workflow.Proofs.Disk.Content
import Workflow.Proofs.Install.Agree

/-!
# Jobs for one package

Jobs that install files under one name in one directory share their three entries, and one may remove, move or swap in what another
has written. What stands in the place of the package then need not be the package of any of them. But all of it comes from
somewhere (`Job.Shared`): it is what the former occupant had in that place, or a whole file of one of the jobs, or a directory on the
way to one. Here `j` stands for all jobs together, with the files of all of them; a single one carries a part (`Job.carrying`).
-/

namespace Workflow

open Disk

namespace Job

variable {j : Job} {initial d d' : Disk} {places : List Spot} {base : Spot} {artifacts : List Artifact} {phase : Phase}

/-! ## Where things come from -/

/-- A file of a job under its names, or a directory on the way to one. -/
def Listed (j : Job) (names : Spot) (stand : Stand) : Prop :=
  ∃ a ∈ j.artifacts, stand = .file a.contents.toUTF8 ∧ names = a.names ∨ stand = .dir ∧ names <+: a.names

/-- Something that the former occupant had in its place, or something listed. -/
def Known (j : Job) (initial : Disk) (base inside : Spot) (stand : Stand) : Prop :=
  (∃ e, initial.find? (base ++ [j.root]) = some e ∧ e.Has inside stand) ∨ j.Listed (j.root :: inside) stand

/-- All that is on its way to the place of the package is listed. -/
def StagingKnown (j : Job) (base : Spot) (d : Disk) : Prop := Entry.Only j.Listed (d.find? (base ++ [j.stagingName]))

/-- All that is in the place of the package is known. -/
def PackageKnown (j : Job) (initial : Disk) (base : Spot) (d : Disk) : Prop :=
  Entry.Only (j.Known initial base) (d.find? (base ++ [j.root]))

/-- All that has been set aside is known. -/
def BackupKnown (j : Job) (initial : Disk) (base : Spot) (d : Disk) : Prop :=
  Entry.Only (j.Known initial base) (d.find? (base ++ [j.backupName]))

/-- What is so whatever the jobs are doing. -/
structure Shared (j : Job) (initial : Disk) (places : List Spot) (base : Spot) (d : Disk) : Prop where
  frame : j.Frame initial places base d
  package : j.PackageKnown initial base d

/-- What else is so while one of the jobs is in a phase. -/
def Shares (j : Job) (initial : Disk) (places : List Spot) (base : Spot) (d : Disk) : Phase → Prop
  | .makingTarget m => (∀ p ∈ m.paths, Stays d (· ∈ places) p) ∧ m.paths.getLast? = some j.dir
  | .makingParent m a rest => j.Ready places base d ∧ j.StagingKnown base d ∧ a ∈ j.artifacts ∧ (∀ b ∈ rest, b ∈ j.artifacts) ∧
      ∀ p ∈ m.paths, Stays d (j.OnTheWay places base) p
  | .writing a rest => j.Ready places base d ∧ j.StagingKnown base d ∧ a ∈ j.artifacts ∧ ∀ b ∈ rest, b ∈ j.artifacts
  | .clearingBackup => j.Ready places base d ∧ j.StagingKnown base d
  | .looking | .settingAside | .swapping _ => j.Ready places base d ∧ j.StagingKnown base d ∧ j.BackupKnown initial base d
  | .restoring _ => j.Ready places base d ∧ j.BackupKnown initial base d
  | .clearingStaging | .clearingPrevious | .cleaning _ => j.Ready places base d
  | .finished _ => True

/-- What a step of one job may not undo for the others. -/
structure Tame (j : Job) (initial : Disk) (places : List Spot) (base : Spot) (d d' : Disk) : Prop where
  ready : j.Ready places base d → j.Ready places base d'
  links : ∀ s ∈ places, ∀ target, d'.stand? s = some (.link target) ↔ d.stand? s = some (.link target)
  staging : j.StagingKnown base d → j.StagingKnown base d'
  backup : j.BackupKnown initial base d → j.BackupKnown initial base d'

/-- A file of a job is listed. -/
theorem listed_file {a : Artifact} (ha : a ∈ j.artifacts) : j.Listed a.names (.file a.contents.toUTF8) :=
  ⟨a, ha, Or.inl ⟨rfl, rfl⟩⟩

/-- There is no link among what is listed. -/
theorem StagingKnown.plain (h : j.StagingKnown base d) (names : Spot) (target : String) :
    d.stand? (base ++ [j.stagingName] ++ names) ≠ some (.link target) := by
  intro hlink
  obtain ⟨e, hfind, hstand⟩ := Option.map_eq_some_iff.mp hlink
  rw [Entry.find?_append] at hfind
  obtain ⟨found, hfound, hfind⟩ := Option.bind_eq_some_iff.mp hfind
  have hhas : found.Has names (.link target) := Entry.has_of_stand? (by rw [Entry.stand?, hfind, ← hstand]; rfl)
  obtain ⟨a, -, ⟨hfile, -⟩ | ⟨hdir, -⟩⟩ := h found hfound names _ hhas
  · cases hfile
  · cases hdir

/-- Only what is listed has been set aside when nothing has. -/
theorem backupKnown_of_missing (h : d.find? (base ++ [j.backupName]) = none) : j.BackupKnown initial base d := by
  rw [BackupKnown, h]
  exact Entry.only_none

/-- Only what is listed is on its way when nothing is. -/
theorem stagingKnown_of_missing (h : d.find? (base ++ [j.stagingName]) = none) : j.StagingKnown base d := by
  rw [StagingKnown, h]
  exact Entry.only_none

/-! ## What others do -/

/-- What is so while a job is in a phase is still so after a tame step of another one. -/
theorem Shares.tame (h : j.Shares initial places base d phase) (htame : j.Tame initial places base d d') :
    j.Shares initial places base d' phase := by
  have hway : j.StagingKnown base d → ∀ p, Stays d (j.OnTheWay places base) p → Stays d' (j.OnTheWay places base) p := by
    rintro hstaging p ⟨way, goal, htrail, hallowed⟩
    refine ⟨way, goal, htrail.congr fun s hs target => ?_, hallowed⟩
    rcases hallowed s hs with hplace | ⟨-, -, names, rfl, -⟩
    · exact htame.links s hplace target
    · exact iff_of_false ((htame.staging hstaging).plain names target) (hstaging.plain names target)
  cases phase with
  | makingTarget m =>
    refine ⟨fun p hp => ?_, h.2⟩
    obtain ⟨way, goal, htrail, hallowed⟩ := h.1 p hp
    exact ⟨way, goal, htrail.congr fun s hs target => htame.links s (hallowed s hs) target, hallowed⟩
  | makingParent m a rest =>
    exact ⟨htame.ready h.1, htame.staging h.2.1, h.2.2.1, h.2.2.2.1, fun p hp => hway h.2.1 p (h.2.2.2.2 p hp)⟩
  | writing a rest => exact ⟨htame.ready h.1, htame.staging h.2.1, h.2.2⟩
  | clearingBackup => exact ⟨htame.ready h.1, htame.staging h.2⟩
  | looking | settingAside | swapping => exact ⟨htame.ready h.1, htame.staging h.2.1, htame.backup h.2.2⟩
  | restoring => exact ⟨htame.ready h.1, htame.backup h.2⟩
  | clearingStaging | clearingPrevious | cleaning => exact htame.ready h
  | finished => trivial

/-! ## Changes -/

/-- Where nothing changes, nothing is undone. -/
theorem Tame.refl (j : Job) (initial : Disk) (places : List Spot) (base : Spot) (d : Disk) : j.Tame initial places base d d :=
  ⟨id, fun _ _ _ => Iff.rfl, id, id⟩

/-- Missing directories of the way may appear. -/
theorem Shared.extended (h : j.Shared initial places base d) (hplaced : j.Placed initial places base)
    (hextends : Extends places d d') : j.Shared initial places base d' ∧ j.Tame initial places base d d' := by
  have hentry : ∀ name ∈ j.ownNames, d'.find? (base ++ [name]) = d.find? (base ++ [name]) := fun name hname =>
    hextends.find _ fun p hp => hplaced.not_prefix_way (own_of_mem hname) (Or.inr hp)
  refine ⟨⟨fun s hs => ?_, ?_⟩, ?_, fun s hs target => ?_, ?_, ?_⟩
  · rcases hextends.stand s with hsame | ⟨hplace, hnone, hdir⟩
    · rw [hsame]
      exact h.frame s hs
    · refine Or.inr ⟨hplace, ?_, hdir⟩
      rcases h.frame s hs with hsame | ⟨-, -, hdir'⟩
      · rw [← hsame, hnone]
      · rw [hnone] at hdir'
        cases hdir'
  · rw [PackageKnown, hentry j.root List.mem_cons_self]
    exact h.package
  · rintro ⟨left, hleads⟩
    exact ⟨left, (hextends.grows places).leads hleads⟩
  · rcases hextends.stand s with hsame | ⟨-, hnone, hdir⟩
    · rw [hsame]
    · rw [hnone, hdir]
      exact iff_of_false (fun hx => by cases hx) (fun hx => by cases hx)
  · rw [StagingKnown, StagingKnown, hentry j.stagingName (List.mem_cons_of_mem _ List.mem_cons_self)]
    exact id
  · rw [BackupKnown, BackupKnown, hentry j.backupName (List.mem_cons_of_mem _ (List.mem_cons_of_mem _ List.mem_cons_self))]
    exact id

/-- The three entries may change if what they have then is known. -/
theorem Shared.edited (h : j.Shared initial places base d) (hplaced : j.Placed initial places base)
    {edits : List (Spot × Option Entry)} (hedits : ∀ edit ∈ edits, j.Own base edit.1)
    (hpackage : j.PackageKnown initial base (d.edited edits))
    (hstaging : j.StagingKnown base d → j.StagingKnown base (d.edited edits))
    (hbackup : j.BackupKnown initial base d → j.BackupKnown initial base (d.edited edits)) :
    j.Shared initial places base (d.edited edits) ∧ j.Tame initial places base d (d.edited edits) := by
  refine ⟨⟨edited_induction h.frame fun d hframe edit hedit => hframe.replace (hedits edit hedit) edit.2, hpackage⟩,
    fun hready => edited_induction hready fun d hready edit hedit => hready.replace hplaced (hedits edit hedit) edit.2,
    fun s hs target => ?_, hstaging, hbackup⟩
  rw [stand?_edited fun edit hedit => hplaced.not_prefix_way (hedits edit hedit) (Or.inr hs)]

/-! ## Operations -/

section Operations

variable (h : j.Shared initial places base d) (hplaced : j.Placed initial places base) (hready : j.Ready places base d)

include h hplaced hready

/-- A removal at one of the three entries is tame. -/
theorem shared_of_removeOne (haccepted : j.Accepted) {name : String} (hname : name ∈ j.ownNames)
    (hop : removeOne d (j.dir.stem ++ [name]) = .ok d') :
    j.Shared initial places base d' ∧ j.Tame initial places base d d' := by
  have hground : j.Grounded initial places base d := ⟨h.frame, hready⟩
  obtain ⟨s, e, hs, hfind, rfl⟩ := Disk.removeOne_eq_ok hop
  obtain rfl := hground.eq_of_resolve (haccepted.isName hname) hs
  have honly : ∀ {allowed} name', Entry.Only allowed (d.find? (base ++ [name'])) →
      Entry.Only allowed (Entry.find? (d.replace (base ++ [name]) e.shed) (base ++ [name'])) := by
    intro allowed name' hold
    by_cases hsame : name' = name
    · subst hsame
      have hfound := Entry.find?_replace_entry (hground.stand?_base hplaced) name' [] e.shed
      rw [List.append_nil, if_pos rfl] at hfound
      rw [hfound]
      exact (hfind ▸ hold).shed
    · have hapart := apart_at base (Ne.symm hsame)
      rwa [Entry.find?_replace_of_apart hapart.1 hapart.2]
  have hown : ∀ edit ∈ [(base ++ [name], e.shed)], j.Own base edit.1 := List.forall_mem_singleton.mpr (own_of_mem hname)
  exact h.edited hplaced hown (honly _ h.package) (honly _) (honly _)

/-- Putting something listed into the staging directory is tame. -/
theorem shared_of_staging {names : Spot} {new : Entry} (hnew : Entry.Only (fun t => j.Listed (names ++ t)) (some new)) :
    j.Shared initial places base (d.replace (base ++ [j.stagingName] ++ names) (some new)) ∧
      j.Tame initial places base d (d.replace (base ++ [j.stagingName] ++ names) (some new)) := by
  have hground : j.Grounded initial places base d := ⟨h.frame, hready⟩
  have hother : ∀ name, j.stagingName ≠ name →
      Entry.find? (d.replace (base ++ [j.stagingName] ++ names) (some new)) (base ++ [name]) = d.find? (base ++ [name]) :=
    fun name hne => Entry.find?_replace_of_apart (apart_of_ne base hne names).1 (apart_of_ne base hne names).2 _
  have hown : ∀ edit ∈ [(base ++ [j.stagingName] ++ names, some new)], j.Own base edit.1 :=
    List.forall_mem_singleton.mpr (own_staging.append names)
  refine h.edited hplaced hown ?_ (fun hstaging => ?_) fun hbackup => ?_
  · exact h.package.of_eq (hother _ stagingName_ne_root)
  · refine Entry.Only.of_eq ?_ (Entry.find?_replace_entry (hground.stand?_base hplaced) j.stagingName names (some new))
    by_cases hnames : names = []
    · subst hnames
      rw [if_pos rfl]
      exact hnew
    · rw [if_neg hnames]
      rw [StagingKnown] at hstaging
      cases hfind : d.find? (base ++ [j.stagingName]) with
      | none => exact Entry.only_none
      | some e => exact (hfind ▸ hstaging).replace hnew
  · exact hbackup.of_eq (hother _ stagingName_ne_backupName)

/-- What is at the entries after a move between two of them. -/
theorem exists_of_rename (haccepted : j.Accepted) {source target : String} (hsource : source ∈ j.ownNames)
    (htarget : target ∈ j.ownNames) (hne : source ≠ target)
    (hop : rename d (j.dir.stem ++ [source]) (j.dir.stem ++ [target]) = .ok d') :
    ∃ edits, (∀ edit ∈ edits, j.Own base edit.1) ∧ d' = d.edited edits ∧
      d'.find? (base ++ [target]) = d.find? (base ++ [source]) ∧ d'.find? (base ++ [source]) = none ∧
      ∀ name, name ≠ source → name ≠ target → d'.find? (base ++ [name]) = d.find? (base ++ [name]) := by
  have hground : j.Grounded initial places base d := ⟨h.frame, hready⟩
  have hbase := hground.stand?_base hplaced
  obtain ⟨-, -, e, he, rfl⟩ := rename_eq_ok (fun s hs => hground.eq_of_resolve (haccepted.isName hsource) hs)
    (fun s hs => hground.eq_of_resolve (haccepted.isName htarget) hs) (entry_ne hne) hop
  refine ⟨[(base ++ [source], none), (base ++ [target], some e)], ?_, rfl, ?_, ?_, fun name hsource hname => ?_⟩
  · exact List.forall_mem_cons.mpr ⟨own_of_mem hsource, List.forall_mem_singleton.mpr (own_of_mem htarget)⟩
  · have hmoved := find?_moved_target hbase (by simpa using not_prefix_base source []) target e []
    rw [List.append_nil, Entry.find?_nil] at hmoved
    rw [hmoved, he]
  · exact find?_moved_source hbase (apart_at base hne.symm).1 (apart_at base hne.symm).2 e
  · exact find?_moved_apart (apart_at base hsource.symm) (apart_at base hname.symm) e

/-- Setting the package aside is tame. -/
theorem shared_of_settingAside (haccepted : j.Accepted) (hop : rename d j.destination j.backup = .ok d') :
    j.Shared initial places base d' ∧ j.Tame initial places base d d' := by
  rw [destination_eq, backup_eq] at hop
  obtain ⟨edits, hedits, rfl, htarget, hsource, hother⟩ := exists_of_rename h hplaced hready haccepted List.mem_cons_self
    (List.mem_cons_of_mem _ (List.mem_cons_of_mem _ List.mem_cons_self)) backupName_ne_root.symm hop
  refine h.edited hplaced hedits ?_ (fun hstaging => ?_) fun _ => ?_
  · exact Entry.only_none.of_eq hsource
  · exact hstaging.of_eq (hother _ stagingName_ne_root stagingName_ne_backupName)
  · exact h.package.of_eq htarget

/-- Putting back what has been set aside is tame, if that is known. -/
theorem shared_of_restoring (haccepted : j.Accepted) (hbackup : j.BackupKnown initial base d)
    (hop : rename d j.backup j.destination = .ok d') :
    j.Shared initial places base d' ∧ j.Tame initial places base d d' := by
  rw [destination_eq, backup_eq] at hop
  obtain ⟨edits, hedits, rfl, htarget, hsource, hother⟩ := exists_of_rename h hplaced hready haccepted
    (List.mem_cons_of_mem _ (List.mem_cons_of_mem _ List.mem_cons_self)) List.mem_cons_self backupName_ne_root hop
  refine h.edited hplaced hedits ?_ (fun hstaging => ?_) fun _ => ?_
  · exact hbackup.of_eq htarget
  · exact hstaging.of_eq (hother _ stagingName_ne_backupName stagingName_ne_root)
  · exact Entry.only_none.of_eq hsource

/-- Swapping in what is on its way is tame, if that is listed. -/
theorem shared_of_swapping (haccepted : j.Accepted) (hstaging : j.StagingKnown base d)
    (hop : rename d j.staged j.destination = .ok d') :
    j.Shared initial places base d' ∧ j.Tame initial places base d d' := by
  have hground : j.Grounded initial places base d := ⟨h.frame, hready⟩
  have hbase := hground.stand?_base hplaced
  have hroot := haccepted.isName_root
  have hapart := apart_of_ne base (stagingName_ne_root (j := j)) [j.root]
  obtain ⟨left, hleads⟩ := hready
  have hstart : ∀ s, resolve d false j.staged = .ok s → s = base ++ [j.stagingName] ++ [j.root] := by
    intro s hs
    rw [staged_eq] at hs
    exact hleads.eq_of_resolve_inside isName_stagingName hroot
      (hleads.stand?_of_resolve_inside isName_stagingName (by simpa using hstaging.plain []) hs) hs
  obtain ⟨-, -, e, he, rfl⟩ := rename_eq_ok hstart (fun s hs => hground.eq_of_resolve hroot (destination_eq ▸ hs))
    (fun heq => hapart.1 (heq ▸ List.prefix_rfl)) hop
  have hown : ∀ edit ∈ [(base ++ [j.stagingName] ++ [j.root], none), (base ++ [j.root], some e)], j.Own base edit.1 :=
    List.forall_mem_cons.mpr ⟨own_staging.append [j.root], List.forall_mem_singleton.mpr own_root⟩
  refine h.edited hplaced hown ?_ (fun hstaging => ?_) fun hbackup => ?_
  · have hmoved := find?_moved_target hbase (not_prefix_base j.stagingName [j.root]) j.root e []
    rw [List.append_nil, Entry.find?_nil] at hmoved
    refine Entry.Only.of_eq ?_ hmoved
    rw [Entry.find?_append] at he
    obtain ⟨staging, hfind, he⟩ := Option.bind_eq_some_iff.mp he
    rw [StagingKnown, hfind] at hstaging
    have hbelow := Entry.Only.below hstaging [j.root]
    rw [he] at hbelow
    exact hbelow.mono fun _ _ => Or.inr
  · have hmoved : Entry.find? (Entry.replace (d.replace (base ++ [j.stagingName] ++ [j.root]) none) (base ++ [j.root]) (some e))
        (base ++ [j.stagingName]) = (d.find? (base ++ [j.stagingName])).map (·.replace [j.root] none) := by
      have hentry := apart_at base (stagingName_ne_root (j := j)).symm
      rw [Entry.find?_replace_of_apart hentry.1 hentry.2, Entry.find?_replace_inside _ _ (List.cons_ne_nil _ _)]
    refine Entry.Only.of_eq ?_ hmoved
    rw [StagingKnown] at hstaging
    cases hfind : d.find? (base ++ [j.stagingName]) with
    | none => exact Entry.only_none
    | some staging => exact (hfind ▸ hstaging).replace Entry.only_none
  · refine Entry.Only.of_eq hbackup (find?_moved_apart ?_ ?_ e)
    · exact apart_of_ne base stagingName_ne_backupName [j.root]
    · exact apart_at base backupName_ne_root.symm

end Operations

end Job

end Workflow
