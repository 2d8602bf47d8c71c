import Mathlib
import Workflow.Proofs.Disk.Alike
import Workflow.Proofs.Install.Runs

/-!
# What a job sees of a disk

Once the directory of a job is there, the job looks at nothing but the way to it and its own three entries. On two disks that agree
there (`Job.Agree`) every step acts alike and is a change of these entries (`Job.Agree.step`). So a change elsewhere does not
matter to the job (`Job.Agree.edited_other`).
-/

namespace Workflow

open Disk

namespace Job

variable {j other : Job} {initial d d' : Disk} {places : List Spot} {base s : Spot} {name : String} {fails : Bool}

/-- The names of the three entries. -/
def ownNames (j : Job) : List String := [j.root, j.stagingName, j.backupName]

/-- What is at one of the three entries or below has its name. -/
theorem own_iff : j.Own base s ↔ ∃ name ∈ j.ownNames, base ++ [name] <+: s := by
  simp [Own, ownNames]

/-- Every one of the three entries has a name that leads down. -/
theorem Accepted.isName (h : j.Accepted) (hname : name ∈ j.ownNames) : IsName name := by
  rw [ownNames, List.mem_cons, List.mem_cons, List.mem_singleton] at hname
  rcases hname with rfl | rfl | rfl
  · exact h.isName_root
  · exact isName_stagingName
  · exact isName_backupName

/-- One of the three entries is their own. -/
theorem own_of_mem (hname : name ∈ j.ownNames) : j.Own base (base ++ [name]) :=
  own_iff.mpr ⟨name, hname, List.prefix_rfl⟩

/-- The way to the directory of a job comes through none of its entries, from whichever one looks. -/
theorem Placed.not_prefix_way (h : j.Placed initial places base) (hs : j.Own base s) {t : Spot} (ht : t = [] ∨ t ∈ places) :
    ¬s <+: t := by
  intro hst
  have hown : j.Own base t := hs.imp (·.trans hst) (Or.imp (·.trans hst) (·.trans hst))
  rcases ht with rfl | ht
  · obtain ⟨name, -, hprefix⟩ := own_iff.mp hown
    exact List.append_ne_nil_of_right_ne_nil _ (List.cons_ne_nil _ _) (List.prefix_nil.mp hprefix)
  · exact h.not_own ht hown

/-- The directory of a job is on the way to it. -/
theorem Placed.base_on_way (h : j.Placed initial places base) : base = [] ∨ base ∈ places :=
  (h.trail.mem_of_prefix.2 base List.prefix_rfl).imp_left List.prefix_nil.mp

/-- Two disks are the same to a job: on the way to its directory, and at its three entries. -/
structure Agree (j : Job) (places : List Spot) (base : Spot) (d d' : Disk) : Prop where
  way (s : Spot) : s = [] ∨ s ∈ places → d'.stand? s = d.stand? s
  entries (name : String) : name ∈ j.ownNames → d'.find? (base ++ [name]) = d.find? (base ++ [name])

namespace Agree

/-- A disk is the same as itself. -/
theorem refl (j : Job) (places : List Spot) (base : Spot) (d : Disk) : j.Agree places base d d := ⟨fun _ _ => rfl, fun _ _ => rfl⟩

/-- The same is found at the three entries and below. -/
theorem find? (h : j.Agree places base d d') (hs : j.Own base s) : d'.find? s = d.find? s := by
  obtain ⟨name, hname, inside, rfl⟩ := own_iff.mp hs
  rw [d'.find?_append (base ++ [name]), d.find?_append (base ++ [name]), h.entries name hname]

/-- The same stands at the three entries and below. -/
theorem stand? (h : j.Agree places base d d') (hs : j.Own base s) : d'.stand? s = d.stand? s := by
  rw [Entry.stand?, Entry.stand?, h.find? hs]

/-- The directory is there on both disks or on none. -/
theorem stand?_base (h : j.Agree places base d d') (hplaced : j.Placed initial places base) : d'.stand? base = d.stand? base :=
  h.way base hplaced.base_on_way

/-- The same replacement at the three entries or below leaves the disks the same to the job. -/
theorem replace (h : j.Agree places base d d') (hplaced : j.Placed initial places base) (hbase : d.stand? base = some .dir)
    (hs : j.Own base s) (new : Option Entry) : j.Agree places base (d.replace s new) (d'.replace s new) := by
  refine ⟨fun t ht => ?_, fun name hname => ?_⟩
  · have hapart := hplaced.not_prefix_way hs ht
    rw [Entry.stand?_replace_of_not_prefix hapart, Entry.stand?_replace_of_not_prefix hapart, h.way t ht]
  · obtain ⟨name', -, inside, rfl⟩ := own_iff.mp hs
    by_cases hsame : name' = name
    · subst hsame
      have hbase' := (h.stand?_base hplaced).trans hbase
      rw [Entry.find?_replace_entry hbase, Entry.find?_replace_entry hbase', h.entries name' hname]
    · have hapart := apart_of_ne base hsame inside
      rw [Entry.find?_replace_of_apart hapart.1 hapart.2, Entry.find?_replace_of_apart hapart.1 hapart.2, h.entries name hname]

/-- The same replacements at the three entries or below leave the disks the same to the job. -/
theorem edited (h : j.Agree places base d d') (hplaced : j.Placed initial places base) (hbase : d.stand? base = some .dir)
    {edits : List (Spot × Option Entry)} (hedits : ∀ edit ∈ edits, j.Own base edit.1) :
    j.Agree places base (d.edited edits) (d'.edited edits) := by
  induction edits generalizing d d' with
  | nil => exact h
  | cons edit edits ih =>
    rw [List.forall_mem_cons] at hedits
    refine ih (h.replace hplaced hbase hedits.1 edit.2) ?_ hedits.2
    rw [Entry.stand?_replace_of_not_prefix (hplaced.not_prefix_way hedits.1 hplaced.base_on_way), hbase]

/-- Replacements at the entries of a job for another package do not matter. -/
theorem edited_other (h : j.Agree places base d d') (hother : other.Placed initial places base)
    (hapart : ∀ name ∈ j.ownNames, name ∉ other.ownNames) {edits : List (Spot × Option Entry)}
    (hedits : ∀ edit ∈ edits, other.Own base edit.1) : j.Agree places base d (d'.edited edits) := by
  refine edited_induction h fun d' h edit hedit => ⟨fun t ht => ?_, fun name hname => ?_⟩
  · rw [Entry.stand?_replace_of_not_prefix (hother.not_prefix_way (hedits edit hedit) ht), h.way t ht]
  · obtain ⟨name', hname', inside, hspot⟩ := own_iff.mp (hedits edit hedit)
    have hne : name' ≠ name := fun hx => hapart name hname (hx ▸ hname')
    have hfree := apart_of_ne base hne inside
    rw [← hspot, Entry.find?_replace_of_apart hfree.1 hfree.2, h.entries name hname]

/-- Directories that appear on the way do not matter to a job whose directory is there. -/
theorem extended (h : j.Agree places base d d') (hplaced : j.Placed initial places base) (hready : j.Ready places base d) {d₁ : Disk}
    (hextends : Extends places d' d₁) : j.Agree places base d d₁ := by
  obtain ⟨left, hleads⟩ := hready
  refine ⟨fun t ht => ?_, fun name hname => ?_⟩
  · rcases hextends.stand t with hsame | ⟨hplace, hnone, -⟩
    · rw [hsame, h.way t ht]
    · rw [h.way t ht] at hnone
      exact absurd hnone (hleads.stand?_ne_none t hplace)
  · rw [hextends.find _ fun p hp => hplaced.not_prefix_way (own_of_mem hname) (Or.inr hp), h.entries name hname]

end Agree

/-! ## Steps -/

/-- The trail of the staged package. -/
theorem exists_trail_of_staged (hplaced : j.Placed initial places base) (haccepted : j.Accepted) {done : List Artifact}
    (hground : j.Grounded initial places base d) (hstaged : j.Staged base done d) :
    ∃ way goal, Trail d [] j.staged way goal ∧ ∀ s ∈ way, s ∈ places ∨ j.Own base s := by
  have hbase := hground.frame.trail hplaced
  obtain ⟨idle, hdir, hidle⟩ := Path.exists_stem_append j.dir
  rw [hdir] at hbase
  have hstaging : Trail d base [j.stagingName] [base ++ [j.stagingName]] (base ++ [j.stagingName]) :=
    .down isName_stagingName (by simpa using hstaged.plain []) (.done _)
  have hroot : Trail d (base ++ [j.stagingName]) [j.root] [base ++ [j.stagingName] ++ [j.root]]
      (base ++ [j.stagingName] ++ [j.root]) :=
    .down haccepted.isName_root (hstaged.plain [j.root]) (.done _)
  rw [staged_eq]
  refine ⟨_, _, ((hbase.cut hidle).append hstaging).append hroot, fun s hs => ?_⟩
  rw [List.mem_append, List.mem_append, List.mem_singleton, List.mem_singleton] at hs
  rcases hs with (hs | rfl) | rfl
  · exact Or.inl hs
  · exact Or.inr own_staging
  · exact Or.inr (own_staging.append [j.root])

namespace Agree

/-- A path along the way to the directory and at the three entries sees the same. -/
theorem stand?_of_way (h : j.Agree places base d d') {way : List Spot} (hway : ∀ s ∈ way, s ∈ places ∨ j.Own base s)
    (hs : s = [] ∨ s ∈ way) : d'.stand? s = d.stand? s := by
  rcases hs with hs | hs
  · exact h.way s (Or.inl hs)
  · exact (hway s hs).elim (fun hx => h.way s (Or.inr hx)) h.stand?

/-- An entry of the directory has the same place. -/
theorem resolve_entry (h : j.Agree places base d d') (hready : j.Ready places base d) (hname : IsName name) :
    resolve d' false (j.dir.stem ++ [name]) = resolve d false (j.dir.stem ++ [name]) := by
  obtain ⟨left, hleads⟩ := hready
  exact hleads.resolve_entry_congr (hleads.congr fun t ht => h.way t (Or.inr ht)) hname

/-- At an entry of the job the same is found where its path is resolved to. -/
theorem find?_resolve (h : j.Agree places base d d') (haccepted : j.Accepted) (hground : j.Grounded initial places base d)
    (hname : name ∈ j.ownNames) {t : Spot} (ht : resolve d false (j.dir.stem ++ [name]) = .ok t) :
    j.Own base t ∧ d'.find? t = d.find? t := by
  obtain rfl := hground.eq_of_resolve (haccepted.isName hname) ht
  exact ⟨own_of_mem hname, h.entries name hname⟩

/-- A removal at an entry of the job acts alike. -/
theorem alike_removeOne (h : j.Agree places base d d') (haccepted : j.Accepted) (hground : j.Grounded initial places base d)
    (hname : name ∈ j.ownNames) :
    Alike (j.Own base) d d' (removeOne d (j.dir.stem ++ [name])) (removeOne d' (j.dir.stem ++ [name])) :=
  Disk.alike_removeOne (h.resolve_entry hground.ready (haccepted.isName hname)) fun _ ht =>
    h.find?_resolve haccepted hground hname ht

/-- A move from an entry of the job to another one acts alike. -/
theorem alike_rename (h : j.Agree places base d d') (haccepted : j.Accepted) (hground : j.Grounded initial places base d)
    {target : String} (hname : name ∈ j.ownNames) (htarget : target ∈ j.ownNames) :
    Alike (j.Own base) d d' (rename d (j.dir.stem ++ [name]) (j.dir.stem ++ [target]))
      (rename d' (j.dir.stem ++ [name]) (j.dir.stem ++ [target])) :=
  Disk.alike_rename (h.resolve_entry hground.ready (haccepted.isName hname))
    (fun _ ht => h.find?_resolve haccepted hground hname ht) (h.resolve_entry hground.ready (haccepted.isName htarget))
    fun _ ht => h.find?_resolve haccepted hground htarget ht

/-- The move of the staged package to its place acts alike. -/
theorem alike_swap (h : j.Agree places base d d') (hplaced : j.Placed initial places base) (haccepted : j.Accepted)
    (hground : j.Grounded initial places base d) (hstaged : j.Staged base j.artifacts d) :
    Alike (j.Own base) d d' (rename d j.staged j.destination) (rename d' j.staged j.destination) := by
  obtain ⟨way, goal, htrail, hway⟩ := exists_trail_of_staged hplaced haccepted hground hstaged
  have hroot : j.root ∈ j.ownNames := List.mem_cons_self
  rw [destination_eq]
  refine Disk.alike_rename (htrail.resolve_congr fun t ht => h.stand?_of_way hway (Or.inr ht)) (fun t ht => ?_)
    (h.resolve_entry hground.ready haccepted.isName_root) fun t ht => h.find?_resolve haccepted hground hroot ht
  obtain ⟨left, hleads⟩ := hground.ready
  rw [staged_eq] at ht
  obtain rfl := hleads.eq_of_resolve_inside isName_stagingName haccepted.isName_root (hstaged.stand?_staging haccepted) ht
  have hown : j.Own base (base ++ [j.stagingName] ++ [j.root]) := own_staging.append [j.root]
  exact ⟨hown, h.find? hown⟩

/-- Once the directory of a job is there, its operations act alike on disks that are the same to it. -/
theorem alike (h : j.Agree places base d d') (hplaced : j.Placed initial places base) (haccepted : j.Accepted) {phase : Phase}
    {a : Action} (hholds : j.Holds initial places base fails d phase) (hpast : ∀ m, phase ≠ .makingTarget m)
    (ha : phase.action? j = some a) : Alike (j.Own base) d d' (d.outcome a) (d'.outcome a) := by
  have hroot : j.root ∈ j.ownNames := List.mem_cons_self
  have hstaging : j.stagingName ∈ j.ownNames := List.mem_cons_of_mem _ List.mem_cons_self
  have hbackup : j.backupName ∈ j.ownNames := List.mem_cons_of_mem _ (List.mem_cons_of_mem _ List.mem_cons_self)
  cases phase with
  | makingTarget m => exact absurd rfl (hpast m)
  | clearingStaging =>
    cases ha
    rw [Disk.outcome, Disk.outcome, staging_eq]
    exact h.alike_removeOne haccepted hholds.1 hstaging
  | makingParent m a rest =>
    cases ha
    obtain ⟨hground, -, -, hstays⟩ := hholds
    obtain ⟨way, goal, htrail, hway⟩ := hstays m.current List.mem_cons_self
    have hown : ∀ s ∈ way, s ∈ places ∨ j.Own base s := fun s hs => (hway s hs).imp_right fun hx => by
      obtain ⟨a, -, names, rfl, -⟩ := hx
      exact own_staging.append names
    refine htrail.alike_ensureDir (hground.frame.top hplaced) (fun s hs => h.stand?_of_way hown hs) fun s hs hnone => ?_
    obtain ⟨left, hleads⟩ := hground.ready
    exact (hown s hs).resolve_left fun hplace => hleads.stand?_ne_none s hplace hnone
  | writing a rest =>
    cases ha
    obtain ⟨hground, -, done, hall, hstaged⟩ := hholds
    have ha : a ∈ j.artifacts := hall ▸ List.mem_append_right _ List.mem_cons_self
    obtain ⟨way, htrail, hway⟩ := exists_trail_of_stagedFile hplaced haccepted hground.frame hstaged.plain ha
    have hown : ∀ s ∈ way, s ∈ places ∨ j.Own base s := fun s hs => (hway s hs).imp_right fun hx => by
      obtain ⟨a, -, names, rfl, -⟩ := hx
      exact own_staging.append names
    exact htrail.alike_write (hground.frame.top hplaced) (fun s hs => h.stand?_of_way hown hs) (own_staging.append a.names) _
  | clearingBackup =>
    cases ha
    rw [Disk.outcome, Disk.outcome, backup_eq]
    exact h.alike_removeOne haccepted hholds.1 hbackup
  | looking =>
    cases ha
    rw [Disk.outcome, Disk.outcome, destination_eq]
    exact alike_look (h.resolve_entry hholds.1.ready haccepted.isName_root) fun _ ht =>
      (h.find?_resolve haccepted hholds.1 hroot ht).2
  | settingAside =>
    cases ha
    rw [Disk.outcome, Disk.outcome, destination_eq, backup_eq]
    exact h.alike_rename haccepted hholds.1 hroot hbackup
  | swapping previous =>
    cases ha
    cases previous with
    | false => exact h.alike_swap hplaced haccepted hholds.1 hholds.2.2.1
    | true => exact h.alike_swap hplaced haccepted hholds.1 hholds.2.2
  | restoring error =>
    cases ha
    rw [Disk.outcome, Disk.outcome, destination_eq, backup_eq]
    exact h.alike_rename haccepted hholds.1 hbackup hroot
  | clearingPrevious =>
    cases ha
    rw [Disk.outcome, Disk.outcome, backup_eq]
    exact h.alike_removeOne haccepted hholds.1 hbackup
  | cleaning error =>
    cases ha
    rw [Disk.outcome, Disk.outcome, staging_eq]
    cases error with
    | none => exact h.alike_removeOne haccepted hholds.1 hstaging
    | some error => exact h.alike_removeOne haccepted hholds.1 hstaging
  | finished result => cases ha

/-- Once the directory of a job is there, a step goes to the same phase on disks that are the same to the job, and makes the same
replacements, all at its own entries. -/
theorem step (h : j.Agree places base d d') (hplaced : j.Placed initial places base) (haccepted : j.Accepted) {phase : Phase}
    (hholds : j.Holds initial places base fails d phase) (hpast : ∀ m, phase ≠ .makingTarget m) :
    ∃ edits next, (∀ edit ∈ edits, j.Own base edit.1) ∧ Install.step j none d phase = (d.edited edits, next) ∧
      Install.step j none d' phase = (d'.edited edits, next) := by
  cases ha : phase.action? j with
  | none =>
    refine ⟨[], phase, fun _ hx => absurd hx List.not_mem_nil, ?_, ?_⟩ <;> simp only [Install.step, ha] <;> rfl
  | some a =>
    have halike := h.alike hplaced haccepted hholds hpast ha
    simp only [Install.step, ha, perform_eq]
    generalize d.outcome a = r, d'.outcome a = r' at halike
    cases halike with
    | failed e => exact ⟨[], _, fun _ hx => absurd hx List.not_mem_nil, rfl, rfl⟩
    | done edits hedits => exact ⟨edits, _, hedits, rfl, rfl⟩

end Agree

end Job

end Workflow
