import Mathlib
import Workflow.Proofs.Install.Invariant

/-!
# What an operation that succeeds preserves

For each phase of a job: when its operation succeeds, what holds in the next phase holds of the changed disk. Moves are the places
where something is at stake: the former package is kept as a whole (`holds_of_settingAside`), the new one comes as a whole
(`installed_of_swap`), and the way back is always free (`exists_restore`).
-/

namespace Workflow

open Disk

namespace Job

variable {j : Job} {initial d d' : Disk} {places : List Spot} {base : Spot} {fails : Bool}

/-! ## Changes at another entry -/

/-- A change at another entry keeps what stands in the place of the package. -/
theorem Kept.replace_entry (h : j.Kept initial base d) {name : String} (hname : name ≠ j.root) (new : Option Entry) :
    j.Kept initial base (d.replace (base ++ [name]) new) := by
  have hkept := h.replace hname [] new
  rwa [List.append_nil] at hkept

/-- A change at another entry leaves the package installed. -/
theorem Installed.replace (h : j.Installed base d) {name : String} (hname : name ≠ j.root) (new : Option Entry)
    (hground : j.Grounded initial places base d) (hground' : j.Grounded initial places base (d.replace (base ++ [name]) new))
    (hroot : IsName j.root) : j.Installed base (d.replace (base ++ [name]) new) := by
  refine ⟨fun inside => ?_, ?_⟩
  · rw [Entry.stand?_replace_of_not_prefix (not_prefix_of_ne hname inside)]
    exact h.complete inside
  · rw [destination_eq, hground.resolve_congr hground' hroot, ← destination_eq]
    exact h.destination

/-! ## After an operation that succeeds -/

/-- After a directory of the path has been made. -/
theorem holds_of_makingTarget (hplaced : j.Placed initial places base) {m : Making}
    (h : j.Holds initial places base fails d (.makingTarget m)) (hop : ensureDir d m.current = .ok d') :
    j.Holds initial places base fails d' (.after j (.ok ()) (.makingTarget m)) := by
  obtain ⟨hframe, hkept, hstays, hlast⟩ := h
  have htop := hframe.top hplaced
  have hnext : j.Frame initial places base d' ∧ j.Kept initial base d' ∧ ∀ p ∈ m.paths, Stays d' (· ∈ places) p := by
    rcases ensureDir_eq_ok htop (hstays m.current List.mem_cons_self) hop with rfl | ⟨parent, name, hplace, hparent, hnone, rfl⟩
    · exact ⟨hframe, hkept, hstays⟩
    · have hroot : ¬base ++ [j.root] <+: parent ++ [name] := fun hx => hplaced.not_own hplace (Or.inl hx)
      refine ⟨hframe.replace_empty hplace hparent hnone, ?_, fun p hp => (hstays p hp).replace_empty hparent hnone⟩
      exact (Entry.find?_replace_empty hparent hnone hroot).trans hkept
  rw [Phase.after]
  cases hafter : m.after (.ok ()) with
  | more m' => exact ⟨hnext.1, hnext.2.1, stays_of_after_more hafter hnext.2.2, (Making.after_more hafter).2.trans hlast⟩
  | made =>
    rw [(Making.after_made hafter).2, List.getLast?_singleton, Option.some.injEq] at hlast
    rw [hlast] at hop
    exact ⟨⟨hnext.1, ready_of_ensureDir htop (hframe.trail hplaced) hop⟩, hnext.2.1⟩
  | failed e => exact Or.inl hnext.2.1

/-- After a directory on the way to a file has been made. -/
theorem holds_of_makingParent (hplaced : j.Placed initial places base) {m : Making} {a : Artifact} {rest : List Artifact}
    (h : j.Holds initial places base fails d (.makingParent m a rest)) (hop : ensureDir d m.current = .ok d') :
    j.Holds initial places base fails d' (.after j (.ok ()) (.makingParent m a rest)) := by
  obtain ⟨hground, hkept, ⟨done, hall, hstaged⟩, hstays⟩ := h
  have htop := hground.frame.top hplaced
  have hnext : j.Grounded initial places base d' ∧ j.Kept initial base d' ∧ j.Staged base done d' ∧
      ∀ p ∈ m.paths, Stays d' (j.OnTheWay places base) p := by
    rcases ensureDir_eq_ok htop (hstays m.current List.mem_cons_self) hop with rfl | ⟨parent, name, hplace, hparent, hnone, rfl⟩
    · exact ⟨hground, hkept, hstaged, hstays⟩
    · -- The path of the job leads to its directory, so what is missing is missing in the staging directory.
      rcases hplace with hplace | ⟨a', ha', names, hspot, hprefix⟩
      · obtain ⟨left, hleads⟩ := hground.ready
        exact absurd hnone (hleads.stand?_ne_none _ hplace)
      · have hstaged' := hstaged.replace_empty hspot ⟨a', ha', hprefix⟩ hparent hnone
        have hstays' := fun p hp => (hstays p hp).replace_empty hparent hnone
        rw [hspot] at hstaged' hstays' ⊢
        exact ⟨hground.replace hplaced (own_staging.append names) _, hkept.replace stagingName_ne_root names _,
          hstaged', hstays'⟩
  rw [Phase.after]
  cases hafter : m.after (.ok ()) with
  | more m' => exact ⟨hnext.1, hnext.2.1, ⟨done, hall, hnext.2.2.1⟩, stays_of_after_more hafter hnext.2.2.2⟩
  | made => exact ⟨hnext.1, hnext.2.1, done, hall, hnext.2.2.1⟩
  | failed e => exact ⟨hnext.1, hnext.2.1⟩

/-- After a file has been written. -/
theorem holds_of_writing (hplaced : j.Placed initial places base) (haccepted : j.Accepted) {a : Artifact} {rest : List Artifact}
    (h : j.Holds initial places base fails d (.writing a rest)) (hop : write d (j.stagedFile a) a.contents.toUTF8 = .ok d') :
    j.Holds initial places base fails d' (.after j (.ok ()) (.writing a rest)) := by
  obtain ⟨hground, hkept, done, hall, hstaged⟩ := h
  have ha : a ∈ j.artifacts := hall ▸ List.mem_append_right _ List.mem_cons_self
  obtain ⟨way, htrail, -⟩ := exists_trail_of_stagedFile hplaced haccepted hground.frame hstaged.plain ha
  obtain ⟨-, hplain, ⟨parent, name, hspot, hparent⟩, rfl⟩ := write_eq_ok htrail (hground.frame.top hplaced) hop
  have hground' := hground.replace hplaced (own_staging.append a.names) (some (.file a.contents.toUTF8))
  have hkept' := hkept.replace stagingName_ne_root a.names (some (.file a.contents.toUTF8))
  rw [hspot] at hplain hground' hkept' ⊢
  have hstaged' := hstaged.replace_file hspot.symm hparent hplain
  exact holds_stage hplaced haccepted hground' hkept' (by rw [hall, List.append_assoc, List.singleton_append]) hstaged'

/-- After something has been removed from an old backup. -/
theorem holds_of_clearingBackup (hplaced : j.Placed initial places base) (h : j.Holds initial places base fails d .clearingBackup)
    (hop : removeOne d j.backup = .ok d') : j.Holds initial places base fails d' (.after j (.ok ()) .clearingBackup) := by
  obtain ⟨hground, new, rfl⟩ := h.1.removeOne_eq_ok hplaced isName_backupName own_backup (backup_eq ▸ hop)
  exact ⟨hground, h.2.1.replace_entry backupName_ne_root new,
    h.2.2.replace (not_prefix_of_ne (Ne.symm stagingName_ne_backupName)) new⟩

/-! ### Moves -/

/-- After the former package has been moved. -/
theorem holds_of_settingAside (hplaced : j.Placed initial places base) (haccepted : j.Accepted)
    (h : j.Holds initial places base fails d .settingAside) (hop : rename d j.destination j.backup = .ok d') :
    j.Holds initial places base fails d' (.after j (.ok ()) .settingAside) := by
  obtain ⟨hground, hkept, hstaged, -⟩ := h
  have hroot := haccepted.isName_root
  have hbase := hground.stand?_base hplaced
  have hapart := apart_at base (backupName_ne_root (j := j))
  obtain ⟨hfrom, hto, e, he, rfl⟩ := rename_eq_ok (fun s hs => hground.eq_of_resolve hroot (destination_eq ▸ hs))
    (fun s hs => hground.eq_of_resolve isName_backupName (backup_eq ▸ hs)) (entry_ne backupName_ne_root.symm) hop
  have hground' := (hground.replace hplaced own_root none).replace hplaced own_backup (some e)
  refine ⟨hground', ?_, ?_⟩
  · constructor
    case gone => exact find?_moved_source hbase hapart.1 hapart.2 e
    case kept =>
      have hmoved := find?_moved_target hbase (by simpa using not_prefix_base j.root []) j.backupName e []
      rw [List.append_nil, Entry.find?_nil] at hmoved
      rw [hmoved, ← hkept, he]
    case stood =>
      rw [← hkept, he]
      exact Option.some_ne_none e
    case destination => rw [destination_eq, hground.resolve_congr hground' hroot, ← destination_eq, hfrom]
    case backup => rw [backup_eq, hground.resolve_congr hground' isName_backupName, ← backup_eq, hto]
  · have hmoved := hstaged.replace (not_prefix_of_ne stagingName_ne_root.symm) none
    exact hmoved.replace (not_prefix_of_ne stagingName_ne_backupName.symm) (some e)

/-- The staging directory of the files of an accepted job is a directory. -/
theorem Staged.stand?_staging (hstaged : j.Staged base j.artifacts d) (haccepted : j.Accepted) :
    d.stand? (base ++ [j.stagingName]) = some .dir := by
  obtain ⟨a, ha⟩ := List.exists_mem_of_ne_nil _ (artifacts_ne_nil haccepted)
  obtain ⟨contents, hcontents⟩ := lastContents?_isSome ha
  obtain ⟨-, -, -, second, rest, hnames⟩ := haccepted.names ha
  have hfile := (hstaged.files a.names contents).mpr hcontents
  exact Entry.stand?_of_append (by rw [hfile]; exact Option.some_ne_none _) (by rw [hnames]; exact List.cons_ne_nil _ _)

/-- When the staged package has been moved to its place, it is installed, and the backup is as it was. -/
theorem installed_of_swap (hplaced : j.Placed initial places base) (haccepted : j.Accepted)
    (hground : j.Grounded initial places base d) (hstaged : j.Staged base j.artifacts d)
    (hop : rename d j.staged j.destination = .ok d') : j.Grounded initial places base d' ∧ j.Installed base d' ∧
      d'.find? (base ++ [j.backupName]) = d.find? (base ++ [j.backupName]) := by
  have hroot := haccepted.isName_root
  have hapart := apart_of_ne base (stagingName_ne_root (j := j)) [j.root]
  have hstart : ∀ s, resolve d false j.staged = .ok s → s = base ++ [j.stagingName] ++ [j.root] := by
    intro s hs
    obtain ⟨left, hleads⟩ := hground.ready
    exact hleads.eq_of_resolve_inside isName_stagingName hroot (hstaged.stand?_staging haccepted) (staged_eq ▸ hs)
  obtain ⟨-, hto, e, he, rfl⟩ := rename_eq_ok hstart (fun s hs => hground.eq_of_resolve hroot (destination_eq ▸ hs))
    (fun heq => hapart.1 (heq ▸ List.prefix_rfl)) hop
  have hground' := (hground.replace hplaced (own_staging.append [j.root]) none).replace hplaced
    own_root (some e)
  refine ⟨hground', ⟨fun inside => ?_, ?_⟩, ?_⟩
  · -- The tree of the package is what stood in the staging directory.
    have hcomplete := hstaged.complete (j.root :: inside)
    have hspot : base ++ [j.stagingName] ++ j.root :: inside = base ++ [j.stagingName] ++ [j.root] ++ inside := by simp
    rw [hspot, Entry.stand?, Entry.find?_append, he, Option.bind_some] at hcomplete
    rw [Entry.stand?, find?_moved_target (hground.stand?_base hplaced) (not_prefix_base j.stagingName [j.root])]
    exact hcomplete
  · rw [destination_eq, hground.resolve_congr hground' hroot, ← destination_eq, hto]
  · exact find?_moved_apart (apart_of_ne base stagingName_ne_backupName [j.root]) (apart_at base backupName_ne_root.symm) e

/-- After the staged package has been moved to its place. -/
theorem holds_of_swapping (hplaced : j.Placed initial places base) (haccepted : j.Accepted) {previous : Bool}
    (h : j.Holds initial places base fails d (.swapping previous)) (hop : rename d j.staged j.destination = .ok d') :
    j.Holds initial places base fails d' (.after j (.ok ()) (.swapping previous)) := by
  cases previous with
  | false =>
    obtain ⟨hground', hinstalled, hbackup⟩ := installed_of_swap hplaced haccepted h.1 h.2.2.1 hop
    exact ⟨hground', hinstalled, fun hfails => hbackup.trans (h.2.2.2 hfails)⟩
  | true =>
    obtain ⟨hground, haside, hstaged⟩ := h
    obtain ⟨hground', hinstalled, -⟩ := installed_of_swap hplaced haccepted hground hstaged hop
    refine ⟨hground', hinstalled, ?_⟩
    rw [backup_eq, hground.resolve_congr hground' isName_backupName, ← backup_eq, haside.backup]

/-- The former package can be put back, and then it stands where it stood. -/
theorem exists_restore (hplaced : j.Placed initial places base) (hground : j.Grounded initial places base d)
    (haside : j.SetAside initial base d) :
    ∃ d', rename d j.backup j.destination = .ok d' ∧ j.Grounded initial places base d' ∧ j.Kept initial base d' := by
  have hapart := apart_at base (backupName_ne_root (j := j))
  obtain ⟨e, he⟩ := Option.ne_none_iff_exists'.mp haside.stood
  have hfind := haside.kept.trans he
  refine ⟨_, rename_of_free haside.backup haside.destination hapart.1 hapart.2 hfind haside.gone, ?_, ?_⟩
  · exact (hground.replace hplaced own_backup none).replace hplaced own_root (some e)
  · have hmoved := find?_moved_target (hground.stand?_base hplaced)
      (by simpa using not_prefix_base j.backupName []) j.root e []
    rw [List.append_nil, Entry.find?_nil] at hmoved
    exact hmoved.trans he.symm

/-! ### Clearing up -/

/-- After something has been removed of the former package. -/
theorem holds_of_clearingPrevious (hplaced : j.Placed initial places base) (haccepted : j.Accepted)
    (h : j.Holds initial places base fails d .clearingPrevious) (hop : removeOne d j.backup = .ok d') :
    j.Holds initial places base fails d' (.after j (.ok ()) .clearingPrevious) := by
  obtain ⟨hground, hinstalled, hbackup⟩ := h
  obtain ⟨hground', new, rfl⟩ := hground.removeOne_eq_ok hplaced isName_backupName own_backup (backup_eq ▸ hop)
  refine ⟨hground', hinstalled.replace backupName_ne_root new hground hground' haccepted.isName_root, ?_⟩
  rw [backup_eq, hground.resolve_congr hground' isName_backupName, ← backup_eq, hbackup]

/-- After something has been removed of the staging directory at the end. -/
theorem holds_of_cleaning (hplaced : j.Placed initial places base) (haccepted : j.Accepted) {error : Option InstallError}
    (h : j.Holds initial places base fails d (.cleaning error)) (hop : removeOne d j.staging = .ok d') :
    j.Holds initial places base fails d' (.after j (.ok ()) (.cleaning error)) := by
  cases error with
  | none =>
    obtain ⟨hground, hinstalled, hbackup⟩ := h
    obtain ⟨hground', new, rfl⟩ := hground.removeOne_eq_ok hplaced isName_stagingName own_staging (staging_eq ▸ hop)
    have hapart := apart_at base (stagingName_ne_backupName (j := j))
    refine ⟨hground', hinstalled.replace stagingName_ne_root new hground hground' haccepted.isName_root, fun hfails => ?_⟩
    rw [Entry.find?_replace_of_apart hapart.1 hapart.2, hbackup hfails]
  | some error =>
    obtain ⟨hground', new, rfl⟩ := h.1.removeOne_eq_ok hplaced isName_stagingName own_staging (staging_eq ▸ hop)
    exact ⟨hground', h.2.replace_entry stagingName_ne_root new⟩

end Job

end Workflow
