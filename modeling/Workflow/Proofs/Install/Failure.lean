import Mathlib
import Workflow.Proofs.Install.Course
import Workflow.Proofs.Install.Ending
import Workflow.Proofs.Install.Refusal
import Workflow.Proofs.Install.Safety

/-!
# What an installation that fails leaves behind

An installation that fails takes back what it has done (`Job.Undone`): the former package is where it was, the staging directory is
cleared unless no path leads to it, and but for missing directories of the path and an old backup nothing has changed. What the
hidden entries are in each phase is told by `Job.Tidy`, beside what holds there anyway; a directory whose path leads nowhere never
gets so far (`Job.Spreads`). The whole is `install_undone`.
-/

namespace Workflow

open Disk

/-! ## The directories of a path -/

namespace Path

/-- The text of a path with one more part. -/
theorem text_concat (p : Path) (part : String) : text (p ++ [part]) = p.text ++ (if p = [] then "" else "/") ++ part := by
  induction p with
  | nil => rw [List.nil_append, text, String.intercalate_singleton]; rfl
  | cons first rest ih =>
    rw [if_neg (List.cons_ne_nil _ _)]
    cases rest with
    | nil => rw [List.singleton_append, text, text, String.intercalate_cons_cons, String.intercalate_singleton,
        String.intercalate_singleton]
    | cons second rest =>
      rw [if_neg (List.cons_ne_nil _ _)] at ih
      rw [text, text] at ih ⊢
      rw [List.cons_append, List.cons_append, String.intercalate_cons_cons, ← List.cons_append, ih, String.intercalate_cons_cons]
      simp only [String.append_assoc]

/-- The text of a path begins that of a longer one. -/
theorem exists_text_append (p q : Path) : ∃ rest, text (p ++ q) = p.text ++ rest := by
  induction q using List.reverseRecOn with
  | nil => exact ⟨"", by rw [List.append_nil, String.append_empty]⟩
  | append_singleton q part ih =>
    obtain ⟨rest, hrest⟩ := ih
    exact ⟨rest ++ (if p ++ q = [] then "" else "/") ++ part,
      by rw [← List.append_assoc, text_concat, hrest]; simp only [String.append_assoc]⟩

/-- What begins a path that is written without a character is so, too. -/
theorem isNone_of_prefix {p q : Path} (h : p <+: q) (hq : q.isNone = true) : p.isNone = true := by
  rw [isNone_iff] at hq ⊢
  rcases hq with rfl | rfl
  · exact Or.inl (List.prefix_nil.mp h)
  · rcases List.prefix_cons_iff.mp h with hnil | ⟨rest, rfl, hrest⟩
    · exact Or.inl hnil
    · exact Or.inr (congrArg _ (List.prefix_nil.mp hrest))

/-- At most an empty part comes after the stem of a directory that is written with a character. -/
theorem eq_stem_or (dir : Path) (hsome : dir.isNone = false) : dir = dir.stem ∨ dir = dir.stem ++ [""] := by
  rw [stem, hsome, if_neg Bool.false_ne_true]
  split
  · next hlast => exact Or.inr (List.dropLast_append_getLast? "" hlast).symm
  · exact Or.inl rfl

end Path

namespace Disk

/-- A path that begins another one is in order if that is, unless it is written without a character. -/
theorem checkText_of_beginning {p q : Path} {rest : String} (h : checkText q = .ok ()) (htext : q.text = p.text ++ rest)
    (hsome : p.isNone = false) : checkText p = .ok () := by
  rw [checkText] at h
  split at h
  · cases h
  · next hzero =>
    split at h
    · cases h
    · split at h
      · cases h
      · next hlong =>
        rw [htext, String.toList_append, List.contains_iff_mem, List.mem_append, not_or] at hzero
        rw [htext, String.utf8ByteSize_append] at hlong
        rw [checkText, if_neg (by rw [List.contains_iff_mem]; exact hzero.1), hsome, if_neg Bool.false_ne_true,
          if_neg (by omega)]

end Disk

namespace Making

variable {dir : Path} {m m' : Making}

/-- The directories to be made are beginnings of a path, or the top. -/
def Inside (dir : Path) (m : Making) : Prop := ∀ p ∈ m.paths, p.isNone = false ∧ (p = ["", ""] ∨ p <+: dir)

/-- After an attempt the directories to be made are still beginnings of the path. -/
theorem Inside.after {outcome : Except FileError Unit} (h : m.Inside dir) (hafter : m.after outcome = .more m') : m'.Inside dir := by
  intro p hp
  rcases (after_more hafter).1 p hp with hp | ⟨q, hq, hparent, hsome⟩
  · exact h p hp
  · refine ⟨hsome, ?_⟩
    rcases Path.parent?_eq_some hparent with hnone | htop | ⟨removed, rfl, part, hpart, hidle⟩
    · rw [hsome] at hnone
      cases hnone
    · exact Or.inl htop
    · refine Or.inr ?_
      rcases (h _ hq).2 with htop | hbegins
      · -- The top has no part but empty ones.
        have hmem : part ∈ ["", ""] := htop ▸ List.mem_append_right p hpart
        obtain rfl : part = "" := by simpa using hmem
        cases hidle
      · exact (List.prefix_append p removed).trans hbegins

end Making

namespace Job

variable {j : Job} {initial d d' : Disk} {places : List Spot} {base s : Spot}

/-- Where the staging directory has a path, the directories on its way can be ensured. -/
theorem exists_ensureDir_of_resolve (htop : d.stand? [] = some .dir) (htrail : Trail d [] j.dir places base)
    (hs : resolve d false j.staging = .ok s) {p : Path} (hsome : p.isNone = false) (hp : p = ["", ""] ∨ p <+: j.dir) :
    ∃ made, ensureDir d p = .ok made := by
  rcases hp with rfl | hp
  · have htext : checkText ["", ""] = .ok () := by decide +kernel
    exact (Leads.idle rfl (.idle rfl (.done mostLinks []))).exists_ensureDir htop htext
  · obtain ⟨⟨⟩, htext, hfollow⟩ := bind_eq_ok_iff.mp hs
    rw [staging_eq] at htext hfollow
    have hdir : j.dir.isNone = false := Bool.eq_false_iff.mpr fun hnone => by
      rw [Path.isNone_of_prefix hp hnone] at hsome
      cases hsome
    have hbegins : p <+: j.dir.stem ∨ p = j.dir.stem ++ [""] := by
      rcases Path.eq_stem_or j.dir hdir with hstem | hstem
      · exact Or.inl (hstem ▸ hp)
      · rw [hstem] at hp
        exact (List.prefix_concat_iff.mp hp).symm
    rcases hbegins with ⟨more, hmore⟩ | rfl
    · rw [← hmore, List.append_assoc] at htext hfollow
      obtain ⟨rest, hrest⟩ := Path.exists_text_append p (more ++ [j.stagingName])
      obtain ⟨after, hafter⟩ := hp
      rw [← hafter] at htrail
      obtain ⟨first, mid, second, hfirst, -, -⟩ := htrail.split
      obtain ⟨left, hleads⟩ := hfirst.leads_of_follow_append (List.append_ne_nil_of_right_ne_nil more (List.cons_ne_nil _ _)) hfollow
      exact hleads.exists_ensureDir htop (checkText_of_beginning htext hrest hsome)
    · obtain ⟨idle, hstem, hidle⟩ := Path.exists_stem_append j.dir
      rw [hstem] at htrail
      obtain ⟨left, hleads⟩ := (htrail.cut hidle).leads_of_follow_append (List.cons_ne_nil _ _) hfollow
      have hrest : Path.text (j.dir.stem ++ [j.stagingName]) = Path.text (j.dir.stem ++ [""]) ++ j.stagingName := by
        rw [Path.text_concat, Path.text_concat, String.append_empty]
      exact (hleads.append_idle (List.forall_mem_singleton.mpr rfl)).exists_ensureDir htop
        (checkText_of_beginning htext hrest hsome)

/-! ## Entries of the directory -/

/-- An entry of the directory is what it was at first. -/
def Untouched (initial : Disk) (base : Spot) (name : String) (d : Disk) : Prop :=
  d.find? (base ++ [name]) = initial.find? (base ++ [name])

/-- The path of an entry of the directory leads to its place. -/
def Reached (j : Job) (base : Spot) (name : String) (d : Disk) : Prop :=
  resolve d false (j.dir.stem ++ [name]) = .ok (base ++ [name])

/-- A change at another entry, or below it, leaves an entry untouched. -/
theorem Untouched.replace {name other : String} (h : Untouched initial base name d) (hname : other ≠ name) (inside : Spot)
    (new : Option Entry) : Untouched initial base name (d.replace (base ++ [other] ++ inside) new) :=
  (Entry.find?_replace_of_apart (apart_of_ne base hname inside).1 (apart_of_ne base hname inside).2 new).trans h

/-- An entry is reached as long as the directory is there. -/
theorem Reached.congr {name : String} (h : j.Reached base name d) (hname : IsName name) (hground : j.Grounded initial places base d)
    (hground' : j.Grounded initial places base d') : j.Reached base name d' :=
  (hground.resolve_congr hground' hname).trans h

/-- The removal of an entry that is reached fails only if it is missing. -/
theorem Reached.missing {name : String} (h : j.Reached base name d) {e : FileError}
    (hop : removeOne d (j.dir.stem ++ [name]) = .error e) : d.find? (base ++ [name]) = none ∧ e = .noEntry := by
  have hnone := find?_of_removeOne_eq_error h hop
  rw [removeOne, entryAt, h] at hop
  simp only [bind, Except.bind, hnone, Except.error.injEq] at hop
  exact ⟨hnone, hop.symm⟩

namespace Grounded

/-- An entry whose removal succeeds is reached. -/
theorem reached_of_ok (h : j.Grounded initial places base d) {name : String} (hname : IsName name)
    (hop : removeOne d (j.dir.stem ++ [name]) = .ok d') : j.Reached base name d := by
  obtain ⟨s, e, hs, -, -⟩ := Disk.removeOne_eq_ok hop
  rw [Reached, hs, h.eq_of_resolve hname hs]

/-- An entry is reached if its removal finds none. -/
theorem reached_of_noEntry (h : j.Grounded initial places base d) {name : String} (hname : IsName name)
    (hop : removeOne d (j.dir.stem ++ [name]) = .error .noEntry) : j.Reached base name d := by
  cases hs : resolve d false (j.dir.stem ++ [name]) with
  | ok s => rw [Reached, hs, h.eq_of_resolve hname hs]
  | error e =>
    obtain ⟨left, hleads⟩ := h.ready
    rw [removeOne, entryAt, hs] at hop
    obtain rfl : e = .noEntry := Except.error.inj hop
    exact absurd hs (hleads.resolve_entry_ne_noEntry hname)

/-- An entry whose removal fails is missing, or no path leads to it. -/
theorem missing_or_lost (h : j.Grounded initial places base d) {name : String} (hname : IsName name) {e : FileError}
    (hop : removeOne d (j.dir.stem ++ [name]) = .error e) :
    d.find? (base ++ [name]) = none ∨ ∀ s, resolve d false (j.dir.stem ++ [name]) ≠ .ok s := by
  by_cases hreached : j.Reached base name d
  · exact Or.inl (hreached.missing hop).1
  · exact Or.inr fun s hs => hreached (by rw [Reached, hs, h.eq_of_resolve hname hs])

end Grounded

/-! ## What is left behind -/

/-- What an installation has left behind that takes back what it has done. The former package is where it was; there is no staging
directory, or it is an old one that no path leads to; the backup is gone or an old one; and all else is as it was, but for
directories that the path of the directory was missing. -/
structure Undone (j : Job) (initial : Disk) (places : List Spot) (base : Spot) (d : Disk) : Prop where
  kept : j.Kept initial base d
  staging : d.find? (base ++ [j.stagingName]) = none ∨
    Untouched initial base j.stagingName d ∧ ∀ s, resolve d false j.staging ≠ .ok s
  backup : d.find? (base ++ [j.backupName]) = none ∨ Untouched initial base j.backupName d
  elsewhere : j.Frame initial places base d

/-- What is so of the two hidden entries in each phase, when operations fail only for what stands on the disk. -/
def Tidy (j : Job) (initial : Disk) (places : List Spot) (base : Spot) (d : Disk) : Phase → Prop
  | .makingTarget m => m.Inside j.dir ∧ Untouched initial base j.stagingName d ∧ Untouched initial base j.backupName d
  | .clearingStaging => (Untouched initial base j.stagingName d ∨ j.Reached base j.stagingName d) ∧
      Untouched initial base j.backupName d
  | .makingParent _ _ _ | .writing _ _ => j.Reached base j.stagingName d ∧ Untouched initial base j.backupName d
  | .clearingBackup => j.Reached base j.stagingName d ∧
      (Untouched initial base j.backupName d ∨ j.Reached base j.backupName d)
  | .cleaning (some _) => j.Reached base j.stagingName d ∧
      (d.find? (base ++ [j.backupName]) = none ∨ Untouched initial base j.backupName d)
  | .finished (.ok _) => True
  | .finished (.error _) => j.Undone initial places base d
  | _ => j.Reached base j.stagingName d

section Steps

variable {phase : Phase}

/-- Everything is tidy at first. -/
theorem tidy_first (j : Job) (d : Disk) (places : List Spot) (base : Spot) : j.Tidy d places base d (.first j) := by
  rw [Phase.first, Making.start]
  cases hnone : j.dir.isNone with
  | true => exact ⟨Or.inl rfl, rfl⟩
  | false => exact ⟨List.forall_mem_singleton.mpr ⟨hnone, Or.inr List.prefix_rfl⟩, rfl, rfl⟩

/-- The work on the next file begins tidy. -/
theorem tidy_stage (h : j.Reached base j.stagingName d ∧ Untouched initial base j.backupName d) (rest : List Artifact) :
    j.Tidy initial places base d (.stage j rest) := by
  cases rest with
  | nil => exact ⟨h.1, Or.inl h.2⟩
  | cons a rest =>
    rw [Phase.stage]
    split <;> exact h

/-- A change in the staging directory leaves it reached, and the backup untouched. -/
theorem tidy_of_staging_change (hplaced : j.Placed initial places base) (hground : j.Grounded initial places base d)
    (h : j.Reached base j.stagingName d ∧ Untouched initial base j.backupName d) (names : Spot) (new : Option Entry) :
    j.Reached base j.stagingName (d.replace (base ++ [j.stagingName] ++ names) new) ∧
      Untouched initial base j.backupName (d.replace (base ++ [j.stagingName] ++ names) new) :=
  ⟨h.1.congr isName_stagingName hground (hground.replace hplaced (own_staging.append names) new),
    h.2.replace stagingName_ne_backupName names new⟩

/-- A directory that appears on the way of the path leaves the entries untouched. -/
theorem Untouched.of_ensureDir {name : String} {p : Path} (h : Untouched initial base name d) (hplaced : j.Placed initial places base)
    (htop : d.stand? [] = some .dir) (hstays : Stays d (· ∈ places) p) (hown : j.Own base (base ++ [name]))
    (hop : ensureDir d p = .ok d') : Untouched initial base name d' := by
  rcases ensureDir_eq_ok htop hstays hop with rfl | ⟨parent, last, hplace, hparent, hnone, rfl⟩
  · exact h
  · have hapart : ¬base ++ [name] <+: parent ++ [last] := by
      rintro ⟨inside, hinside⟩
      exact hplaced.not_own hplace (hinside ▸ hown.append inside)
    exact (Entry.find?_replace_empty hparent hnone hapart).trans h

/-- After a directory of the path has been made. -/
theorem tidy_of_makingTarget (hplaced : j.Placed initial places base) {m : Making}
    (h : j.Holds initial places base false d (.makingTarget m)) (ht : j.Tidy initial places base d (.makingTarget m))
    (hop : ensureDir d m.current = .ok d') : j.Tidy initial places base d' (.after j (.ok ()) (.makingTarget m)) := by
  obtain ⟨hframe, -, hstays, -⟩ := h
  obtain ⟨hinside, hstaging, hbackup⟩ := ht
  have htop := hframe.top hplaced
  have hcurrent := hstays m.current List.mem_cons_self
  have hstaging' := hstaging.of_ensureDir hplaced htop hcurrent own_staging hop
  have hbackup' := hbackup.of_ensureDir hplaced htop hcurrent own_backup hop
  rw [Phase.after]
  cases hafter : m.after (.ok ()) with
  | more m' => exact ⟨hinside.after hafter, hstaging', hbackup'⟩
  | made => exact ⟨Or.inl hstaging', hbackup'⟩
  | failed e =>
    obtain ⟨current, retried, outer⟩ := m
    cases outer <;> cases hafter

/-- After a directory has been made on the way to a file. -/
theorem tidy_of_makingParent (hplaced : j.Placed initial places base) {m : Making} {a : Artifact} {rest : List Artifact}
    (h : j.Holds initial places base false d (.makingParent m a rest)) (ht : j.Tidy initial places base d (.makingParent m a rest))
    (hop : ensureDir d m.current = .ok d') : j.Tidy initial places base d' (.after j (.ok ()) (.makingParent m a rest)) := by
  obtain ⟨hground, -, -, hstays⟩ := h
  have hnext : j.Reached base j.stagingName d' ∧ Untouched initial base j.backupName d' := by
    rcases ensureDir_eq_ok (hground.frame.top hplaced) (hstays m.current List.mem_cons_self) hop with
      rfl | ⟨parent, name, hplace, -, hnone, rfl⟩
    · exact ht
    · rcases hplace with hplace | ⟨-, -, names, hspot, -⟩
      · obtain ⟨left, hleads⟩ := hground.ready
        exact absurd hnone (hleads.stand?_ne_none _ hplace)
      · rw [hspot]
        exact tidy_of_staging_change hplaced hground ht names _
  rw [Phase.after]
  cases hafter : m.after (.ok ()) with
  | more m' => exact hnext
  | made => exact hnext
  | failed e => exact ⟨hnext.1, Or.inr hnext.2⟩

/-- After an operation that succeeds. -/
theorem tidy_after_ok (hplaced : j.Placed initial places base) (haccepted : j.Accepted) {a : Action}
    (h : j.Holds initial places base false d phase) (ht : j.Tidy initial places base d phase) (ha : phase.action? j = some a)
    (hop : d.outcome a = .ok d') : j.Tidy initial places base d' (phase.after j (.ok ())) := by
  have hnext := holds_after_ok hplaced haccepted h ha hop
  cases phase with
  | makingTarget m =>
    cases ha
    exact tidy_of_makingTarget hplaced h ht hop
  | clearingStaging =>
    cases ha
    rw [outcome, staging_eq] at hop
    have hreached := h.1.reached_of_ok isName_stagingName hop
    obtain ⟨hground, new, rfl⟩ := h.1.removeOne_eq_ok hplaced isName_stagingName own_staging hop
    have hbackup := ht.2.replace (stagingName_ne_backupName (j := j)) [] new
    rw [List.append_nil] at hbackup
    exact ⟨Or.inr (hreached.congr isName_stagingName h.1 hground), hbackup⟩
  | makingParent m a rest =>
    cases ha
    exact tidy_of_makingParent hplaced h ht hop
  | writing a rest =>
    cases ha
    obtain ⟨hground, -, done, hall, hstaged⟩ := h
    have hmem : a ∈ j.artifacts := hall ▸ List.mem_append_right _ List.mem_cons_self
    obtain ⟨way, htrail, -⟩ := exists_trail_of_stagedFile hplaced haccepted hground.frame hstaged.plain hmem
    obtain ⟨-, -, -, rfl⟩ := write_eq_ok htrail (hground.frame.top hplaced) hop
    exact tidy_stage (tidy_of_staging_change hplaced hground ht a.names _) rest
  | clearingBackup =>
    cases ha
    rw [outcome, backup_eq] at hop
    have hreached := h.1.reached_of_ok isName_backupName hop
    exact ⟨ht.1.congr isName_stagingName h.1 hnext.1, Or.inr (hreached.congr isName_backupName h.1 hnext.1)⟩
  | looking =>
    cases ha
    obtain rfl := look_eq_ok hop
    exact ht
  | settingAside => exact ht.congr isName_stagingName h.1 hnext.1
  | swapping previous => cases previous <;> exact Reached.congr ht isName_stagingName h.1 hnext.1
  | restoring error =>
    cases ha
    have hbase := h.1.stand?_base hplaced
    have hapart := apart_at base (backupName_ne_root (j := j)).symm
    obtain ⟨-, -, e, -, rfl⟩ := rename_eq_ok (fun s hs => Except.ok.inj (hs.symm.trans h.2.1.backup))
      (fun s hs => Except.ok.inj (hs.symm.trans h.2.1.destination)) (entry_ne backupName_ne_root) hop
    exact ⟨ht.congr isName_stagingName h.1 hnext.1, Or.inl (find?_moved_source hbase hapart.1 hapart.2 e)⟩
  | clearingPrevious => exact ht.congr isName_stagingName h.1 hnext.1
  | cleaning error =>
    cases error with
    | none => exact Reached.congr ht isName_stagingName h.1 hnext.1
    | some error =>
      cases ha
      rw [outcome, staging_eq] at hop
      obtain ⟨hground, new, rfl⟩ := h.1.removeOne_eq_ok hplaced isName_stagingName own_staging hop
      have hapart := apart_at base (stagingName_ne_backupName (j := j))
      refine ⟨ht.1.congr isName_stagingName h.1 hground, ?_⟩
      rw [Untouched, Entry.find?_replace_of_apart hapart.1 hapart.2]
      exact ht.2
  | finished result => cases ha

/-- After an operation that the disk makes fail. -/
theorem tidy_after_error (hplaced : j.Placed initial places base) {a : Action} {e : FileError}
    (h : j.Holds initial places base false d phase) (ht : j.Tidy initial places base d phase) (ha : phase.action? j = some a)
    (hop : d.outcome a = .error e) : j.Tidy initial places base d (phase.after j (.error e)) := by
  cases phase with
  | makingTarget m =>
    cases ha
    obtain ⟨hframe, hkept, -, -⟩ := h
    obtain ⟨hinside, hstaging, hbackup⟩ := ht
    rw [Phase.after]
    cases hafter : m.after (.error e) with
    | more m' => exact ⟨hinside.after hafter, hstaging, hbackup⟩
    | made => cases (Making.after_made hafter).1
    | failed err =>
      refine ⟨hkept, Or.inr ⟨hstaging, fun s hs => ?_⟩, Or.inr hbackup, hframe⟩
      -- A path to the staging directory leads through the directory that cannot be made.
      obtain ⟨hsome, hbegins⟩ := hinside m.current List.mem_cons_self
      obtain ⟨made, hmade⟩ := exists_ensureDir_of_resolve (hframe.top hplaced) (hframe.trail hplaced) hs hsome hbegins
      cases hmade.symm.trans hop
  | clearingStaging =>
    cases ha
    rw [outcome, staging_eq] at hop
    by_cases hnone : e = .noEntry
    · subst hnone
      exact tidy_stage ⟨h.1.reached_of_noEntry isName_stagingName hop, ht.2⟩ j.artifacts
    · rw [Phase.after]
      · refine ⟨h.2, ?_, Or.inr ht.2, h.1.frame⟩
        rcases h.1.missing_or_lost isName_stagingName hop with hmissing | hlost
        · exact Or.inl hmissing
        · rw [staging_eq]
          exact Or.inr ⟨ht.1.resolve_right (hlost _), hlost⟩
      · exact hnone
  | makingParent m a rest =>
    rw [Phase.after]
    cases hafter : m.after (.error e) with
    | more m' => exact ht
    | made => cases (Making.after_made hafter).1
    | failed e => exact ⟨ht.1, Or.inr ht.2⟩
  | writing a rest => exact ⟨ht.1, Or.inr ht.2⟩
  | clearingBackup =>
    cases ha
    rw [outcome, backup_eq] at hop
    by_cases hnone : e = .noEntry
    · subst hnone
      exact ht.1
    · rw [Phase.after]
      · refine ⟨ht.1, (h.1.missing_or_lost isName_backupName hop).imp_right fun hlost => ?_⟩
        exact ht.2.resolve_right (hlost _)
      · exact hnone
  | looking => exact ht
  | settingAside => exact ⟨ht, Or.inl (h.2.2.2 rfl)⟩
  | swapping previous =>
    cases previous with
    | false => exact ⟨ht, Or.inl (h.2.2.2 rfl)⟩
    | true => exact ht
  | restoring error => exact absurd (explained_of_outcome hplaced h ha hop) id
  | clearingPrevious => exact ht
  | cleaning error =>
    cases ha
    rw [outcome, staging_eq] at hop
    cases error with
    | none =>
      obtain ⟨-, rfl⟩ := Reached.missing ht hop
      exact trivial
    | some error =>
      obtain ⟨hmissing, rfl⟩ := ht.1.missing hop
      exact ⟨h.2, Or.inl hmissing, ht.2, h.1.frame⟩
  | finished result => cases ha

/-- At the end of a run everything is tidy. -/
theorem tidy_run (hplaced : j.Placed initial places base) (haccepted : j.Accepted) (steps : Nat)
    (h : j.Holds initial places base false d phase) (ht : j.Tidy initial places base d phase) :
    j.Tidy initial places base (Install.run j steps d phase).1 (Install.run j steps d phase).2 := by
  induction steps generalizing d phase with
  | zero => exact ht
  | succ steps ih =>
    rw [Install.run_succ]
    refine ih (holds_step hplaced haccepted h) ?_
    rw [Install.step]
    cases ha : phase.action? j with
    | none => exact ht
    | some a =>
      simp only [perform_eq]
      cases hop : d.outcome a with
      | ok d' => exact tidy_after_ok hplaced haccepted h ht ha hop
      | error e => exact tidy_after_error hplaced h ht ha hop

end Steps

/-! ## Directories that lead nowhere -/

/-- A place on the way of the beginning of a path. -/
def OnWay (initial : Disk) (p : Path) (s : Spot) : Prop :=
  ∃ before after places goal, p = before ++ after ∧ Trail initial [] before places goal ∧ s ∈ places

/-- Nothing has changed but that directories on the way of a path may have appeared. -/
def Spread (initial : Disk) (p : Path) (d : Disk) : Prop :=
  ∀ s, d.stand? s = initial.stand? s ∨ OnWay initial p s ∧ initial.stand? s = none ∧ d.stand? s = some .dir

/-- What is so of a job that never gets beyond making its directory. -/
structure Spreads (j : Job) (initial d : Disk) (phase : Phase) : Prop where
  spread : Spread initial j.dir d
  inside : ∀ m, phase = .makingTarget m → m.Inside j.dir

/-- After an attempt to make a directory. -/
theorem spreads_after {m : Making} {outcome : Except FileError Unit} (hinside : m.Inside j.dir) (h : Spread initial j.dir d) :
    j.Spreads initial d (.after j outcome (.makingTarget m)) := by
  rw [Phase.after]
  cases hafter : m.after outcome with
  | more m' => exact ⟨h, fun next heq => Phase.makingTarget.inj heq ▸ hinside.after hafter⟩
  | made | failed => exact ⟨h, fun next heq => by cases heq⟩

/-- A step of a job that is lost makes nothing but directories on the way. -/
theorem spreads_step {phase : Phase} (hlost : j.Lost initial d phase) (h : j.Spreads initial d phase) :
    j.Spreads initial (Install.step j none d phase).1 (Install.step j none d phase).2 := by
  cases phase with
  | makingTarget m =>
    obtain ⟨-, htop, hlinks⟩ := hlost
    obtain ⟨hspread, hinside⟩ := h
    have hinside := hinside m rfl
    simp only [Install.step, Phase.action?, perform_eq]
    cases hop : d.outcome (.ensureDir m.current) with
    | error e => exact spreads_after hinside hspread
    | ok d' =>
      refine spreads_after hinside ?_
      obtain ⟨places, goal, htrail⟩ := exists_trail_of_ensureDir hop
      have hinitial : Trail initial [] m.current places goal := htrail.congr fun s _ target => (hlinks s target).symm
      have hway : ∀ s ∈ places, OnWay initial j.dir s := by
        intro s hs
        rcases (hinside m.current List.mem_cons_self).2 with htop | ⟨after, hafter⟩
        · rw [htop] at hinitial
          rw [(hinitial.of_idle (by decide)).1] at hs
          exact absurd hs List.not_mem_nil
        · exact ⟨m.current, after, places, goal, hafter.symm, hinitial, hs⟩
      rcases ensureDir_eq_ok htop ⟨places, goal, htrail, hway⟩ hop with rfl | ⟨parent, name, hplace, hparent, hnone, rfl⟩
      · exact hspread
      · exact fun s => gained_replace_empty (hspread s) hplace hparent hnone
  | finished result => exact h
  | clearingStaging | makingParent | writing | clearingBackup | looking | settingAside | swapping | restoring | clearingPrevious
  | cleaning => exact absurd hlost id

/-- At the end of a run of a job that is lost, nothing has changed but that directories on the way may have appeared. -/
theorem spreads_run {phase : Phase} (hno : ¬∃ places base, Trail initial [] j.dir places base) (hlost : j.Lost initial d phase)
    (h : j.Spreads initial d phase) (steps : Nat) :
    j.Spreads initial (Install.run j steps d phase).1 (Install.run j steps d phase).2 := by
  induction steps generalizing d phase with
  | zero => exact h
  | succ steps ih =>
    rw [Install.run_succ]
    exact ih (lost_step hno hlost none) (spreads_step hlost h)

/-- What a job in a directory that leads nowhere leaves behind. -/
theorem spread_of_run (htop : d.stand? [] = some .dir) (hno : ¬∃ places base, Trail d [] j.dir places base) (steps : Nat) :
    Spread d j.dir (Install.run j steps d (.first j)).1 := by
  have hsome : j.dir.isNone = false := Bool.eq_false_iff.mpr fun hnone =>
    hno ⟨[], [], trail_of_idle (Path.isIdle_of_isNone hnone) []⟩
  rw [Phase.first, Making.start, hsome]
  have hlost : j.Lost d d (.makingTarget ⟨j.dir, false, []⟩) := ⟨rfl, htop, fun _ _ => Iff.rfl⟩
  have hinside : Making.Inside j.dir ⟨j.dir, false, []⟩ := List.forall_mem_singleton.mpr ⟨hsome, Or.inr List.prefix_rfl⟩
  exact (spreads_run hno hlost ⟨fun _ => Or.inl rfl, fun m heq => Phase.makingTarget.inj heq ▸ hinside⟩ steps).spread

end Job

/-! ## Installations -/

/-- The path of a directory does not lead through an entry that the installation of a package there works at. -/
def Clear (d : Disk) (dir : Path) (artifacts : List Artifact) : Prop :=
  ∀ root, packageRoot none artifacts = .ok root → ∀ places base, Trail d [] dir places base →
    (Job.mk dir root artifacts).Placed d places base

/-- An installation of accepted files that fails has taken back what it has done, or, in a directory whose path leads nowhere, has made
nothing but directories on its way. -/
theorem undone_of_install {d : Disk} {dir : Path} {artifacts : List Artifact} {root : String} {e : InstallError}
    (hordered : d.Ordered) (htop : d.stand? [] = some .dir) (hroot : packageRoot none artifacts = .ok root)
    (hclear : ∀ places base, Trail d [] dir places base → (Job.mk dir root artifacts).Placed d places base)
    (hfailed : (install d dir artifacts).2 = .error e) :
    (∃ places base, Trail d [] dir places base ∧ (Job.mk dir root artifacts).Undone d places base (install d dir artifacts).1) ∨
      (¬∃ places base, Trail d [] dir places base) ∧ Job.Spread d dir (install d dir artifacts).1 := by
  have hrun : Install.run ⟨dir, root, artifacts⟩ (Install.bound ⟨dir, root, artifacts⟩ d) d (.first ⟨dir, root, artifacts⟩) = _ :=
    Install.run_eq_install hordered hroot
  by_cases hleads : ∃ places base, Trail d [] dir places base
  · obtain ⟨places, base, htrail⟩ := hleads
    have hplaced := hclear places base htrail
    have htidy := Job.tidy_run hplaced hroot (Install.bound ⟨dir, root, artifacts⟩ d) (Job.holds_first hplaced false)
      (Job.tidy_first _ d places base)
    rw [hrun, hfailed] at htidy
    exact Or.inl ⟨places, base, htrail, htidy⟩
  · have hspread := Job.spread_of_run (j := ⟨dir, root, artifacts⟩) htop hleads (Install.bound ⟨dir, root, artifacts⟩ d)
    rw [hrun] at hspread
    exact Or.inr ⟨hleads, hspread⟩

/-- An installation whose files are refused has changed nothing, and it is these that are turned down. One that fails otherwise has
taken back what it has done, or, in a directory whose path leads nowhere, has made nothing but directories on its way. -/
theorem install_undone (d : Disk) (dir : Path) (artifacts : List Artifact) :
    ((∃ e, (install d dir artifacts).2 = .error e ∧ e.isRefusal = true) ↔ Refused artifacts) ∧
      (Refused artifacts → (install d dir artifacts).1 = d) ∧
      (d.Ordered → d.stand? [] = some .dir → Clear d dir artifacts →
        ∀ path error, (install d dir artifacts).2 = .error (.io path error) → ∃ root, packageRoot none artifacts = .ok root ∧
          ((∃ places base, Trail d [] dir places base ∧ (Job.mk dir root artifacts).Undone d places base (install d dir artifacts).1) ∨
            (¬∃ places base, Trail d [] dir places base) ∧ Job.Spread d dir (install d dir artifacts).1)) := by
  obtain ⟨hrefused, hsame⟩ := install_refusal_iff d dir artifacts
  refine ⟨hrefused, hsame, fun hordered htop hclear path error hfailed => ?_⟩
  cases hroot : packageRoot none artifacts with
  | error e =>
    rw [install, hroot] at hfailed
    have hrefusal := isRefusal_of_packageRoot hroot
    rw [Except.error.inj hfailed] at hrefusal
    cases hrefusal
  | ok root => exact ⟨root, rfl, undone_of_install hordered htop hroot (hclear root hroot) hfailed⟩

/-- The disk with a package is in order. -/
theorem ordered_notes : notes.Ordered := by
  simp only [notes, Entry.Ordered, Entry.OrderedAll, Keyed.Ascending]
  decide +kernel

/-- A package of which two files clash has left nothing behind, and with the staging directory what an earlier run has left is gone. -/
theorem install_undone_clashing :
    (install notes ["out"] clashing).2 = .error (.io ["out", ".pkg.staging", "pkg", "a.py"] .alreadyThere) ∧
      (Job.mk ["out"] "pkg" clashing).Undone notes [["out"]] ["out"] (install notes ["out"] clashing).1 := by
  have hfailed : (install notes ["out"] clashing).2 = .error (.io ["out", ".pkg.staging", "pkg", "a.py"] .alreadyThere) := by
    decide +kernel
  have haccepted : packageRoot none clashing = .ok "pkg" := by decide +kernel
  have hplaced : (Job.mk ["out"] "pkg" clashing).Placed notes [["out"]] ["out"] := placed_notesJob.carrying clashing
  have hclear : Clear notes ["out"] clashing := by
    intro root hroot places base htrail
    obtain rfl : root = "pkg" := Except.ok.inj (hroot.symm.trans haccepted)
    obtain ⟨rfl, rfl⟩ := htrail.unique hplaced.trail
    exact hplaced
  obtain ⟨root, hroot, ⟨places, base, htrail, hundone⟩ | ⟨hno, -⟩⟩ :=
    (install_undone notes ["out"] clashing).2.2 ordered_notes rfl hclear _ _ hfailed
  · obtain rfl : root = "pkg" := Except.ok.inj (hroot.symm.trans haccepted)
    obtain ⟨rfl, rfl⟩ := htrail.unique hplaced.trail
    exact ⟨hfailed, hundone⟩
  · exact absurd ⟨_, _, hplaced.trail⟩ hno

/-! ## A staging directory that no path names -/

/-- An installation whose staging directory cannot be cleared ends as soon as its own directory is there. -/
theorem install_of_uncleared {d made : Disk} {dir : Path} {artifacts : List Artifact} {root : String} {e : FileError}
    (hroot : packageRoot none artifacts = .ok root) (hsome : dir.isNone = false) (hmade : ensureDir d dir = .ok made)
    (hclear : removeOne made (Job.mk dir root artifacts).staging = .error e) (he : e ≠ .noEntry) :
    install d dir artifacts = (made, .error (.io (Job.mk dir root artifacts).staging e)) := by
  set j := Job.mk dir root artifacts with hj
  have hfirst : Phase.first j = .makingTarget ⟨dir, false, []⟩ := by
    rw [Phase.first, Making.start, hj, hsome]
    rfl
  have hmaking : Install.step j none d (.makingTarget ⟨dir, false, []⟩) = (made, .clearingStaging) := by
    simp only [Install.step, Phase.action?, perform, hmade]
    rfl
  have hclearing : Install.step j none made .clearingStaging = (made, .finished (.error (.io j.staging e))) := by
    simp only [Install.step, Phase.action?, perform, hclear, Phase.after]
  have hrun : Install.run j 2 d (.first j) = (made, .finished (.error (.io j.staging e))) := by
    rw [hfirst, Install.run_succ, hmaking, Install.run_succ, hclearing, Install.run_finished]
  have hbound : 2 ≤ Install.bound j d := by
    rw [Install.bound]
    omega
  rw [install, hroot]
  simp only [← hj, Install.run_of_le hrun hbound]

namespace Path

/-- A path with an octet is written with a character. -/
theorem isNone_of_pos {p : Path} (h : 0 < p.text.utf8ByteSize) : p.isNone = false := by
  rw [isNone, Bool.eq_false_iff, ne_eq, String.isEmpty_iff]
  intro hnone
  rw [hnone] at h
  cases h

/-- A name with so many points after it. All of these are paths of one directory. -/
def pointed (name : String) (points : Nat) : Path := name :: List.replicate points "."

theorem pointed_succ (name : String) (points : Nat) : pointed name (points + 1) = pointed name points ++ ["."] := by
  rw [pointed, pointed, List.replicate_succ', List.cons_append]

theorem text_pointed_concat (name : String) (points : Nat) (part : String) :
    text (pointed name points ++ [part]) = text (pointed name points) ++ "/" ++ part := by
  have hsome : pointed name points ≠ [] := List.cons_ne_nil _ _
  rw [text_concat, if_neg hsome]

/-- Each point makes the path longer by two octets. -/
theorem utf8ByteSize_pointed (name : String) (points : Nat) :
    (text (pointed name points)).utf8ByteSize = name.utf8ByteSize + 2 * points := by
  induction points with
  | zero => rfl
  | succ points ih =>
    have hslash : "/".utf8ByteSize = 1 := rfl
    have hpoint : ".".utf8ByteSize = 1 := rfl
    rw [pointed_succ, text_pointed_concat, String.utf8ByteSize_append, String.utf8ByteSize_append, ih, hslash, hpoint]
    omega

/-- No point is a zero. -/
theorem zero_not_mem_pointed {name : String} (h : '\x00' ∉ name.toList) (points : Nat) :
    '\x00' ∉ (text (pointed name points)).toList := by
  induction points with
  | zero => exact h
  | succ points ih =>
    rw [pointed_succ, text_pointed_concat, String.toList_append, String.toList_append, List.mem_append, List.mem_append, not_or,
      not_or]
    exact ⟨⟨ih, by decide⟩, by decide⟩

end Path

namespace Disk

variable {d : Disk} {p : Path}

/-- A path that is short enough is in order. -/
theorem checkText_of_short (hzero : '\x00' ∉ p.text.toList) (hpos : 0 < p.text.utf8ByteSize)
    (hshort : p.text.utf8ByteSize ≤ longestPath) : checkText p = .ok () := by
  rw [checkText, if_neg (by rwa [List.contains_iff_mem]), Path.isNone_of_pos hpos, if_neg Bool.false_ne_true, if_neg (by omega)]

/-- Nothing is removed by a path that is too long. -/
theorem removeOne_of_long (hzero : '\x00' ∉ p.text.toList) (hlong : longestPath < p.text.utf8ByteSize) :
    removeOne d p = .error .nameTooLong := by
  have htext : checkText p = .error .nameTooLong := by
    rw [checkText, if_neg (by rwa [List.contains_iff_mem]), Path.isNone_of_pos (Nat.zero_lt_of_lt hlong),
      if_neg Bool.false_ne_true, if_pos hlong]
  rw [removeOne, entryAt, resolve, htext]
  rfl

/-- Points after a name lead nowhere else. -/
theorem leads_pointed {name : String} (hname : IsName name) (hshort : ¬longestName < name.utf8ByteSize)
    (hdir : d.stand? [name] = some .dir) (points : Nat) :
    Leads d mostLinks [] (Path.pointed name points) [[name]] mostLinks [name] := by
  have hidle : ∀ part ∈ List.replicate points ".", Path.isIdle part = true := fun part hpart => by
    rw [List.eq_of_mem_replicate hpart]
    rfl
  have hleads : Leads d mostLinks [] [name] [[name]] mostLinks [name] := .down hname hshort hdir (.done mostLinks _)
  exact hleads.append_idle hidle

end Disk

/-- The staging directory stands behind all the points. -/
theorem staging_pointed (name root : String) (points : Nat) (artifacts : List Artifact) :
    (Job.mk (Path.pointed name (points + 1)) root artifacts).staging =
      Path.pointed name (points + 1) ++ ["." ++ root ++ "." ++ "staging"] := by
  have hstem : Path.stem (Path.pointed name (points + 1)) = Path.pointed name (points + 1) := by
    rw [Path.pointed_succ, Job.stem_concat (by decide)]
  rw [Job.staging_eq, hstem]
  rfl

/-- A directory can be named by a path that is short enough, while that of its staging directory is not. An installation there is
given up once the directory has been made sure of. -/
theorem install_pointed {d : Disk} {root : String} {artifacts : List Artifact} (name : String) (points : Nat)
    (hroot : packageRoot none artifacts = .ok root) (hname : IsName name) (hnameShort : ¬longestName < name.utf8ByteSize)
    (hzero : '\x00' ∉ name.toList) (hrootZero : '\x00' ∉ root.toList) (htop : d.stand? [] = some .dir)
    (hdir : d.stand? [name] = some .dir) (hshort : name.utf8ByteSize + 2 * (points + 1) ≤ longestPath)
    (hlong : longestPath < name.utf8ByteSize + 2 * (points + 1) + root.utf8ByteSize + 10) :
    d.hasDir (Path.pointed name (points + 1)) = true ∧
      ∃ made, Extends [[name]] d made ∧ install d (Path.pointed name (points + 1)) artifacts =
        (made, .error (.io (Path.pointed name (points + 1) ++ ["." ++ root ++ "." ++ "staging"]) .nameTooLong)) := by
  set dir := Path.pointed name (points + 1)
  have hsize : dir.text.utf8ByteSize = name.utf8ByteSize + 2 * (points + 1) := Path.utf8ByteSize_pointed name (points + 1)
  have hdirZero : '\x00' ∉ dir.text.toList := Path.zero_not_mem_pointed hzero (points + 1)
  have htext : checkText dir = .ok () := checkText_of_short hdirZero (by omega) (by omega)
  have hleads : Disk.Leads d mostLinks [] dir [[name]] mostLinks [name] := leads_pointed hname hnameShort hdir (points + 1)
  obtain ⟨made, hmade⟩ := hleads.exists_ensureDir htop htext
  have hstaging : (Job.mk dir root artifacts).staging = dir ++ ["." ++ root ++ "." ++ "staging"] :=
    staging_pointed name root points artifacts
  have hjoined : Path.text (dir ++ ["." ++ root ++ "." ++ "staging"]) = dir.text ++ "/" ++ ("." ++ root ++ "." ++ "staging") :=
    Path.text_pointed_concat name (points + 1) _
  have hclear : removeOne made (Job.mk dir root artifacts).staging = .error .nameTooLong := by
    rw [hstaging]
    refine removeOne_of_long ?_ ?_
    · rw [hjoined]
      simp only [String.toList_append, List.mem_append, not_or]
      exact ⟨⟨hdirZero, by decide⟩, ⟨⟨by decide, hrootZero⟩, by decide⟩, by decide⟩
    · have hslash : "/".utf8ByteSize = 1 := rfl
      have hpoint : ".".utf8ByteSize = 1 := rfl
      have hending : "staging".utf8ByteSize = 7 := rfl
      rw [hjoined]
      simp only [String.utf8ByteSize_append]
      omega
  refine ⟨hleads.hasDir htop htext, made, hleads.trail.extends_of_ensureDir htop hmade, ?_⟩
  exact hstaging ▸ install_of_uncleared hroot (Path.isNone_of_pos (by omega)) hmade hclear (by decide)

/-- In a directory that is reached through the place of the package, that place is empty once what stood there has been set aside: the
package cannot be moved there, what stood there cannot be moved back, and no path leads to the staging directory. An old staging
directory stays, too, where its own path is too long, though that of the directory is not. -/
theorem install_changed_of_error :
    (let d : Disk := .dir [("pkg", .dir [("old.py", .file "old".toUTF8)])];
      let result := install d ["pkg", ".."] [⟨"pkg/x.py", "x"⟩];
      result.2 = .error (.io ["pkg", "..", "pkg"] .noEntry) ∧ d.stand? ["pkg", "old.py"] ≠ none ∧
        result.1.stand? ["pkg"] = none ∧ result.1.stand? [".pkg.staging"] = some .dir) ∧
    (let d : Disk := .dir [("out", .dir [(".pkg.staging", .dir [])])];
      let dir := Path.pointed "out" 2043;
      let result := install d dir [⟨"pkg/x.py", "x"⟩];
      d.hasDir dir = true ∧ result.2 = .error (.io (dir ++ [".pkg.staging"]) .nameTooLong) ∧
        result.1.stand? ["out", ".pkg.staging"] = some .dir) := by
  refine ⟨by refine ⟨?_, ?_, ?_, ?_⟩ <;> decide +kernel, ?_⟩
  intro d dir result
  have hroot : packageRoot none [⟨"pkg/x.py", "x"⟩] = .ok "pkg" := by decide +kernel
  obtain ⟨hhas, made, hextends, hinstall⟩ := install_pointed (d := d) "out" 2042 hroot ⟨by decide, by decide⟩ (by decide)
    (by decide) (by decide) rfl (by decide) (by decide) (by decide)
  have hresult : result = (made, .error (.io (dir ++ [".pkg.staging"]) .nameTooLong)) := hinstall
  rw [hresult]
  refine ⟨hhas, rfl, (hextends.stand ["out", ".pkg.staging"]).resolve_right fun hnew => ?_⟩
  cases hnew.2.1

end Workflow
