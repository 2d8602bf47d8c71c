import Mathlib
import Workflow.Proofs.Install.Places

/-!
# The files on their way

What stands in the staging directory while files are written into it: exactly the files written so far, and only directories on the
way to some file (`Job.Staged`). When all files are written, it is the tree of the package (`Job.Staged.complete`).
-/

namespace Workflow

open Disk

/-! ## Making directories -/

namespace Making

/-- The directories that are still to be made. -/
def paths (m : Making) : List Path := m.current :: m.outer

/-- After an attempt the directories to be made are some of those before, and one that such a one stands in. The last one stays. -/
theorem after_more {m m' : Making} {outcome : Except FileError Unit} (h : m.after outcome = .more m') :
    (∀ p ∈ m'.paths, p ∈ m.paths ∨ ∃ q ∈ m.paths, q.parent? = some p ∧ p.isNone = false) ∧
      m'.paths.getLast? = m.paths.getLast? := by
  obtain ⟨current, retried, outer⟩ := m
  cases outcome with
  | ok =>
    cases outer with
    | nil => cases h
    | cons next outer =>
      rw [after, goOn, MakingResult.more.injEq] at h
      subst h
      exact ⟨fun p hp => Or.inl (List.mem_cons_of_mem _ hp), (List.getLast?_cons_cons).symm⟩
  | error e =>
    rw [after] at h
    split at h
    · split at h
      · next above habove =>
        split at h
        · rw [MakingResult.more.injEq] at h
          subst h
          exact ⟨fun p hp => Or.inl hp, rfl⟩
        · next hsome =>
          rw [MakingResult.more.injEq] at h
          subst h
          refine ⟨List.forall_mem_cons.mpr ⟨Or.inr ⟨current, List.mem_cons_self, habove, Bool.eq_false_iff.mpr hsome⟩,
            fun p hp => Or.inl hp⟩, List.getLast?_cons_cons⟩
      · cases h
    · cases h

/-- All directories are made when the last one is. -/
theorem after_made {m : Making} {outcome : Except FileError Unit} (h : m.after outcome = .made) :
    outcome = .ok () ∧ m.paths = [m.current] := by
  obtain ⟨current, retried, outer⟩ := m
  cases outcome with
  | ok =>
    cases outer with
    | nil => exact ⟨rfl, rfl⟩
    | cons next outer => cases h
  | error e =>
    rw [after] at h
    split at h
    · split at h
      · split at h <;> cases h
      · cases h
    · cases h

end Making

namespace Job

variable {j : Job} {initial d : Disk} {places : List Spot} {base : Spot} {done : List Artifact}

/-! ## What stands in the staging directory -/

/-- The staging directory holds the files written so far and directories on the way to files, and no link. -/
structure Staged (j : Job) (base : Spot) (done : List Artifact) (d : Disk) : Prop where
  plain : ∀ names target, d.stand? (base ++ [j.stagingName] ++ names) ≠ some (.link target)
  files : ∀ names contents,
    d.stand? (base ++ [j.stagingName] ++ names) = some (.file contents) ↔ lastContents? done names = some contents
  dirs : ∀ names, d.stand? (base ++ [j.stagingName] ++ names) = some .dir → ∃ a ∈ j.artifacts, names <+: a.names

/-- The tree of the package stands at a place. -/
def Complete (j : Job) (spot : Spot) (d : Disk) : Prop :=
  ∀ inside, d.stand? (spot ++ inside) = packageStand j.artifacts (j.root :: inside)

/-- Nothing is written at first. -/
theorem staged_of_missing (h : d.find? (base ++ [j.stagingName]) = none) : j.Staged base [] d := by
  have hnone : ∀ names, d.stand? (base ++ [j.stagingName] ++ names) = none := by
    intro names
    rw [Entry.stand?, Entry.find?_append, h]
    rfl
  refine ⟨fun names target => ?_, fun names contents => ?_, fun names hdir => ?_⟩
  · rw [hnone]
    intro hx
    cases hx
  · rw [hnone]
    exact iff_of_false (fun hx => by cases hx) (fun hx => by cases hx)
  · rw [hnone] at hdir
    cases hdir

/-- A directory on the way to a file may appear. -/
theorem Staged.replace_empty (h : j.Staged base done d) {parent : Spot} {name : String} {names : Spot}
    (hspot : parent ++ [name] = base ++ [j.stagingName] ++ names) (hnames : ∃ a ∈ j.artifacts, names <+: a.names)
    (hparent : d.stand? parent = some .dir) (hnone : d.stand? (parent ++ [name]) = none) :
    j.Staged base done (d.replace (parent ++ [name]) (some .empty)) := by
  have hstand := stand?_replace_empty hparent hnone
  refine ⟨fun others target => ?_, fun others contents => ?_, fun others hdir => ?_⟩
  · rw [hstand]
    split
    · intro hx
      cases hx
    · exact h.plain others target
  · rw [hstand]
    split
    · next heq =>
      have hold := h.files others contents
      rw [heq, hnone] at hold
      exact iff_of_false (fun hx => by cases hx) (fun hx => by cases hold.mpr hx)
    · exact h.files others contents
  · rw [hstand] at hdir
    split at hdir
    · next heq =>
      rw [hspot, List.append_right_inj] at heq
      rwa [heq]
    · exact h.dirs others hdir

/-- A file is written. -/
theorem Staged.replace_file (h : j.Staged base done d) {a : Artifact} {parent : Spot} {name : String}
    (hspot : parent ++ [name] = base ++ [j.stagingName] ++ a.names) (hparent : d.stand? parent = some .dir)
    (hplain : d.stand? (parent ++ [name]) ≠ some .dir) :
    j.Staged base (done ++ [a]) (d.replace (parent ++ [name]) (some (.file a.contents.toUTF8))) := by
  have hstand := stand?_replace_file hparent hplain a.contents.toUTF8
  have hsame : ∀ names, base ++ [j.stagingName] ++ names = parent ++ [name] ↔ names = a.names := by
    intro names
    rw [hspot, List.append_right_inj]
  refine ⟨fun names target => ?_, fun names contents => ?_, fun names hdir => ?_⟩
  · rw [hstand]
    split
    · intro hx
      cases hx
    · exact h.plain names target
  · rw [hstand, lastContents?_concat]
    by_cases hnames : names = a.names
    · rw [if_pos ((hsame names).mpr hnames), if_pos hnames, Option.some.injEq, Option.some.injEq, Stand.file.injEq]
    · rw [if_neg (mt (hsame names).mp hnames), if_neg hnames]
      exact h.files names contents
  · rw [hstand] at hdir
    split at hdir
    · cases hdir
    · exact h.dirs names hdir

/-- When all files are written, the tree of the package stands in the staging directory. -/
theorem Staged.complete (h : j.Staged base j.artifacts d) (names : Spot) :
    d.stand? (base ++ [j.stagingName] ++ names) = packageStand j.artifacts names := by
  rw [packageStand]
  cases hcontents : lastContents? j.artifacts names with
  | some contents => exact (h.files names contents).mpr hcontents
  | none =>
    simp only
    split
    · next hany =>
      rw [List.any_eq_true] at hany
      obtain ⟨a, ha, hprefix⟩ := hany
      obtain ⟨rest, hrest⟩ := List.isPrefixOf_iff_prefix.mp hprefix
      obtain ⟨contents, hfile⟩ := lastContents?_isSome ha
      have hne : rest ≠ [] := by
        intro hnil
        rw [hnil, List.append_nil] at hrest
        rw [hrest, hfile] at hcontents
        cases hcontents
      have hstand := (h.files a.names contents).mpr hfile
      rw [← hrest, ← List.append_assoc] at hstand
      exact Entry.stand?_of_append (by rw [hstand]; exact Option.some_ne_none _) hne
    · next hany =>
      cases hstand : d.stand? (base ++ [j.stagingName] ++ names) with
      | none => rfl
      | some stand =>
        cases stand with
        | file contents =>
          rw [(h.files names contents).mp hstand] at hcontents
          cases hcontents
        | link target => exact absurd hstand (h.plain names target)
        | dir =>
          obtain ⟨a, ha, hprefix⟩ := h.dirs names hstand
          exact absurd (List.any_eq_true.mpr ⟨a, ha, List.isPrefixOf_iff_prefix.mpr hprefix⟩) hany

/-- The files on their way are not touched by a change elsewhere. -/
theorem Staged.replace (h : j.Staged base done d) {s : Spot} (hs : ∀ names, ¬s <+: base ++ [j.stagingName] ++ names)
    (new : Option Entry) : j.Staged base done (d.replace s new) := by
  have hsame : ∀ names, Entry.stand? (d.replace s new) (base ++ [j.stagingName] ++ names) =
      d.stand? (base ++ [j.stagingName] ++ names) := fun names => Entry.stand?_replace_of_not_prefix (hs names) new
  exact ⟨fun names target => hsame names ▸ h.plain names target, fun names contents => hsame names ▸ h.files names contents,
    fun names hdir => h.dirs names (hsame names ▸ hdir)⟩

end Job

end Workflow
