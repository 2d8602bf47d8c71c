import Mathlib
import Workflow.Proofs.Install.Package

/-!
# The places of an installation

A job works at three entries of one directory: the package, the files on their way there, and the former package. What it changes
elsewhere is that missing directories of its own path appear (`Job.Frame`). Here is what holds as long as that is so.
-/

namespace Workflow

open Disk

namespace Job

variable {j : Job} {initial d : Disk} {places : List Spot} {base : Spot}

/-! ## Three entries of one directory -/

/-- The name of the directory that the files are written into at first. -/
def stagingName (j : Job) : String := "." ++ j.root ++ "." ++ "staging"

/-- The name that the former package has for the time being. -/
def backupName (j : Job) : String := "." ++ j.root ++ "." ++ "previous"

/-- The places below the three entries, they themselves among them. -/
def Own (j : Job) (base s : Spot) : Prop :=
  base ++ [j.root] <+: s ∨ base ++ [j.stagingName] <+: s ∨ base ++ [j.backupName] <+: s

/-- Where the path of the directory leads on a disk, before it is made: to a place and not through one of the three entries
there. -/
structure Placed (j : Job) (d : Disk) (places : List Spot) (base : Spot) : Prop where
  top : d.stand? [] = some .dir
  trail : Trail d [] j.dir places base
  root : base ++ [j.root] ∉ places
  staging : base ++ [j.stagingName] ∉ places
  backup : base ++ [j.backupName] ∉ places

/-- Entries of one directory are apart. -/
theorem not_prefix_of_ne {a b : String} (h : a ≠ b) (inside : Spot) : ¬base ++ [a] <+: base ++ [b] ++ inside := by
  rw [List.append_assoc, List.prefix_append_right_inj, List.singleton_append, List.cons_prefix_cons]
  exact fun hx => h hx.1

/-- What is below one entry of a directory is apart from the others. -/
theorem apart_of_ne (base : Spot) {a b : String} (h : a ≠ b) (inside : Spot) :
    ¬base ++ [a] ++ inside <+: base ++ [b] ∧ ¬base ++ [b] <+: base ++ [a] ++ inside := by
  refine ⟨fun hx => ?_, not_prefix_of_ne (Ne.symm h) inside⟩
  have hentry : ¬base ++ [a] <+: base ++ [b] ++ [] := not_prefix_of_ne h []
  rw [List.append_nil] at hentry
  exact hentry ((List.prefix_append _ inside).trans hx)

/-- What is below an entry of a directory is not above the directory. -/
theorem not_prefix_base (name : String) (inside : Spot) : ¬base ++ [name] ++ inside <+: base := by
  intro hx
  have hlength := hx.length_le
  simp only [List.length_append, List.length_singleton] at hlength
  omega

/-- Entries of a directory are apart. -/
theorem apart_at (base : Spot) {a b : String} (h : a ≠ b) : ¬base ++ [a] <+: base ++ [b] ∧ ¬base ++ [b] <+: base ++ [a] := by
  have hapart := apart_of_ne base h []
  rwa [List.append_nil] at hapart

/-- Entries with different names are at different places. -/
theorem entry_ne {a b : String} (h : a ≠ b) : base ++ [a] ≠ base ++ [b] :=
  fun heq => h (List.singleton_inj.mp (List.append_cancel_left heq))

/-- A hidden name leads down, and is none of the package. -/
theorem isName_hidden (root suffix : String) (hsuffix : suffix ≠ "") :
    IsName ("." ++ root ++ "." ++ suffix) ∧ "." ++ root ++ "." ++ suffix ≠ root := by
  have hlength : ("." ++ root ++ "." ++ suffix).length = root.length + suffix.length + 2 := by
    simp only [String.length_append]
    have hdot : ".".length = 1 := rfl
    omega
  have hpos : 0 < suffix.length := Nat.pos_of_ne_zero fun hzero => hsuffix (String.length_eq_zero_iff.mp hzero)
  have hne : ∀ s : String, s.length ≤ 2 → "." ++ root ++ "." ++ suffix ≠ s := by
    intro s hs heq
    rw [heq] at hlength
    omega
  refine ⟨⟨?_, hne ".." (by decide)⟩, fun heq => ?_⟩
  · rw [Path.isIdle, beq_eq_false_iff_ne.mpr (hne "" (by decide)), beq_eq_false_iff_ne.mpr (hne "." (by decide)), Bool.or_false]
  · rw [heq] at hlength
    omega

/-- The staging name leads down. -/
theorem isName_stagingName : IsName j.stagingName := (isName_hidden j.root "staging" (by decide)).1

/-- The backup name leads down. -/
theorem isName_backupName : IsName j.backupName := (isName_hidden j.root "previous" (by decide)).1

/-- The staging name is not that of the package. -/
theorem stagingName_ne_root : j.stagingName ≠ j.root := (isName_hidden j.root "staging" (by decide)).2

/-- The backup name is not that of the package. -/
theorem backupName_ne_root : j.backupName ≠ j.root := (isName_hidden j.root "previous" (by decide)).2

/-- The two hidden names are different. -/
theorem stagingName_ne_backupName : j.stagingName ≠ j.backupName := by
  rw [stagingName, backupName, ne_eq, String.append_right_inj]
  decide

/-- What is below one of the three entries is their own. -/
theorem Own.append {s : Spot} (h : j.Own base s) (inside : Spot) : j.Own base (s ++ inside) :=
  h.imp (·.trans (List.prefix_append _ _)) (Or.imp (·.trans (List.prefix_append _ _)) (·.trans (List.prefix_append _ _)))

/-- The place of the package is one of the three. -/
theorem own_root : j.Own base (base ++ [j.root]) := Or.inl List.prefix_rfl

/-- The staging directory is one of the three. -/
theorem own_staging : j.Own base (base ++ [j.stagingName]) := Or.inr (Or.inl List.prefix_rfl)

/-- The backup is one of the three. -/
theorem own_backup : j.Own base (base ++ [j.backupName]) := Or.inr (Or.inr List.prefix_rfl)

/-- A job with other files for the same place. -/
def carrying (j : Job) (artifacts : List Artifact) : Job := { j with artifacts }

/-- The place is the same whatever the files are. -/
theorem Placed.carrying (h : j.Placed d places base) (artifacts : List Artifact) : (j.carrying artifacts).Placed d places base :=
  ⟨h.top, h.trail, h.root, h.staging, h.backup⟩

/-- No place that the path of the directory comes through is one of the three entries, or below one. -/
theorem Placed.not_own (h : j.Placed d places base) {s : Spot} (hs : s ∈ places) : ¬j.Own base s := by
  have hmem : ∀ name, base ++ [name] <+: s → base ++ [name] ∈ places := by
    intro name hname
    rcases h.trail.mem_of_prefix.1 s hs _ hname with hnil | hmem
    · exact absurd (List.prefix_nil.mp hnil) (List.append_ne_nil_of_right_ne_nil _ (List.cons_ne_nil _ _))
    · exact hmem
  intro hown
  rcases hown with hown | hown | hown
  · exact h.root (hmem _ hown)
  · exact h.staging (hmem _ hown)
  · exact h.backup (hmem _ hown)

/-! ## What stays elsewhere -/

/-- What stands elsewhere than at the three entries is as it was, but that missing directories of the path of the directory may have
appeared. -/
def Frame (j : Job) (initial : Disk) (places : List Spot) (base : Spot) (d : Disk) : Prop :=
  ∀ s, ¬j.Own base s → d.stand? s = initial.stand? s ∨
    s ∈ places ∧ initial.stand? s = none ∧ d.stand? s = some .dir

/-- Nothing changes at the beginning. -/
theorem Frame.refl : j.Frame d places base d := fun _ _ => Or.inl rfl

/-- A change at one of the three entries is none elsewhere. -/
theorem Frame.replace (h : j.Frame initial places base d) {s : Spot} (hs : j.Own base s) (new : Option Entry) :
    j.Frame initial places base (d.replace s new) := by
  intro t ht
  have hst : ¬s <+: t := fun hst => ht (hs.imp (·.trans hst) (Or.imp (·.trans hst) (·.trans hst)))
  rw [Entry.stand?_replace_of_not_prefix hst]
  exact h t ht

/-- A missing directory of the path may appear. -/
theorem Frame.replace_empty (h : j.Frame initial places base d) {parent : Spot} {name : String}
    (hplace : parent ++ [name] ∈ places) (hparent : d.stand? parent = some .dir) (hnone : d.stand? (parent ++ [name]) = none) :
    j.Frame initial places base (d.replace (parent ++ [name]) (some .empty)) :=
  fun t ht => gained_replace_empty (h t ht) hplace hparent hnone

/-- The links on the path of the directory are as they were. -/
theorem Frame.link_iff (h : j.Frame initial places base d) (hplaced : j.Placed initial places base) {s : Spot} (hs : s ∈ places)
    (target : String) : d.stand? s = some (.link target) ↔ initial.stand? s = some (.link target) := by
  rcases h s (hplaced.not_own hs) with hsame | ⟨-, hnone, hdir⟩
  · rw [hsame]
  · rw [hnone, hdir]
    exact iff_of_false (fun hx => by cases hx) (fun hx => by cases hx)

/-- The path of the directory has the trail that it had. -/
theorem Frame.trail (h : j.Frame initial places base d) (hplaced : j.Placed initial places base) : Trail d [] j.dir places base :=
  hplaced.trail.congr fun _ hs target => h.link_iff hplaced hs target

/-- The top stays a directory. -/
theorem Frame.top (h : j.Frame initial places base d) (hplaced : j.Placed initial places base) : d.stand? [] = some .dir := by
  have hown : ¬j.Own base [] := by
    have hne : ∀ name, ¬base ++ [name] <+: [] := fun name hx =>
      absurd (List.prefix_nil.mp hx) (List.append_ne_nil_of_right_ne_nil _ (List.cons_ne_nil _ _))
    exact fun hx => hx.elim (hne _) (Or.elim · (hne _) (hne _))
  rcases h [] hown with hsame | ⟨-, -, hdir⟩
  · rw [hsame, hplaced.top]
  · exact hdir

/-- The place of the directory is what it was at first. -/
theorem Frame.placed (h : j.Frame initial places base d) (hplaced : j.Placed initial places base) : j.Placed d places base :=
  ⟨h.top hplaced, h.trail hplaced, hplaced.root, hplaced.staging, hplaced.backup⟩

/-! ## The directory that is there -/

/-- The path of the directory leads to it. -/
def Ready (j : Job) (places : List Spot) (base : Spot) (d : Disk) : Prop :=
  ∃ left, Disk.Leads d mostLinks [] j.dir.stem places left base

/-- A directory that has been ensured is ready. -/
theorem ready_of_ensureDir {d' : Disk} (htop : d.stand? [] = some .dir) (htrail : Trail d [] j.dir places base)
    (h : ensureDir d j.dir = .ok d') : j.Ready places base d' := by
  obtain ⟨left, hleads⟩ := htrail.leads_of_ensureDir htop h
  obtain ⟨idle, hdir, hidle⟩ := Path.exists_stem_append j.dir
  rw [hdir] at hleads
  exact ⟨left, hleads.cut hidle⟩

/-- A change at one of the three entries leaves the directory ready. -/
theorem Ready.replace (h : j.Ready places base d) (hplaced : j.Placed initial places base) {s : Spot} (hs : j.Own base s)
    (new : Option Entry) : j.Ready places base (d.replace s new) := by
  obtain ⟨left, hleads⟩ := h
  refine ⟨left, hleads.congr fun q hq => Entry.stand?_replace_of_not_prefix (fun hsq => ?_) new⟩
  exact hplaced.not_own hq (hs.imp (·.trans hsq) (Or.imp (·.trans hsq) (·.trans hsq)))

end Job

end Workflow
