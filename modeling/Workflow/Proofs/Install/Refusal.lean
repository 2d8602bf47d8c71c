import Mathlib
import Workflow.Proofs.Install.Runs
import Workflow.Proofs.Package.Paths

/-!
# Files that are refused

Which files are turned down before anything is done on the disk, told by the components of their paths (`Refused`): those that do not
lie in one directory, each below at least one name more. Files that are not refused have a root (`packageRoot_ok_iff`), and what a job
itself reports is always an operation on the disk that failed, so an installation ends in a refusal only for files that are refused,
and then the disk is as it was (`install_refusal_iff`).
-/

namespace Workflow

/-! ## Components -/

/-- A step of a path: to the top, to where it starts, to the directory above, or to an entry. -/
inductive Component
  | top
  | here
  | above
  | entry (name : String)
  deriving DecidableEq

namespace Path

/-- The step that a part of a path takes. -/
def step (part : String) : Component := if part = ".." then .above else .entry part

/-- The steps of a path. Doubled slashes, slashes at the end and single points are none, but for a slash or a point that the path begins
with. -/
def components (p : Path) : List Component :=
  (if p.isAbsolute then [.top] else if p.head? = some "." then [.here] else []) ++ (p.filter (!isIdle ·)).map step

/-- The steps of parts lead to entries alone if no part leads up. -/
theorem map_step_eq_iff {parts names : List String} :
    parts.map step = names.map .entry ↔ ".." ∉ parts ∧ parts = names := by
  induction parts generalizing names with
  | nil => cases names <;> simp
  | cons part parts ih =>
    cases names with
    | nil => simp
    | cons name names =>
      rw [List.map_cons, List.map_cons, List.cons_eq_cons, ih, List.mem_cons, not_or, List.cons_eq_cons, step]
      by_cases hup : part = ".."
      · rw [if_pos hup]
        exact iff_of_false (fun hx => by cases hx.1) fun hx => hx.1.1 hup.symm
      · rw [if_neg hup, Component.entry.injEq]
        exact ⟨fun hx => ⟨⟨Ne.symm hup, hx.2.1⟩, hx.1, hx.2.2⟩, fun hx => ⟨hx.2.1, hx.1.2, hx.2.2⟩⟩

/-- A path does nothing but lead down if its steps lead to entries. -/
theorem names?_eq_some_iff {p : Path} {names : List String} : p.names? = some names ↔ p.components = names.map .entry := by
  have hfirst : ∀ {c : Component} {rest : List Component}, (∀ name, c ≠ .entry name) → c :: rest ≠ names.map .entry := by
    intro c rest hc heq
    cases names with
    | nil => cases heq
    | cons name names => exact hc name (List.cons_eq_cons.mp heq).1
  rw [names?, components]
  by_cases htop : p.isAbsolute = true
  · rw [if_pos htop, htop, Bool.true_or, Bool.true_or, if_pos rfl]
    exact iff_of_false (fun hx => by cases hx) (hfirst fun _ hx => by cases hx)
  · rw [Bool.not_eq_true] at htop
    rw [htop, if_neg Bool.false_ne_true, Bool.false_or]
    by_cases hhere : p.head? = some "."
    · rw [if_pos hhere, beq_iff_eq.mpr hhere, Bool.true_or, if_pos rfl]
      exact iff_of_false (fun hx => by cases hx) (hfirst fun _ hx => by cases hx)
    · rw [if_neg hhere, beq_eq_false_iff_ne.mpr hhere, Bool.false_or, List.nil_append, map_step_eq_iff]
      simp only [List.contains_iff_mem]
      split
      · next hup => exact iff_of_false (fun hx => by cases hx) fun hx => hx.1 hup
      · next hup => exact ⟨fun hx => ⟨hup, Option.some.inj hx⟩, fun hx => congrArg some hx.2⟩

end Path

/-- The steps of the path of a file. -/
def Artifact.components (a : Artifact) : List Component := (Path.ofText a.path).components

/-! ## Refusal -/

/-- Files that are turned down: there are none, one of them does not lead down or not below a directory, or they do not lie in one
directory. -/
inductive Refused (artifacts : List Artifact) : Prop
  | empty (h : artifacts = [])
  | astray {a : Artifact} (ha : a ∈ artifacts) {c : Component} (hc : c ∈ a.components) (h : ∀ name, c ≠ .entry name)
  | short {a : Artifact} (ha : a ∈ artifacts) (h : a.components.length < 2)
  | mixed {a b : Artifact} (ha : a ∈ artifacts) (hb : b ∈ artifacts) (h : a.components.head? ≠ b.components.head?)

/-- Steps that lead to entries lead to names. -/
theorem exists_map_entry {steps : List Component} (h : ∀ c ∈ steps, ∃ name, c = .entry name) :
    ∃ names : List String, steps = names.map .entry := by
  induction steps with
  | nil => exact ⟨[], rfl⟩
  | cons c steps ih =>
    obtain ⟨⟨name, rfl⟩, hrest⟩ := List.forall_mem_cons.mp h
    obtain ⟨names, rfl⟩ := ih hrest
    exact ⟨name :: names, rfl⟩

/-- The path of a file that is not refused leads into a directory and below it. -/
theorem names?_of_not_refused {artifacts : List Artifact} (h : ¬Refused artifacts) {a : Artifact} (ha : a ∈ artifacts) :
    ∃ first second rest, (Path.ofText a.path).names? = some (first :: second :: rest) ∧
      a.components.head? = some (.entry first) := by
  obtain ⟨names, hnames⟩ := exists_map_entry fun c hc => not_forall_not.mp fun hother => h (.astray ha hc hother)
  have hlength : 2 ≤ names.length := by
    have hlong := not_lt.mp fun hshort => h (.short ha hshort)
    rwa [hnames, List.length_map] at hlong
  obtain ⟨first, names, rfl⟩ := List.exists_cons_of_length_pos (Nat.zero_lt_of_lt hlength)
  obtain ⟨second, rest, rfl⟩ := List.exists_cons_of_length_pos (Nat.succ_lt_succ_iff.mp hlength)
  exact ⟨first, second, rest, Path.names?_eq_some_iff.mpr hnames, by rw [hnames]; rfl⟩

/-- Files have a root unless they are refused. -/
theorem packageRoot_ok_iff {artifacts : List Artifact} : (∃ root, packageRoot none artifacts = .ok root) ↔ ¬Refused artifacts := by
  constructor
  · rintro ⟨root, hroot⟩ hrefused
    have hsteps : ∀ a ∈ artifacts, ∃ second rest, a.components = (root :: second :: rest).map .entry := by
      intro a ha
      obtain ⟨second, rest, hnames⟩ := (packageRoot_eq_ok hroot).2 a ha
      exact ⟨second, rest, Path.names?_eq_some_iff.mp hnames⟩
    cases hrefused with
    | empty hempty => exact artifacts_ne_nil hroot hempty
    | astray ha hc hother =>
      obtain ⟨second, rest, hnames⟩ := hsteps _ ha
      rw [hnames] at hc
      obtain ⟨name, -, rfl⟩ := List.mem_map.mp hc
      exact hother name rfl
    | short ha hshort =>
      obtain ⟨second, rest, hnames⟩ := hsteps _ ha
      rw [hnames, List.length_map, List.length_cons, List.length_cons] at hshort
      omega
    | mixed ha hb hne =>
      obtain ⟨second, rest, hnames⟩ := hsteps _ ha
      obtain ⟨second', rest', hnames'⟩ := hsteps _ hb
      rw [hnames, hnames'] at hne
      exact hne rfl
  · intro h
    obtain ⟨a, ha⟩ := List.exists_mem_of_ne_nil artifacts fun hempty => h (.empty hempty)
    obtain ⟨root, -, -, -, hroot⟩ := names?_of_not_refused h ha
    refine ⟨root, packageRoot_of_names (List.ne_nil_of_mem ha) fun b hb => ?_⟩
    obtain ⟨first, second, rest, hnames, hfirst⟩ := names?_of_not_refused h hb
    have hsame : a.components.head? = b.components.head? := not_not.mp fun hne => h (.mixed ha hb hne)
    rw [hroot, hfirst, Option.some.injEq, Component.entry.injEq] at hsame
    exact ⟨second, rest, hsame ▸ hnames⟩

/-! ## What is reported -/

/-- Whether an error is about the files themselves, and not about an operation on the disk. -/
def InstallError.isRefusal : InstallError → Bool
  | unsafePath _ => true
  | mixedRoots => true
  | io _ _ => false

/-- Files that have no root are refused. -/
theorem isRefusal_of_packageRoot {artifacts : List Artifact} {known : Option String} {e : InstallError}
    (h : packageRoot known artifacts = .error e) : e.isRefusal = true := by
  induction artifacts generalizing known with
  | nil =>
    cases known with
    | none =>
      obtain rfl := Except.error.inj h
      rfl
    | some root => cases h
  | cons a artifacts ih =>
    rw [packageRoot] at h
    split at h
    · cases known with
      | none => exact ih h
      | some root =>
        simp only at h
        split at h
        · exact ih h
        · obtain rfl := Except.error.inj h
          rfl
    · obtain rfl := Except.error.inj h
      rfl

namespace Phase

variable {j : Job}

/-- The error that a phase carries. -/
def error? : Phase → Option InstallError
  | restoring e => some e
  | cleaning e => e
  | finished (.error e) => some e
  | _ => none

/-- The work on the next file begins without an error. -/
theorem error?_stage (artifacts : List Artifact) : (stage j artifacts).error? = none := by
  cases artifacts with
  | nil => rfl
  | cons a rest =>
    rw [stage]
    split <;> rfl

/-- The end of the clean-up reports an error that was there before, or one of the clean-up. -/
theorem error?_finish (earlier late : Option InstallError) : (finish j earlier late).error? = earlier.or late := by
  rw [finish]
  cases earlier.or late <;> rfl

/-- A phase reports operations on the disk, as long as the phase before does. -/
theorem error?_after {phase : Phase} (h : ∀ e ∈ phase.error?, e.isRefusal = false) (outcome : Except FileError Unit) :
    ∀ e ∈ (phase.after j outcome).error?, e.isRefusal = false := by
  have hnone : ∀ {next : Phase}, next.error? = none → ∀ e ∈ next.error?, e.isRefusal = false := by
    intro next hnext e he
    rw [hnext] at he
    cases he
  have hio : ∀ {next : Phase} {path : Path} {err : FileError}, next.error? = some (.io path err) →
      ∀ e ∈ next.error?, e.isRefusal = false := by
    intro next path err hnext e he
    rw [hnext] at he
    obtain rfl := Option.some.inj he
    rfl
  cases phase with
  | makingTarget m =>
    rw [after]
    cases m.after outcome with
    | more | made => exact hnone rfl
    | failed => exact hio rfl
  | clearingStaging =>
    rw [after.eq_def]
    simp only
    split
    · exact hnone rfl
    · exact hnone (error?_stage _)
    · exact hio rfl
  | makingParent m a rest =>
    rw [after]
    cases m.after outcome with
    | more | made => exact hnone rfl
    | failed => exact hio rfl
  | writing a rest =>
    cases outcome with
    | ok => exact hnone (error?_stage _)
    | error => exact hio rfl
  | clearingBackup =>
    rw [after.eq_def]
    simp only
    split
    · exact hnone rfl
    · exact hnone rfl
    · exact hio rfl
  | looking => cases outcome <;> exact hnone rfl
  | settingAside =>
    cases outcome with
    | ok => exact hnone rfl
    | error => exact hio rfl
  | swapping previous =>
    cases outcome with
    | ok => cases previous <;> exact hnone rfl
    | error => cases previous <;> exact hio rfl
  | restoring error => exact h
  | clearingPrevious => cases outcome <;> exact hnone rfl
  | cleaning error =>
    rw [after.eq_def]
    simp only
    split
    · exact h
    · rw [error?_finish, Option.or_none]
      exact h
    · rw [error?_finish]
      cases error with
      | none => exact fun e he => Option.some.inj he ▸ rfl
      | some error => exact h
  | finished result => exact h

end Phase

namespace Install

/-- What a job reports is an operation on the disk that failed. -/
theorem isRefusal_of_run {j : Job} {d d' : Disk} {phase : Phase} {steps : Nat} {e : InstallError}
    (h : ∀ e ∈ phase.error?, e.isRefusal = false) (hrun : run j steps d phase = (d', .finished (.error e))) :
    e.isRefusal = false := by
  induction steps generalizing d phase with
  | zero =>
    obtain ⟨-, rfl⟩ := Prod.mk.inj hrun
    exact h e rfl
  | succ steps ih =>
    rw [run_eq_disturbed, List.replicate_succ, disturbed, ← run_eq_disturbed] at hrun
    refine ih ?_ hrun
    rw [step]
    cases phase.action? j with
    | none => exact h
    | some a => exact Phase.error?_after h _

end Install

/-- The files of an installation are turned down if and only if they are refused, and then the disk is as it was. -/
theorem install_refusal_iff (d : Disk) (dir : Path) (artifacts : List Artifact) :
    ((∃ e, (install d dir artifacts).2 = .error e ∧ e.isRefusal = true) ↔ Refused artifacts) ∧
      (Refused artifacts → (install d dir artifacts).1 = d) := by
  cases hroot : packageRoot none artifacts with
  | error e =>
    have hrefused : Refused artifacts := not_not.mp fun hnot => by
      obtain ⟨root, hok⟩ := packageRoot_ok_iff.mpr hnot
      cases hroot.symm.trans hok
    rw [install, hroot]
    exact ⟨iff_of_true ⟨e, rfl, isRefusal_of_packageRoot hroot⟩ hrefused, fun _ => rfl⟩
  | ok root =>
    have haccepted : ¬Refused artifacts := packageRoot_ok_iff.mp ⟨root, hroot⟩
    refine ⟨iff_of_false ?_ haccepted, fun hrefused => absurd hrefused haccepted⟩
    rintro ⟨e, he, hrefusal⟩
    have hfirst : ∀ error ∈ (Phase.first ⟨dir, root, artifacts⟩).error?, error.isRefusal = false := by
      intro error herror
      rw [Phase.first] at herror
      split at herror <;> cases herror
    rw [install, hroot] at he
    simp only at he
    split at he
    · next d' result hrun =>
      obtain rfl : result = .error e := he
      rw [Install.isRefusal_of_run hfirst hrun] at hrefusal
      cases hrefusal
    · obtain rfl := Except.error.inj he
      cases hrefusal

end Workflow
