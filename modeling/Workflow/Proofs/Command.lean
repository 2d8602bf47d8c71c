import Mathlib
import Workflow.Command
import Workflow.Proofs.Install.Failure
import Workflow.Proofs.Strictness

/-!
# What a conversion tells

A conversion touches the disk only for a workflow that compiles, and its status says what has become of it (`Conversion.Told`). The
validation of the same file tells the same of the workflow: the two reject the same files with the same issues, and what is valid is
what is written (`Conversion.Agreed`). Both come from one distinction of files, by what their reading comes to
(`Conversion.reading_cases`).
-/

namespace Workflow

open Disk

namespace Conversion

variable {d : Disk} {coloured strict : Bool} {path output : String} {options : Options} {c : Compilation} {r : Report}
  {text : Except FileError String} {format : ReportFormat}

/-! ## Files -/

/-- A file is read and its text is compiled. -/
def Compiles (d : Disk) (path : String) (strict : Bool) (options : Options) (c : Compilation) : Prop :=
  ∃ text, d.readText (Path.ofText path) = .ok text ∧ compileText text strict options = .ok c

/-- A file is read and its text is rejected. -/
def Rejects (d : Disk) (path : String) (strict : Bool) (options : Options) (r : Report) : Prop :=
  ∃ text, d.readText (Path.ofText path) = .ok text ∧ compileText text strict options = .error (.rejected r)

/-- A file is read and there is a report on its text. -/
def Reports (d : Disk) (path : String) (strict : Bool) (r : Report) : Prop :=
  ∃ text, d.readText (Path.ofText path) = .ok text ∧ validateText text strict = .ok r

/-- What is there to be written is what the text of the file is compiled to. -/
theorem compiles_iff : Compiles d path strict options c ↔ ofReading strict options (d.readText (Path.ofText path)) = .ok c := by
  rw [Compiles]
  cases d.readText (Path.ofText path) with
  | error e => simp [ofReading]
  | ok text =>
    cases hcompile : compileText text strict options with
    | ok c' => simp [ofReading, hcompile]
    | error e => cases e <;> simp [ofReading, hcompile]

/-- A file is rejected with the report that its text is rejected with. -/
theorem rejects_iff :
    Rejects d path strict options r ↔ ofReading strict options (d.readText (Path.ofText path)) = .error (.rejected r) := by
  rw [Rejects]
  cases d.readText (Path.ofText path) with
  | error e => simp [ofReading]
  | ok text =>
    cases hcompile : compileText text strict options with
    | ok c' => simp [ofReading, hcompile]
    | error e => cases e <;> simp [ofReading, hcompile]

/-- A file with nothing to be written does not compile. -/
theorem not_compiles_of_error {fault : ConvertFault} (h : ofReading strict options (d.readText (Path.ofText path)) = .error fault)
    (c : Compilation) : ¬Compiles d path strict options c :=
  fun hc => by cases h.symm.trans (compiles_iff.mp hc)

/-- A file that is rejected for no report is not rejected. -/
theorem not_rejects_of_ne (h : ∀ r, ofReading strict options (d.readText (Path.ofText path)) ≠ .error (.rejected r)) :
    ¬∃ r, Rejects d path strict options r := by
  rintro ⟨r, hr⟩
  exact h r (rejects_iff.mp hr)

/-- The report on a file is the one on its text. -/
theorem reports_iff :
    Reports d path strict r ↔ (FileCheck.ofReading strict path (d.readText (Path.ofText path))).result = .ok r := by
  rw [Reports]
  cases d.readText (Path.ofText path) with
  | error e => simp [FileCheck.ofReading]
  | ok text => cases hvalidate : validateText text strict <;> simp [FileCheck.ofReading, hvalidate]

/-- What is read of a file is faulty for the validation and the conversion, or it is rejected with the report on it, or it is
compiled with that. -/
theorem reading_cases (strict : Bool) (options : Options) (path : String) (text : Except FileError String) :
    (∃ f, (FileCheck.ofReading strict path text).result = .error f ∧ ofReading strict options text = .error (.input f)) ∨
      (∃ r, (FileCheck.ofReading strict path text).result = .ok r ∧ r.passed = false ∧
        ofReading strict options text = .error (.rejected r)) ∨
      ∃ c, (FileCheck.ofReading strict path text).result = .ok c.report ∧ c.report.passed = true ∧
        ofReading strict options text = .ok c := by
  cases text with
  | error e => exact Or.inl ⟨.unreadable e, rfl, rfl⟩
  | ok text =>
    cases hload : load text with
    | error e =>
      have hvalidate : validateText text strict = .error e := by
        rw [validateText, hload]
        rfl
      have hcompile : compileText text strict options = .error (.malformed e) := by rw [compileText, hload]
      exact Or.inl ⟨.malformed e, by simp [FileCheck.ofReading, hvalidate], by simp [ofReading, hcompile]⟩
    | ok t =>
      have hvalidate : validateText text strict = .ok (validateTree t strict) := by
        rw [validateText, hload]
        rfl
      have hcompile : compileText text strict options = compileTree t strict options := by rw [compileText, hload]
      simp only [FileCheck.ofReading, ofReading, hvalidate, hcompile]
      rcases compileTree_eq t strict options with ⟨hno, hrejected⟩ | ⟨hyes, c, hc, hreport⟩
      · exact Or.inr (Or.inl ⟨validateTree t strict, rfl, hno, by rw [hrejected]⟩)
      · exact Or.inr (Or.inr ⟨c, by rw [hreport], by rw [hreport, hyes], by rw [hc]⟩)

/-- The files of a compilation have the name of the package for their root. -/
theorem packageRoot_of_compiles (h : Compiles d path strict options c) :
    packageRoot none c.artifacts = .ok (identifierOf (options.moduleName.getD c.summary.name) "workflow") := by
  obtain ⟨text, -, hcompile⟩ := h
  rw [compileText] at hcompile
  split at hcompile
  · cases hcompile
  · obtain ⟨document, g, -, -, -, rfl⟩ := compileTree_eq_ok_iff.mp hcompile
    have hname : g.summary.name = g.name := rfl
    rw [hname, ← Layout.module_ofGraph]
    exact Package.packageRoot_artifacts

/-! ## Conversions -/

/-- A file with nothing to write leaves the disk as it is. -/
theorem convertFile_of_error {fault : ConvertFault} (h : ofReading strict options (d.readText (Path.ofText path)) = .error fault) :
    Command.convertFile d coloured path output strict options = (d, refusal coloured path fault) := by
  rw [Command.convertFile, h]

/-- A workflow that compiles is installed. -/
theorem convertFile_of_ok (h : ofReading strict options (d.readText (Path.ofText path)) = .ok c) :
    Command.convertFile d coloured path output strict options =
      ((install d (Path.ofText output) c.artifacts).1, outcome coloured c output (install d (Path.ofText output) c.artifacts).2) := by
  rw [Command.convertFile, h]

/-- What the status of a conversion tells, and what the conversion has done to the disk. A file that does not compile leaves the disk
as it is; one that does is installed, and if that succeeds, exactly its package is in the directory, as the library guarantees of
directories whose path does not lead through the package. -/
structure Told (d : Disk) (path output : String) (strict : Bool) (options : Options) (after : Disk) (o : Outcome) : Prop where
  rejected : o.status.code = 1 ↔ ∃ r, Rejects d path strict options r
  written : o.status.code = 0 ↔
    ∃ c paths, Compiles d path strict options c ∧ (install d (Path.ofText output) c.artifacts).2 = .ok paths
  otherwise : o.status.code ≠ 1 → o.status.code ≠ 0 → o.status.code = 2
  untouched : (∀ c, ¬Compiles d path strict options c) → after = d
  installed : ∀ c, Compiles d path strict options c → after = (install d (Path.ofText output) c.artifacts).1
  exact : o.status.code = 0 → d.stand? [] = some .dir → ∀ c, Compiles d path strict options c →
    Clear d (Path.ofText output) c.artifacts → ∃ places base, Trail d [] (Path.ofText output) places base ∧
      (Job.mk (Path.ofText output) (identifierOf (options.moduleName.getD c.summary.name) "workflow") c.artifacts).Exact
        d places base after

/-- A conversion of a file that does not compile tells so, if its status is neither that of success nor another one than it should
be. -/
theorem told_of_uncompiled {o : Outcome} (hno : ∀ c, ¬Compiles d path strict options c)
    (hrejected : o.status.code = 1 ↔ ∃ r, Rejects d path strict options r) (hfailed : o.status.code ≠ 0)
    (hother : o.status.code ≠ 1 → o.status.code = 2) : Told d path output strict options d o := by
  refine ⟨hrejected, iff_of_false hfailed ?_, fun hcode _ => hother hcode, fun _ => rfl, fun c hc => absurd hc (hno c),
    fun hcode => absurd hcode hfailed⟩
  rintro ⟨c, paths, hc, -⟩
  exact hno c hc

/-- A conversion tells what it has done. -/
theorem told_convertFile (d : Disk) (coloured : Bool) (path output : String) (strict : Bool) (options : Options) :
    Told d path output strict options (Command.convertFile d coloured path output strict options).1
      (Command.convertFile d coloured path output strict options).2 := by
  rcases reading_cases strict options path (d.readText (Path.ofText path)) with ⟨f, -, hread⟩ | ⟨r, -, -, hread⟩ | ⟨c, -, -, hread⟩
  · rw [convertFile_of_error hread]
    have hnot : ¬∃ r, Rejects d path strict options r := not_rejects_of_ne fun r hr => by cases hread.symm.trans hr
    exact told_of_uncompiled (not_compiles_of_error hread) (iff_of_false (by decide : ¬2 = 1) hnot) (by decide : ¬2 = 0) fun _ => rfl
  · rw [convertFile_of_error hread]
    exact told_of_uncompiled (not_compiles_of_error hread) (iff_of_true rfl ⟨r, rejects_iff.mpr hread⟩) (by decide : ¬1 = 0)
      fun hcode => absurd rfl hcode
  · rw [convertFile_of_ok hread]
    have hc : Compiles d path strict options c := compiles_iff.mpr hread
    have hone : ∀ c', Compiles d path strict options c' → c' = c := fun c' hc' =>
      Except.ok.inj ((compiles_iff.mp hc').symm.trans hread)
    have hnot : ¬∃ r, Rejects d path strict options r := not_rejects_of_ne fun r hr => by cases hread.symm.trans hr
    cases hinstall : (install d (Path.ofText output) c.artifacts).2 with
    | ok paths =>
      refine ⟨iff_of_false (by decide : ¬0 = 1) hnot, iff_of_true rfl ⟨c, paths, hc, hinstall⟩, fun _ hcode => absurd rfl hcode,
        fun hno => absurd hc (hno c), fun c' hc' => by rw [hone c' hc'], fun _ htop c' hc' hclear => ?_⟩
      obtain rfl := hone c' hc'
      have hroot := packageRoot_of_compiles hc'
      obtain ⟨places, base, htrail, -, hexact⟩ := exact_of_install htop hroot (hclear _ hroot) (Prod.ext rfl hinstall)
      exact ⟨places, base, htrail, hexact⟩
    | error e =>
      refine ⟨iff_of_false (by decide : ¬2 = 1) hnot, iff_of_false (by decide : ¬2 = 0) ?_, fun _ _ => rfl,
        fun hno => absurd hc (hno c), fun c' hc' => by rw [hone c' hc'], fun hcode => absurd hcode (by decide : ¬2 = 0)⟩
      rintro ⟨c', paths, hc', hpaths⟩
      rw [hone c' hc', hinstall] at hpaths
      cases hpaths

/-! ## Validations -/

/-- What a validation and a conversion report of the same file: both that the file is faulty, or both the issues of its report, one
after the other, beside which only the conversion says that the file was rejected or that its package was not written. -/
inductive SameIssues (d : Disk) (coloured : Bool) (path : String) (strict : Bool) : String → String → Prop
  | faulty {f : InputFault} (h : ∀ r, ¬Reports d path strict r) :
      SameIssues d coloured path strict (errorLine coloured (f.message path)) (errorLine coloured (f.message path))
  | rejected {r : Report} (h : Reports d path strict r) :
      SameIssues d coloured path strict (r.shown coloured) (errorLine coloured (path ++ " was rejected") ++ r.shown coloured)
  | written {r : Report} (h : Reports d path strict r) :
      SameIssues d coloured path strict (r.shown coloured) (r.shown coloured)
  | unwritten {r : Report} {e : InstallError} (h : Reports d path strict r) :
      SameIssues d coloured path strict (r.shown coloured) (r.shown coloured ++ errorLine coloured e.message)

/-- The validation of a file and its conversion agree: they reject it both or neither, it is valid if there is something to be
written, and, where the issues are shown as text, they are the same. -/
structure Agreed (d : Disk) (coloured : Bool) (path : String) (strict : Bool) (options : Options) (format : ReportFormat)
    (validated converted : Outcome) : Prop where
  rejected : validated.status.code = 1 ↔ converted.status.code = 1
  accepted : validated.status.code = 0 ↔ ∃ c, Compiles d path strict options c
  issues : format = .text → SameIssues d coloured path strict validated.report converted.report

/-- What the validation of one file leaves behind. -/
theorem validateFiles_singleton (d : Disk) (coloured : Bool) (path : String) (strict : Bool) (format : ReportFormat) :
    (Command.validateFiles d coloured [path] strict format).status =
        (FileCheck.ofReading strict path (d.readText (Path.ofText path))).status ∧
      (Command.validateFiles d coloured [path] strict format).report =
        (FileCheck.ofReading strict path (d.readText (Path.ofText path))).remarks coloured format := by
  constructor
  · have hworse : ∀ status : ExitStatus, FileCheck.worse .success status = status := by
      intro status
      cases status <;> rfl
    exact hworse _
  · exact String.empty_append

/-- The validation of a faulty file says what is wrong with it. -/
theorem validateFiles_of_error {f : InputFault}
    (h : (FileCheck.ofReading strict path (d.readText (Path.ofText path))).result = .error f) :
    (Command.validateFiles d coloured [path] strict format).status = .badInput ∧
      (Command.validateFiles d coloured [path] strict format).report = errorLine coloured (f.message path) := by
  obtain ⟨hstatus, hreport⟩ := validateFiles_singleton d coloured path strict format
  rw [FileCheck.status, h] at hstatus
  rw [FileCheck.remarks, h] at hreport
  exact ⟨hstatus, hreport⟩

/-- The validation of a file with a report shows it as text, and its status is the verdict. -/
theorem validateFiles_of_ok (h : (FileCheck.ofReading strict path (d.readText (Path.ofText path))).result = .ok r) :
    (Command.validateFiles d coloured [path] strict format).status = (if r.passed then .success else .rejected) ∧
      (format = .text → (Command.validateFiles d coloured [path] strict format).report = r.shown coloured) := by
  obtain ⟨hstatus, hreport⟩ := validateFiles_singleton d coloured path strict format
  rw [FileCheck.status, h] at hstatus
  rw [FileCheck.remarks, h] at hreport
  refine ⟨hstatus, fun htext => ?_⟩
  rw [hreport, htext]

/-- The validation of a file and its conversion agree. -/
theorem agreed_convertFile (d : Disk) (coloured : Bool) (path output : String) (strict : Bool) (options : Options)
    (format : ReportFormat) :
    Agreed d coloured path strict options format (Command.validateFiles d coloured [path] strict format)
      (Command.convertFile d coloured path output strict options).2 := by
  rcases reading_cases strict options path (d.readText (Path.ofText path)) with
    ⟨f, hresult, hread⟩ | ⟨r, hresult, hno, hread⟩ | ⟨c, hresult, hyes, hread⟩
  · obtain ⟨hstatus, hreport⟩ := validateFiles_of_error hresult
    have hnone : ∀ r, ¬Reports d path strict r := fun r hr => by cases hresult.symm.trans (reports_iff.mp hr)
    have hnot : ¬∃ c, Compiles d path strict options c := not_exists.mpr (not_compiles_of_error hread)
    rw [convertFile_of_error hread]
    refine ⟨?_, ?_, fun _ => ?_⟩
    · rw [hstatus]
      exact iff_of_false (by decide : ¬2 = 1) (by decide : ¬2 = 1)
    · rw [hstatus]
      exact iff_of_false (by decide : ¬2 = 0) hnot
    · rw [hreport]
      exact .faulty hnone
  · obtain ⟨hstatus, hreport⟩ := validateFiles_of_ok hresult
    have hnot : ¬∃ c, Compiles d path strict options c := not_exists.mpr (not_compiles_of_error hread)
    rw [hno, if_neg Bool.false_ne_true] at hstatus
    rw [convertFile_of_error hread]
    refine ⟨?_, ?_, fun htext => ?_⟩
    · rw [hstatus]
      exact iff_of_true rfl rfl
    · rw [hstatus]
      exact iff_of_false (by decide : ¬1 = 0) hnot
    · rw [hreport htext]
      exact .rejected (reports_iff.mpr hresult)
  · obtain ⟨hstatus, hreport⟩ := validateFiles_of_ok hresult
    have hreports : Reports d path strict c.report := reports_iff.mpr hresult
    rw [hyes, if_pos rfl] at hstatus
    rw [convertFile_of_ok hread]
    refine ⟨?_, ?_, fun htext => ?_⟩
    · rw [hstatus]
      refine iff_of_false (by decide : ¬0 = 1) ?_
      cases (install d (Path.ofText output) c.artifacts).2 with
      | ok paths => exact (by decide : ¬0 = 1)
      | error e => exact (by decide : ¬2 = 1)
    · rw [hstatus]
      exact iff_of_true rfl ⟨c, compiles_iff.mpr hread⟩
    · rw [hreport htext]
      cases (install d (Path.ofText output) c.artifacts).2 with
      | ok paths => exact .written hreports
      | error e => exact .unwritten hreports

end Conversion

/-! ## Runs -/

/-- A file with a workflow of two nodes. -/
def twoNodes : Disk :=
  .dir [("w.yaml", .file ("name: m\nentry: a\nnodes:\n- id: a\n  kind: start\n- id: b\n  kind: end\n" ++
    "edges:\n- \x7bsource: a, target: b\x7d\n").toUTF8)]

/-- A conversion tells what it has done, and the validation of the same file agrees with it, whatever else their arguments are. -/
theorem convert_agrees_validate {d : Disk} {coloured strict : Bool} {arguments others : List String} {path output : String}
    {options : Options} {format : ReportFormat} (hconvert : Command.ofArguments arguments = .ok (.convert path output strict options))
    (hvalidate : Command.ofArguments others = .ok (.validate [path] strict format)) :
    Conversion.Told d path output strict options (Command.runArguments d coloured arguments).1
        (Command.runArguments d coloured arguments).2 ∧
      Conversion.Agreed d coloured path strict options format (Command.runArguments d coloured others).2
        (Command.runArguments d coloured arguments).2 := by
  rw [Command.runArguments, Command.runArguments, hconvert, hvalidate]
  exact ⟨Conversion.told_convertFile d coloured path output strict options,
    Conversion.agreed_convertFile d coloured path output strict options format⟩

/-- A file with a workflow of two nodes is valid and is converted. -/
theorem convert_agrees_validate_twoNodes :
    let options : Options := { moduleName := none, includeComments := true, framework := .newer }
    let converted := Command.runArguments twoNodes false ["convert", "w.yaml", "--output=out"]
    let validated := Command.runArguments twoNodes false ["validate", "w.yaml"]
    converted.2.status = .success ∧ Conversion.Told twoNodes "w.yaml" "out" false options converted.1 converted.2 ∧
      Conversion.Agreed twoNodes false "w.yaml" false options .text validated.2 converted.2 :=
  ⟨by decide +kernel, convert_agrees_validate (by decide +kernel) (by decide +kernel)⟩

/-- In a directory that is reached through the place of the staging directory, that is gone when the package is in its place: the path
of the directory leads nowhere any more. -/
theorem convert_through_staging :
    let converted := Command.runArguments twoNodes false ["convert", "w.yaml", "--output=.m.staging/.."]
    converted.2.status = .success ∧ converted.1.hasDir (Path.ofText ".m.staging/../m") = false := by
  decide +kernel

end Workflow
