import Mathlib
import Workflow.Proofs.Command

/-!
# Validating many files

A validation looks at each of its files for itself. What it leaves behind for two lists of files together is put together of what it
leaves behind for each (`validate_append`): the worse of the two ends, one text after the other, and of two printed arrays the one
with the items of both (`Spliced`). The end of a run is kept from file to file, but the order of the files has no part in it: it is
decided by whether some file gives no report and whether some report does not pass (`FileCheck.status_outcome`). A file that gives no
report takes nothing from the files after it.
-/

namespace Workflow

variable {d : Disk} {coloured strict : Bool} {path : String} {fault : InputFault} {format : ReportFormat}

/-! ## Arrays -/

/-- An array as it is printed, with the keys of all objects in order. -/
def printedArray (items : List Json) : String := (Json.arr items).sorted.pretty 0 ++ "\n"

/-- The third text is the array with the items of the first and then those of the second: of two arrays that have items the lines of
these stand one after the other, with a comma in between. -/
inductive Spliced : String → String → String → Prop
  | first (b : String) : Spliced "[]\n" b b
  | second (a : String) : Spliced a "[]\n" a
  | both (a b : String) : Spliced ("[\n" ++ a ++ "\n]\n") ("[\n" ++ b ++ "\n]\n") ("[\n" ++ (a ++ ",\n" ++ b) ++ "\n]\n")

namespace Json

theorem sortedItems_append (a b : List Json) : sortedItems (a ++ b) = sortedItems a ++ sortedItems b := by
  induction a with
  | nil => rfl
  | cons v a ih => rw [List.cons_append, sortedItems, sortedItems, ih, List.cons_append]

theorem prettyItems_append (level : Nat) (a b : List Json) :
    prettyItems level (a ++ b) = prettyItems level a ++ prettyItems level b := by
  induction a with
  | nil => rfl
  | cons v a ih => rw [List.cons_append, prettyItems, prettyItems, ih, List.cons_append]

end Json

/-- An array without items is printed on one line. -/
theorem printedArray_nil : printedArray [] = "[]\n" := rfl

/-- An array with items is printed with each of them on lines of its own. -/
theorem printedArray_of_ne_nil {items : List Json} (h : items ≠ []) :
    printedArray items = "[\n" ++ ",\n".intercalate (Json.prettyItems 1 (Json.sortedItems items)) ++ "\n]\n" := by
  obtain ⟨v, items, rfl⟩ := List.exists_cons_of_ne_nil h
  rw [printedArray, Json.sorted, Json.sortedItems, Json.pretty, String.append_assoc, String.append_assoc]
  · have hend : "\n" ++ (Json.levelSpaces 0 ++ ("]" ++ "\n")) = "\n]\n" := by decide
    rw [@String.append_assoc _ "\n", hend]
  · exact fun heq => absurd heq (List.cons_ne_nil _ _)

/-- The printed array with the items of two is spliced of theirs. -/
theorem spliced_printedArray (a b : List Json) : Spliced (printedArray a) (printedArray b) (printedArray (a ++ b)) := by
  by_cases ha : a = []
  · rw [ha, List.nil_append, printedArray_nil]
    exact .first _
  · by_cases hb : b = []
    · rw [hb, List.append_nil, printedArray_nil]
      exact .second _
    · have hlines : ∀ {items : List Json}, items ≠ [] → Json.prettyItems 1 (Json.sortedItems items) ≠ [] := fun h => by
        obtain ⟨v, items, rfl⟩ := List.exists_cons_of_ne_nil h
        exact List.cons_ne_nil _ _
      rw [printedArray_of_ne_nil ha, printedArray_of_ne_nil hb, printedArray_of_ne_nil (List.append_ne_nil_of_left_ne_nil ha b),
        Json.sortedItems_append, Json.prettyItems_append, String.intercalate_append_of_ne_nil (hlines ha) (hlines hb)]
      exact .both _ _

/-! ## One file after the other -/

namespace FileCheck

/-- Whether a file gives no report. -/
def isFaulty (c : FileCheck) : Bool :=
  match c.result with
  | .error _ => true
  | .ok _ => false

/-- Whether a file has a report that does not pass. -/
def isRejected (c : FileCheck) : Bool :=
  match c.result with
  | .error _ => false
  | .ok report => !report.passed

/-- The end for one file. -/
theorem status_eq (c : FileCheck) :
    c.status = if c.isFaulty then .badInput else if c.isRejected then .rejected else .success := by
  rw [status, isFaulty, isRejected]
  cases c.result with
  | error fault => rfl
  | ok report =>
    cases hpassed : report.passed
    · simp only [hpassed, Bool.not_false, Bool.false_eq_true, if_true, if_false]
    · simp only [hpassed, Bool.not_true, Bool.false_eq_true, if_true, if_false]

/-- One more file makes the end of a run no better. -/
theorem status_outcome_concat (checks : List FileCheck) (c : FileCheck) :
    (outcome coloured format (checks ++ [c])).status = worse (outcome coloured format checks).status c.status := by
  simp only [outcome]
  rw [List.map_append, List.foldl_append]
  rfl

/-- A run ends with bad input if one of its files gives no report, with a rejection if else one of them does not pass, and with
success if all of them pass. -/
theorem status_outcome (checks : List FileCheck) : (outcome coloured format checks).status =
    if checks.any isFaulty then .badInput else if checks.any isRejected then .rejected else .success := by
  induction checks using List.reverseRecOn with
  | nil => rfl
  | append_singleton checks c ih =>
    simp only [List.any_append, List.any_cons, List.any_nil, Bool.or_false]
    rw [status_outcome_concat, ih, status_eq]
    -- the worse of two ends, for each of what the files before can be and what the last one can be
    cases checks.any isFaulty <;> cases checks.any isRejected <;> cases c.isFaulty <;> cases c.isRejected <;> rfl

variable {a b : List FileCheck} {c : FileCheck}

/-- Of two lists of files the one that ends worse decides. -/
theorem code_outcome_append : (outcome coloured format (a ++ b)).status.code =
    max (outcome coloured format a).status.code (outcome coloured format b).status.code := by
  rw [status_outcome, status_outcome, status_outcome, List.any_append, List.any_append]
  cases a.any isFaulty <;> cases a.any isRejected <;> cases b.any isFaulty <;> cases b.any isRejected <;> rfl

theorem report_outcome_append : (outcome coloured format (a ++ b)).report =
    (outcome coloured format a).report ++ (outcome coloured format b).report := by
  simp only [outcome]
  rw [List.map_append, String.join_append]

theorem output_append_text : output coloured .text (a ++ b) = output coloured .text a ++ output coloured .text b := by
  simp only [output]
  rw [List.map_append, String.join_append]

/-- A file without a report makes a run end with bad input, whatever the other files are. -/
theorem status_outcome_of_error (h : c.result = .error fault) : (outcome coloured format (a ++ c :: b)).status = .badInput := by
  have hfaulty : c.isFaulty = true := by rw [isFaulty, h]
  rw [status_outcome, List.any_append, List.any_cons, hfaulty, Bool.true_or, Bool.or_true, if_pos rfl]

/-- What is said of it stands between what is said of the files before it and of those after it. -/
theorem report_outcome_of_error (h : c.result = .error fault) : (outcome coloured format (a ++ c :: b)).report =
    (outcome coloured format a).report ++ (errorLine coloured (fault.message c.path) ++ (outcome coloured format b).report) := by
  have hsaid : c.remarks coloured format = errorLine coloured (fault.message c.path) := by rw [remarks, h]
  simp only [outcome]
  rw [List.map_append, List.map_cons, String.join_append, String.join_cons, hsaid]

/-- It adds nothing to the output. -/
theorem output_of_error (h : c.result = .error fault) : output coloured format (a ++ c :: b) = output coloured format (a ++ b) := by
  have hverdict : c.verdict coloured = "" := by rw [verdict, h]
  have hjson : c.toJson? = none := by rw [toJson?, h]
  cases format with
  | text =>
    simp only [output]
    rw [List.map_append, List.map_cons, hverdict, String.join_append, String.join_cons, String.empty_append, List.map_append,
      String.join_append]
  | json =>
    simp only [output]
    rw [List.filterMap_append, List.filterMap_cons_none hjson, List.filterMap_append]

end FileCheck

/-! ## Files without a report -/

/-- A file without a report: it cannot be read, which goes for one that holds no text, or its text is malformed. -/
inductive Faulty (d : Disk) (path : String) : InputFault → Prop
  | unreadable {e : FileError} (h : d.readText (Path.ofText path) = .error e) : Faulty d path (.unreadable e)
  | malformed {text : String} {e : Yaml.LoadError} (h : d.readText (Path.ofText path) = .ok text) (hload : load text = .error e) :
    Faulty d path (.malformed e)

theorem Faulty.result_eq (h : Faulty d path fault) (strict : Bool) :
    (FileCheck.ofReading strict path (d.readText (Path.ofText path))).result = .error fault := by
  cases h with
  | unreadable h => rw [h, FileCheck.ofReading]
  | malformed h hload =>
    rw [h, FileCheck.ofReading, validateText, hload]
    rfl

/-! ## Lists of files -/

/-- The checks of files, each from the reading of its own text. -/
def checksOf (d : Disk) (strict : Bool) (paths : List String) : List FileCheck :=
  paths.map fun p => .ofReading strict p (d.readText (Path.ofText p))

theorem checksOf_append (d : Disk) (strict : Bool) (ps qs : List String) :
    checksOf d strict (ps ++ qs) = checksOf d strict ps ++ checksOf d strict qs :=
  List.map_append

/-- The reports on files as values, for the files that give one. -/
def reportsOf (d : Disk) (strict : Bool) (paths : List String) : List Json :=
  (checksOf d strict paths).filterMap FileCheck.toJson?

theorem reportsOf_append (d : Disk) (strict : Bool) (ps qs : List String) :
    reportsOf d strict (ps ++ qs) = reportsOf d strict ps ++ reportsOf d strict qs := by
  rw [reportsOf, checksOf_append, List.filterMap_append, reportsOf, reportsOf]

/-- A faulty file has no report. -/
theorem reportsOf_faulty (h : Faulty d path fault) (strict : Bool) : reportsOf d strict [path] = [] := by
  rw [reportsOf, checksOf, List.map_singleton, List.filterMap_cons_none, List.filterMap_nil]
  rw [FileCheck.toJson?, h.result_eq]

/-- What the validation of two lists of files together leaves behind, from what it leaves behind for each of them. -/
structure Composed (format : ReportFormat) (first second whole : Outcome) : Prop where
  code : whole.status.code = max first.status.code second.status.code
  report : whole.report = first.report ++ second.report
  text : format = .text → whole.output = first.output ++ second.output
  json : format = .json → Spliced first.output second.output whole.output

theorem composed_outcome (a b : List FileCheck) :
    Composed format (FileCheck.outcome coloured format a) (FileCheck.outcome coloured format b)
      (FileCheck.outcome coloured format (a ++ b)) where
  code := FileCheck.code_outcome_append
  report := FileCheck.report_outcome_append
  text := by
    rintro rfl
    exact FileCheck.output_append_text
  json := by
    rintro rfl
    simp only [FileCheck.outcome, FileCheck.output]
    rw [List.filterMap_append]
    exact spliced_printedArray _ _

/-- Validating two lists of files together is putting together what the validation of each leaves behind: the greater number, one text
after the other, and for the printed arrays the one with the items of both. The disk is as it was. A faulty file has no report and
leaves the output to the files before and after it; what is said of it stands between what is said of those, and the run ends with bad
input. -/
theorem validate_append (d : Disk) (coloured strict : Bool) (ps qs : List String) :
    let run := fun format paths => Command.run d coloured (.validate paths strict format)
    (∀ format, (run format (ps ++ qs)).1 = d ∧ Composed format (run format ps).2 (run format qs).2 (run format (ps ++ qs)).2) ∧
      (∀ paths, (run .json paths).2.output = printedArray (reportsOf d strict paths)) ∧
      reportsOf d strict (ps ++ qs) = reportsOf d strict ps ++ reportsOf d strict qs ∧
      ∀ path fault, Faulty d path fault → reportsOf d strict [path] = [] ∧ ∀ format,
        (run format [path]).2.status.code = 2 ∧ (run format (ps ++ path :: qs)).2.status.code = 2 ∧
          (run format (ps ++ path :: qs)).2.output = (run format (ps ++ qs)).2.output ∧
          (run format (ps ++ path :: qs)).2.report =
            (run format ps).2.report ++ (errorLine coloured (fault.message path) ++ (run format qs).2.report) := by
  have hrun : ∀ format paths, Command.run d coloured (.validate paths strict format) =
      (d, FileCheck.outcome coloured format (checksOf d strict paths)) := fun _ _ => rfl
  simp only [hrun, checksOf_append, true_and]
  refine ⟨fun format => composed_outcome _ _, fun paths => rfl, reportsOf_append d strict ps qs, fun path fault h =>
    ⟨reportsOf_faulty h strict, fun format => ?_⟩⟩
  have hresult := h.result_eq strict
  exact ⟨congrArg ExitStatus.code (FileCheck.status_outcome_of_error (a := []) hresult),
    congrArg ExitStatus.code (FileCheck.status_outcome_of_error hresult), FileCheck.output_of_error hresult,
    FileCheck.report_outcome_of_error hresult⟩

/-- A file with a text that is no workflow, one with malformed text, and one with an octet that is in no text. -/
def mixedFiles : Disk :=
  .dir [("bytes.yaml", .file ⟨#[0xff]⟩), ("number.yaml", .file "1".toUTF8), ("open.yaml", .file "[".toUTF8)]

/-- Beside a file that is not there the last two are faulty, and the first is rejected before and after each of them. -/
theorem validate_append_mixedFiles :
    Faulty mixedFiles "none.yaml" (.unreadable .noEntry) ∧ Faulty mixedFiles "bytes.yaml" (.unreadable .notText) ∧
      (∃ e, Faulty mixedFiles "open.yaml" (.malformed e)) ∧ ∀ path ∈ ["none.yaml", "bytes.yaml", "open.yaml"],
        let run := Command.run mixedFiles false (.validate (["number.yaml"] ++ path :: ["number.yaml"]) false .text)
        run.2.status.code = 2 ∧ run.2.output = "✗ number.yaml is invalid\n✗ number.yaml is invalid\n" := by
  have hnone : Faulty mixedFiles "none.yaml" (.unreadable .noEntry) := .unreadable (by decide +kernel)
  have hbytes : Faulty mixedFiles "bytes.yaml" (.unreadable .notText) := .unreadable (by decide +kernel)
  obtain ⟨e, hload⟩ : ∃ e, load "[" = .error e := by
    have hfails : (load "[").isOk = false := by decide +kernel
    cases hload : load "[" with
    | error e => exact ⟨e, rfl⟩
    | ok t =>
      rw [hload] at hfails
      cases hfails
  have hread : mixedFiles.readText (Path.ofText "open.yaml") = .ok "[" := by decide +kernel
  have hopen : Faulty mixedFiles "open.yaml" (.malformed e) := .malformed hread hload
  have houtput : (Command.run mixedFiles false (.validate (["number.yaml"] ++ ["number.yaml"]) false .text)).2.output =
      "✗ number.yaml is invalid\n✗ number.yaml is invalid\n" := by decide +kernel
  obtain ⟨-, -, -, hfaulty⟩ := validate_append mixedFiles false false ["number.yaml"] ["number.yaml"]
  refine ⟨hnone, hbytes, ⟨e, hopen⟩, fun path hpath => ?_⟩
  obtain ⟨fault, hfault⟩ : ∃ fault, Faulty mixedFiles path fault := by
    simp only [List.mem_cons, List.not_mem_nil, or_false] at hpath
    rcases hpath with rfl | rfl | rfl
    · exact ⟨_, hnone⟩
    · exact ⟨_, hbytes⟩
    · exact ⟨_, hopen⟩
  obtain ⟨-, hformat⟩ := hfaulty path fault hfault
  obtain ⟨-, hcode, hsame, -⟩ := hformat .text
  exact ⟨hcode, hsame.trans houtput⟩

end Workflow
