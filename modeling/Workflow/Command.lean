import Workflow.Command.Arguments
import Workflow.Command.Terminal
import Workflow.Compile
import Workflow.Install

/-!
# Running commands

What a command does on a disk, and what it says. Validation looks at each of its files for itself: what one file comes to
does not hang on the others, and the worst of them decides how the run ends. Conversion writes nothing unless the
workflow compiles.
-/

namespace Workflow

/-- Why a file gives no workflow to look at. -/
inductive InputFault
  | unreadable (e : FileError)
  | malformed (e : Yaml.LoadError)

/-- The wording of a fault of a file. -/
def InputFault.message (path : String) : InputFault → String
  | unreadable e => "could not read '" ++ path ++ "': " ++ e.message
  | malformed e => path ++ ": " ++ e.message

/-- What the validation of a file comes to. -/
structure FileCheck where
  path : String
  result : Except InputFault Report

namespace FileCheck

/-- The validation of a file, from the reading of its text. -/
def ofReading (strict : Bool) (path : String) (text : Except FileError String) : FileCheck where
  path := path
  result :=
    match text with
    | .error e => .error (.unreadable e)
    | .ok text =>
      match validateText text strict with
      | .error e => .error (.malformed e)
      | .ok report => .ok report

/-- How a run with this file alone would end. -/
def status (c : FileCheck) : ExitStatus :=
  match c.result with
  | .error _ => .badInput
  | .ok report => if report.passed then .success else .rejected

/-- The line with the verdict on a file. A file without a report has none. -/
def verdict (coloured : Bool) (c : FileCheck) : String :=
  match c.result with
  | .error _ => ""
  | .ok report =>
    if report.passed then Emphasis.valid.paint coloured "✓" ++ " " ++ c.path ++ " is valid\n"
    else Emphasis.invalid.paint coloured "✗" ++ " " ++ c.path ++ " is invalid\n"

/-- What is said of a file beside its verdict. Issues are shown as text only; in the other format they are part of the
output. -/
def remarks (coloured : Bool) (format : ReportFormat) (c : FileCheck) : String :=
  match c.result with
  | .error fault => errorLine coloured (fault.message c.path)
  | .ok report =>
    match format with
    | .text => report.shown coloured
    | .json => ""

/-- The file with its report as a value, if there is a report. -/
def toJson? (c : FileCheck) : Option Json :=
  match c.result with
  | .error _ => none
  | .ok report => some (.obj [("path", .str c.path), ("report", report.toJson)])

/-- What is printed for all files of a run. -/
def output (coloured : Bool) (format : ReportFormat) (checks : List FileCheck) : String :=
  match format with
  | .text => String.join (checks.map (·.verdict coloured))
  | .json => (Json.arr (checks.filterMap toJson?)).sorted.pretty 0 ++ "\n"

/-- The worse of two ends of a run. -/
def worse (a b : ExitStatus) : ExitStatus := if a.code < b.code then b else a

/-- What a run of a validation leaves behind. -/
def outcome (coloured : Bool) (format : ReportFormat) (checks : List FileCheck) : Outcome where
  output := output coloured format checks
  report := String.join (checks.map (·.remarks coloured format))
  status := (checks.map status).foldl worse .success

end FileCheck

/-- Why a conversion has nothing to write. -/
inductive ConvertFault
  | input (f : InputFault)
  | rejected (r : Report)
  | defective (d : GraphDefect)

namespace Conversion

/-- The compilation of a workflow, from the reading of its text. -/
def ofReading (strict : Bool) (options : Options) (text : Except FileError String) :
    Except ConvertFault Compilation :=
  match text with
  | .error e => .error (.input (.unreadable e))
  | .ok text =>
    match compileText text strict options with
    | .ok compilation => .ok compilation
    | .error (.malformed e) => .error (.input (.malformed e))
    | .error (.rejected report) => .error (.rejected report)
    | .error (.defective defect) => .error (.defective defect)

/-- What a run leaves behind that has nothing to write. -/
def refusal (coloured : Bool) (path : String) : ConvertFault → Outcome
  | .input fault => { report := errorLine coloured (fault.message path), status := .badInput }
  | .rejected r => { report := errorLine coloured (path ++ " was rejected") ++ r.shown coloured, status := .rejected }
  | .defective d =>
    { report := Emphasis.failure.paint coloured "Internal error:" ++ " " ++ d.message ++ "\n", status := .internal }

/-- The line that tells what was written. -/
def success (coloured : Bool) (c : Compilation) (output : String) (files : Nat) : String :=
  Emphasis.valid.paint coloured "✓" ++ " '" ++ c.summary.name ++ "' compiled: " ++ toString c.summary.nodes ++
    " nodes, " ++ toString c.summary.edges ++ " edges, " ++ toString files ++ " files written to " ++ output ++ "\n"

/-- What a run leaves behind that had a package to install. The warnings of the workflow come first in any case. -/
def outcome (coloured : Bool) (c : Compilation) (output : String) : Except InstallError (List Path) → Outcome
  | .ok written =>
    { output := success coloured c output written.length, report := c.report.shown coloured, status := .success }
  | .error e => { report := c.report.shown coloured ++ errorLine coloured e.message, status := .badInput }

end Conversion

namespace Command

/-- The validation of files. -/
def validateFiles (d : Disk) (coloured : Bool) (paths : List String) (strict : Bool) (format : ReportFormat) : Outcome :=
  FileCheck.outcome coloured format (paths.map fun p => .ofReading strict p (d.readText (Path.ofText p)))

/-- The conversion of a workflow file into a package in a directory. -/
def convertFile (d : Disk) (coloured : Bool) (path output : String) (strict : Bool) (options : Options) :
    Disk × Outcome :=
  match Conversion.ofReading strict options (d.readText (Path.ofText path)) with
  | .error fault => (d, Conversion.refusal coloured path fault)
  | .ok compilation =>
    let (d, result) := install d (Path.ofText output) compilation.artifacts
    (d, Conversion.outcome coloured compilation output result)

/-- Runs a command on a disk. -/
def run (d : Disk) (coloured : Bool) : Command → Disk × Outcome
  | help => (d, { output := usage, status := .success })
  | validate paths strict format => (d, validateFiles d coloured paths strict format)
  | convert path output strict options => convertFile d coloured path output strict options

/-- What a run leaves behind whose arguments tell no command. -/
def misuse (coloured : Bool) (e : UsageError) : Outcome where
  report := errorLine coloured e.message ++ usage
  status := .badInput

/-- Runs the command that arguments tell on a disk. -/
def runArguments (d : Disk) (coloured : Bool) (arguments : List String) : Disk × Outcome :=
  match ofArguments arguments with
  | .error e => (d, misuse coloured e)
  | .ok command => command.run d coloured

end Command

end Workflow
