import Workflow.Graph.Build
import Workflow.Package.Generate
import Workflow.Schema.Check
import Workflow.Yaml.Load

/-!
# From text to package

The way of a workflow from its text to the files of its package, and the shorter way to a report on it. Both look at the
graph only if the schema finds no error, and both give the same verdict.
-/

namespace Workflow

/-- What a compiled workflow comes to. -/
structure Compilation where
  artifacts : List Artifact
  summary : Summary
  report : Report

/-- Why a workflow was not compiled. -/
inductive CompileError
  | malformed (e : Yaml.LoadError)
  | rejected (r : Report)
  | defective (d : GraphDefect)

namespace CompileError

/-- The wording of an error. -/
def message : CompileError → String
  | malformed e => e.message
  | rejected r =>
    "workflow rejected with " ++ toString r.errors.length ++ " error(s) and " ++ toString r.warnings.length ++
      " warning(s)"
  | defective d => d.message

/-- Whether the error is one of the program and not of the workflow. -/
def isInternal : CompileError → Bool
  | defective _ => true
  | _ => false

end CompileError

/-- The report on a document tree: what the schema finds, and what the graph adds if the schema finds no error. -/
def validateTree (t : Tree) (strict : Bool) : Report :=
  let report := Schema.validate t strict
  match Schema.check? t with
  | none => report
  | some document =>
    match Graph.build document with
    | .ok _ => report
    | .error structural => report.extend structural

/-- The report on a text. -/
def validateText (text : String) (strict : Bool) : Except Yaml.LoadError Report := do
  let t ← load text
  return validateTree t strict

/-- The compilation of a document tree. A graph without defects is compiled only if its report passes. -/
def compileTree (t : Tree) (strict : Bool) (options : Options) : Except CompileError Compilation :=
  let report := Schema.validate t strict
  match Schema.check? t with
  | none => .error (.rejected report)
  | some document =>
    match Graph.build document with
    | .error structural => .error (.rejected (report.extend structural))
    | .ok graph =>
      if report.passed then
        match generate graph options with
        | .error defect => .error (.defective defect)
        | .ok artifacts => .ok { artifacts := artifacts, summary := graph.summary, report := report }
      else .error (.rejected report)

/-- The compilation of a text. -/
def compileText (text : String) (strict : Bool) (options : Options) : Except CompileError Compilation :=
  match load text with
  | .error e => .error (.malformed e)
  | .ok t => compileTree t strict options

end Workflow
