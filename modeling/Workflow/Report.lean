import Workflow.Issue

/-!
# Reports

The issues of one check in the order of their discovery, and the verdict on them: errors fail every report, warnings
only a strict one.
-/

namespace Workflow

/-- The outcome of checking a document. -/
structure Report where
  issues : List Issue
  strict : Bool
  deriving DecidableEq

namespace Report

/-- The issues that are errors. -/
def errors (r : Report) : List Issue := r.issues.filter (·.severity == .error)

/-- The issues that are warnings. -/
def warnings (r : Report) : List Issue := r.issues.filter (·.severity == .warning)

/-- A report passes when it holds no error, and under strict checking only when it holds nothing at all. -/
def passed (r : Report) : Bool :=
  r.issues.all (!·.isError) && (!r.strict || r.issues.isEmpty)

/-- The issues with a given code. -/
def withCode (r : Report) (code : IssueCode) : List Issue := r.issues.filter (·.code == code)

/-- Whether some issue has a given code. -/
def hasCode (r : Report) (code : IssueCode) : Bool := r.issues.any (·.code == code)

/-- The report with the issues of a later check after its own. It stays strict or lenient as it was. -/
def extend (r later : Report) : Report :=
  { r with issues := r.issues ++ later.issues }

/-- The counts of errors and warnings. -/
def countsText (r : Report) : String :=
  toString r.errors.length ++ " error(s), " ++ toString r.warnings.length ++ " warning(s)"

/-- The report for a reader: a line for each issue, then the verdict. -/
def text (r : Report) : String :=
  String.join (r.issues.map fun i => i.text ++ "\n") ++
    "validation " ++ (if r.passed then "passed" else "failed") ++ (if r.strict then " (strict)" else "") ++ ": " ++
    r.countsText

/-- The report as a value. -/
def toJson (r : Report) : Json :=
  .obj [("passed", .bool r.passed), ("strict", .bool r.strict), ("issues", .arr (r.issues.map Issue.toJson))]

end Report

end Workflow
