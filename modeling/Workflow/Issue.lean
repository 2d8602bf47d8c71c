import Workflow.Json

/-!
# Issues

What can be wrong with a workflow, where, and how it is said. Every issue has a code; the code alone decides how severe
the issue is and which stage finds it.
-/

namespace Workflow

/-- One step from a value of a document to a value inside it. -/
inductive Segment
  | key (name : String)
  | index (position : Nat)
  deriving DecidableEq

/-- A place in a document, as the steps from its root. -/
abbrev Place := List Segment

namespace Place

/-- The place of the whole document. -/
def root : Place := []

/-- The place of the value under a key. -/
def key (p : Place) (name : String) : Place := p ++ [.key name]

/-- The place of an item of a sequence. -/
def item (p : Place) (position : Nat) : Place := p ++ [.index position]

/-- Steps after the first, a point before every key. -/
def tailText : List Segment → String
  | [] => ""
  | .key name :: rest => "." ++ name ++ tailText rest
  | .index i :: rest => "[" ++ toString i ++ "]" ++ tailText rest

/-- The written form of a place, such as `nodes[2].config.prompt`. -/
def text : Place → String
  | [] => "<document>"
  | .key name :: rest => name ++ tailText rest
  | .index i :: rest => "[" ++ toString i ++ "]" ++ tailText rest

end Place

/-- How much an issue weighs: an error always fails a report, a warning only under strict checking. -/
inductive Severity
  | error
  | warning
  deriving DecidableEq

/-- The word for a severity. -/
def Severity.text : Severity → String
  | .error => "error"
  | .warning => "warning"

/-- The stage that finds an issue: reading the document by its schema, or building the graph. -/
inductive IssueCategory
  | validation
  | structural
  deriving DecidableEq

/-- The word for a category. -/
def IssueCategory.text : IssueCategory → String
  | .validation => "validation"
  | .structural => "structural"

/-- Everything that an issue can be about. -/
inductive IssueCode
  | notAMapping
  | missingField
  | invalidType
  | unknownKind
  | missingConfig
  | invalidConfig
  | duplicateId
  | reservedId
  | invalidId
  | unknownField
  | deprecatedField
  | unusedDisplay
  | unusedConfig
  | danglingReference
  | missingEntry
  | multipleEntries
  | entryMismatch
  | unreachableNode
  | isolatedCycle
  | branchMissing
  | branchUnexpected
  | duplicateBranch
  | conditionOnPlainNode
  | unconditionalFromBranch
  | deadEnd
  | terminalHasSuccessor
  | noTerminal
  | stateKeyCollision
  deriving DecidableEq

namespace IssueCode

/-- All codes. -/
def all : List IssueCode :=
  [notAMapping, missingField, invalidType, unknownKind, missingConfig, invalidConfig, duplicateId, reservedId,
   invalidId, unknownField, deprecatedField, unusedDisplay, unusedConfig, danglingReference, missingEntry,
   multipleEntries, entryMismatch, unreachableNode, isolatedCycle, branchMissing, branchUnexpected, duplicateBranch,
   conditionOnPlainNode, unconditionalFromBranch, deadEnd, terminalHasSuccessor, noTerminal, stateKeyCollision]

/-- The written code: V for a schema error, W for a schema warning, S for a defect of the graph. -/
def text : IssueCode → String
  | notAMapping => "V001"
  | missingField => "V002"
  | invalidType => "V003"
  | unknownKind => "V004"
  | missingConfig => "V005"
  | invalidConfig => "V006"
  | duplicateId => "V007"
  | reservedId => "V008"
  | invalidId => "V009"
  | unknownField => "W001"
  | deprecatedField => "W002"
  | unusedDisplay => "W003"
  | unusedConfig => "W004"
  | danglingReference => "S001"
  | missingEntry => "S002"
  | multipleEntries => "S003"
  | entryMismatch => "S004"
  | unreachableNode => "S005"
  | isolatedCycle => "S006"
  | branchMissing => "S007"
  | branchUnexpected => "S008"
  | duplicateBranch => "S009"
  | conditionOnPlainNode => "S010"
  | unconditionalFromBranch => "S011"
  | deadEnd => "S012"
  | terminalHasSuccessor => "S013"
  | noTerminal => "S014"
  | stateKeyCollision => "S015"

/-- The code with a written form, if it is one. -/
def ofText? (s : String) : Option IssueCode :=
  all.find? (·.text == s)

/-- Fields that are unknown, outdated or without use are warnings; all else is an error. -/
def severity : IssueCode → Severity
  | unknownField | deprecatedField | unusedDisplay | unusedConfig => .warning
  | _ => .error

/-- The stage that raises the code. -/
def category : IssueCode → IssueCategory
  | notAMapping | missingField | invalidType | unknownKind | missingConfig | invalidConfig | duplicateId | reservedId
  | invalidId | unknownField | deprecatedField | unusedDisplay | unusedConfig => .validation
  | danglingReference | missingEntry | multipleEntries | entryMismatch | unreachableNode | isolatedCycle
  | branchMissing | branchUnexpected | duplicateBranch | conditionOnPlainNode | unconditionalFromBranch | deadEnd
  | terminalHasSuccessor | noTerminal | stateKeyCollision => .structural

end IssueCode

/-- A finding at a place of a document. -/
structure Issue where
  code : IssueCode
  place : Place
  message : String
  deriving DecidableEq

namespace Issue

/-- The severity of an issue is that of its code. -/
def severity (i : Issue) : Severity := i.code.severity

/-- Whether the issue is an error. -/
def isError (i : Issue) : Bool := i.severity == .error

/-- The issue on one line. -/
def text (i : Issue) : String :=
  i.severity.text ++ "[" ++ i.code.text ++ "] " ++ i.place.text ++ ": " ++ i.message

/-- A step of a place as a value. -/
def segmentJson : Segment → Json
  | .key name => .str name
  | .index i => .int i

/-- The issue as a value. -/
def toJson (i : Issue) : Json :=
  .obj [("path", .arr (i.place.map segmentJson)), ("code", .str i.code.text), ("message", .str i.message),
    ("severity", .str i.severity.text)]

end Issue

end Workflow
