import Workflow.Report
import Workflow.Yaml.Tree
import Workflow.Text.Blank

/-!
# Reading with issues

Reading a part of a document never stops at the first fault: it gives the value, if the part could be read, together
with every issue found on the way. This module holds the readings of single fields.
-/

namespace Workflow

/-- What reading a part of a document gave: its value, unless it could not be read, and the issues found, in order. -/
structure Reading (α : Type) where
  value : Option α
  issues : List Issue

namespace Reading

/-- A reading without issues. -/
def good {α : Type} (value : α) : Reading α := ⟨some value, []⟩

/-- A reading that failed with one issue. -/
def bad {α : Type} (code : IssueCode) (place : Place) (message : String) : Reading α :=
  ⟨none, [⟨code, place, message⟩]⟩

/-- The reading with its value changed. -/
def map {α β : Type} (f : α → β) (r : Reading α) : Reading β := ⟨r.value.map f, r.issues⟩

/-- The reading with issues found before it. -/
def after {α : Type} (issues : List Issue) (r : Reading α) : Reading α := ⟨r.value, issues ++ r.issues⟩

/-- A reading that goes on with the value of the first, if it has one. -/
def andThen {α β : Type} (r : Reading α) (next : α → Reading β) : Reading β :=
  match r.value with
  | none => ⟨none, r.issues⟩
  | some a => (next a).after r.issues

/-- The values of all readings, if every one has a value, with all their issues. -/
def all {α : Type} : List (Reading α) → Reading (List α)
  | [] => good []
  | r :: rest =>
    let others := all rest
    ⟨do return (← r.value) :: (← others.value), r.issues ++ others.issues⟩

end Reading

/-- Whether a list of issues holds an error. -/
def hasError (issues : List Issue) : Bool :=
  issues.any (·.isError)

namespace Schema

/-- The entries of a mapping. -/
def mapping (t : Tree) (place : Place) : Reading (List (Tree × Tree)) :=
  match t with
  | .map entries => .good entries
  | other => .bad .invalidType place ("expected a mapping, found " ++ other.typeName)

/-- A text that is not blank. -/
def textValue (t : Tree) (place : Place) : Reading String :=
  match t with
  | .str s => if isBlankText s then .bad .invalidConfig place "must not be empty" else .good s
  | other => .bad .invalidType place ("expected a string, found " ++ other.typeName)

/-- A field of a mapping that has to be there. -/
def requiredField {α : Type} (entries : List (Tree × Tree)) (key : String) (place : Place)
    (read : Tree → Place → Reading α) : Reading α :=
  match Tree.field? key entries with
  | none => .bad .missingField (place.key key) ("required field '" ++ key ++ "' is missing")
  | some value => read value (place.key key)

/-- A field of a mapping that may be missing or null. -/
def optionalField {α : Type} (entries : List (Tree × Tree)) (key : String) (place : Place)
    (read : Tree → Place → Reading α) : Reading (Option α) :=
  match Tree.field? key entries with
  | none => .good none
  | some .null => .good none
  | some value => (read value (place.key key)).map some

/-- A text field that has to be there. -/
def requiredText (entries : List (Tree × Tree)) (key : String) (place : Place) : Reading String :=
  requiredField entries key place textValue

/-- A text field that may be missing or null. -/
def optionalText (entries : List (Tree × Tree)) (key : String) (place : Place) : Reading (Option String) :=
  optionalField entries key place textValue

/-- A number. -/
def numberValue (t : Tree) (place : Place) : Reading Double :=
  match t with
  | .num n => .good n.toDouble
  | other => .bad .invalidType place ("expected a number, found " ++ other.typeName)

/-- The items of a sequence, each read at its place. -/
def items {α : Type} (ts : List Tree) (place : Place) (read : Nat → Tree → Place → Reading α) : Reading (List α) :=
  .all (ts.zipIdx.map fun e => read e.2 e.1 (place.item e.2))

/-- A sequence of texts. Every item that is no text is reported. -/
def textList (t : Tree) (place : Place) : Reading (List String) :=
  match t with
  | .seq ts => items ts place fun _ => textValue
  | other => .bad .invalidType place ("expected a sequence of strings, found " ++ other.typeName)

/-- The field of a mapping that has to be a sequence, with a reading for its items. -/
def requiredSequence {α : Type} (entries : List (Tree × Tree)) (key : String) (place : Place)
    (read : List Tree → Place → Reading α) : Reading α :=
  requiredField entries key place fun t place =>
    match t with
    | .seq ts => read ts place
    | other => .bad .invalidType place ("expected a sequence, found " ++ other.typeName)

/-- The issue of a key that is no text, or that is not among the allowed ones. -/
def keyIssue (allowed : List String) (place : Place) (code : IssueCode) (what : String) (key : Tree) : List Issue :=
  match key.text? with
  | some k =>
    if k ∈ allowed then []
    else [⟨code, place.key k, what ++ " '" ++ k ++ "' is not recognized and will be ignored"⟩]
  | none => [⟨.invalidType, place, "keys must be strings, found " ++ key.typeName⟩]

/-- The issues of all keys of a mapping. -/
def keyIssues (entries : List (Tree × Tree)) (allowed : List String) (place : Place) (code : IssueCode)
    (what : String) : List Issue :=
  entries.flatMap fun e => keyIssue allowed place code what e.1

end Schema

end Workflow
