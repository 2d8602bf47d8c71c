import Workflow.Schema.Reading

/-!
# Configuration values of a document

How a document tree becomes a configuration value. Mappings become objects with their keys in order, a number or a truth
value that serves as a key becomes its text, and a tagged value becomes an object with the tag as its only key.
-/

namespace Workflow

/-- Why a tree has no form as a configuration value. -/
inductive JsonRefusal
  | keyNotText
  | keyNotFinite
  deriving DecidableEq

/-- The wording of a refusal. -/
def JsonRefusal.message : JsonRefusal → String
  | keyNotText => "value cannot be represented as JSON: key must be a string"
  | keyNotFinite => "value cannot be represented as JSON: float key must be finite (got NaN or +/-inf)"

namespace Tree

/-- The text of a mapping key inside a configuration value. -/
def keyText : Tree → Except JsonRefusal String
  | .str s => .ok s
  | .bool b => .ok (if b then "true" else "false")
  | .num (.int n) => .ok (toString n)
  | .num (.real (.finite x)) => .ok (Double.finiteText .json x)
  | .num (.real _) => .error .keyNotFinite
  | _ => .error .keyNotText

mutual

/-- The tree as a configuration value. -/
def toJson : Tree → Except JsonRefusal Json
  | .null => .ok .null
  | .bool b => .ok (.bool b)
  | .num n => .ok (.ofNumber n)
  | .str s => .ok (.str s)
  | .seq ts => do return .arr (← itemsToJson ts)
  | .map entries => do return .record (← entriesToJson entries)
  | .tagged tag value => do return .obj [("!" ++ tag, ← value.toJson)]

/-- The items of a sequence as configuration values. -/
def itemsToJson : List Tree → Except JsonRefusal (List Json)
  | [] => .ok []
  | t :: rest => do
    let v ← t.toJson
    return v :: (← itemsToJson rest)

/-- The entries of a mapping, their keys as texts and their values as configuration values. -/
def entriesToJson : List (Tree × Tree) → Except JsonRefusal (List (String × Json))
  | [] => .ok []
  | (k, t) :: rest => do
    let key ← k.keyText
    let v ← t.toJson
    return (key, v) :: (← entriesToJson rest)

end

end Tree

namespace Schema

/-- An entry of a mapping that holds configuration values under text keys. -/
def configEntry (place : Place) (entry : Tree × Tree) : Reading (String × Json) :=
  match entry.1.text? with
  | none => .bad .invalidType place ("mapping keys must be strings, found " ++ entry.1.typeName)
  | some key =>
    match entry.2.toJson with
    | .ok v => .good (key, v)
    | .error refusal => .bad .invalidType (place.key key) refusal.message

/-- A mapping as configuration values under its keys. -/
def configEntries (entries : List (Tree × Tree)) (place : Place) : Reading (Keyed Json) :=
  (Reading.all (entries.map (configEntry place))).map Keyed.ofList

end Schema

end Workflow
