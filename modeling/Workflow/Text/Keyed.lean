/-!
# Entries under text keys

Lists of entries in strictly increasing order of their keys, texts being compared by the numbers of their characters.
Putting an entry under a key that is already there replaces the value.
-/

namespace Workflow

/-- Entries under text keys. -/
abbrev Keyed (α : Type) := List (String × α)

namespace Keyed

/-- Puts a value under a key, in its place by the order of the keys. -/
def put {α : Type} (key : String) (value : α) : Keyed α → Keyed α
  | [] => [(key, value)]
  | (k, v) :: rest =>
    if key < k then (key, value) :: (k, v) :: rest
    else if key = k then (key, value) :: rest
    else (k, v) :: put key value rest

/-- The entries in key order; of several under one key the last counts. -/
def ofList {α : Type} (entries : List (String × α)) : Keyed α :=
  entries.foldl (fun map e => map.put e.1 e.2) []

/-- The value under a key. -/
def get? {α : Type} (map : Keyed α) (key : String) : Option α :=
  (map.find? (·.1 == key)).map (·.2)

/-- The keys, in order. -/
def keys {α : Type} (map : Keyed α) : List String :=
  map.map (·.1)

end Keyed

end Workflow
