import Workflow.Package.Files
import Workflow.Proofs.Graph.Accept
import Workflow.Proofs.Text.Bytes
import Workflow.Proofs.Text.Keyed

/-!
# The state of a package

The state of a package has the keys that its nodes read or write, each once and in the order of their bytes. The type of a key is the
first known one that a node gives to it. So the order of the nodes counts only where two of them give different types to a key
(`stateSchema_merges`).
-/

namespace Workflow

namespace FieldType

/-- The first known type of a list, or any type if none is known. -/
def firstKnown (types : List FieldType) : FieldType := (types.find? (· != .any)).getD .any

/-- Of types of which one at most is known, the first known one is the same in any order. -/
theorem firstKnown_perm {types types' : List FieldType} (h : types.Perm types')
    (hone : ∀ a ∈ types, ∀ b ∈ types, a ≠ .any → b ≠ .any → a = b) : firstKnown types = firstKnown types' := by
  rw [firstKnown, firstKnown]
  cases hfind : types.find? (· != .any) with
  | none =>
    rw [List.find?_eq_none] at hfind
    rw [List.find?_eq_none.mpr fun a ha => hfind a (h.mem_iff.mpr ha)]
  | some a =>
    have ha := List.find?_some hfind
    have hmem := List.mem_of_find?_eq_some hfind
    cases hfind' : types'.find? (· != .any) with
    | none => exact absurd ha (List.find?_eq_none.mp hfind' a (h.mem_iff.mp hmem))
    | some b =>
      have hb := List.find?_some hfind'
      have hmem' := h.mem_iff.mpr (List.mem_of_find?_eq_some hfind')
      rw [hone a hmem b hmem' (bne_iff_ne.mp ha) (bne_iff_ne.mp hb)]

end FieldType

open FieldType

namespace Graph

/-- The types that the nodes give to a state key, node by node and field by field. -/
def typesGiven (g : Graph) (key : String) : List FieldType :=
  g.nodes.flatMap fun n => (n.spec.stateFields.filter (·.name == key)).map (·.type)

/-- No two different known types are given to a state key. -/
def AgreesOnTypes (g : Graph) : Prop :=
  ∀ key, ∀ a ∈ g.typesGiven key, ∀ b ∈ g.typesGiven key, a ≠ .any → b ≠ .any → a = b

variable {g g' : Graph} {key : String}

theorem mem_typesGiven {type : FieldType} :
    type ∈ g.typesGiven key ↔ ∃ n ∈ g.nodes, ∃ f ∈ n.spec.stateFields, f.name = key ∧ f.type = type := by
  simp [typesGiven, and_assoc]

/-- A key is given no type exactly if no node has it among its fields. -/
theorem typesGiven_eq_nil_iff : g.typesGiven key = [] ↔ ∀ n ∈ g.nodes, ∀ f ∈ n.spec.stateFields, f.name ≠ key := by
  simp [typesGiven]

theorem typesGiven_perm (h : g.nodes.Perm g'.nodes) (key : String) : (g.typesGiven key).Perm (g'.typesGiven key) :=
  h.flatMap_right _

end Graph

namespace Package

variable {g : Graph} {state : Keyed FieldType} {key : String}

/-! ## Merging fields -/

/-- The type of a key to which a further type is given. -/
def mergedType : Option FieldType → FieldType → FieldType
  | none, type => type
  | some .any, type => type
  | some known, _ => known

/-- The type of a key to which types are given one after the other. A key to which none is given has none. -/
def settledType (types : List FieldType) : Option FieldType := if types.isEmpty then none else some (firstKnown types)

theorem settledType_eq_none_iff {types : List FieldType} : settledType types = none ↔ types = [] := by
  cases types <;> simp [settledType]

/-- Where a type has been merged, the first known one is the same as before. -/
theorem settledType_merged (before : Option FieldType) (type : FieldType) (types : List FieldType) :
    settledType (mergedType before type :: types) = settledType (before.toList ++ type :: types) := by
  cases before with
  | none => rfl
  | some known => cases known <;> rfl

/-- A field that is merged changes the type of its own key alone. -/
theorem get?_mergeField (state : Keyed FieldType) (field : StateField) (key : String) :
    (mergeField state field).get? key =
      if key = field.name then some (mergedType (state.get? key) field.type) else state.get? key := by
  rw [mergeField]
  by_cases hkey : key = field.name
  · rw [if_pos hkey, hkey]
    cases hfound : state.get? field.name with
    | none => simp [Keyed.get?_put, mergedType]
    | some known => cases known <;> simp [Keyed.get?_put, hfound, mergedType]
  · rw [if_neg hkey]
    split <;> simp [Keyed.get?_put, hkey]

theorem ascending_mergeField (h : state.Ascending) (field : StateField) : (mergeField state field).Ascending := by
  rw [mergeField]
  split
  · exact h.put _ _
  · exact h.put _ _
  · exact h

/-- Fields that are merged one by one settle the type of each key by all that are given to it, with the one it had before. -/
theorem get?_foldl_mergeField (fields : List StateField) (state : Keyed FieldType) (key : String) :
    (fields.foldl mergeField state).get? key =
      settledType ((state.get? key).toList ++ (fields.filter (·.name == key)).map (·.type)) := by
  induction fields generalizing state with
  | nil =>
    rw [List.foldl_nil, List.filter_nil, List.map_nil, List.append_nil]
    cases state.get? key with
    | none => rfl
    | some type => cases type <;> rfl
  | cons field fields ih =>
    rw [List.foldl_cons, ih, get?_mergeField]
    by_cases hkey : key = field.name
    · rw [if_pos hkey, List.filter_cons_of_pos (by simp [hkey]), List.map_cons]
      exact settledType_merged _ _ _
    · rw [if_neg hkey, List.filter_cons_of_neg (by simp [Ne.symm hkey])]

/-! ## The state of a graph -/

theorem ascending_stateSchema (g : Graph) : (stateSchema g).Ascending := by
  have hfold (fields : List StateField) (state : Keyed FieldType) (h : state.Ascending) :
      (fields.foldl mergeField state).Ascending := by
    induction fields generalizing state with
    | nil => exact h
    | cons field fields ih => exact ih _ (ascending_mergeField h field)
  exact hfold _ [] List.Pairwise.nil

/-- The type of a state key is settled by all that the nodes give to it. -/
theorem get?_stateSchema (g : Graph) (key : String) : (stateSchema g).get? key = settledType (g.typesGiven key) := by
  rw [stateSchema, get?_foldl_mergeField, List.filter_flatMap, List.map_flatMap]
  rfl

/-- The state keys are those to which some type is given. -/
theorem mem_keys_iff_typesGiven : key ∈ (stateSchema g).keys ↔ g.typesGiven key ≠ [] := by
  rw [Keyed.keys, Keyed.mem_keys_iff, get?_stateSchema, ne_eq, settledType_eq_none_iff]

/-- So they are the names of the fields of the nodes. -/
theorem mem_keys_stateSchema : key ∈ (stateSchema g).keys ↔ ∃ n ∈ g.nodes, ∃ f ∈ n.spec.stateFields, f.name = key := by
  rw [mem_keys_iff_typesGiven, ne_eq, Graph.typesGiven_eq_nil_iff]
  simp

/-- Types that agree are settled alike, whatever the order of the nodes. -/
theorem settledType_perm {g' : Graph} (h : g.nodes.Perm g'.nodes) (hone : g.AgreesOnTypes) (key : String) :
    settledType (g.typesGiven key) = settledType (g'.typesGiven key) := by
  have hperm := Graph.typesGiven_perm h key
  rw [settledType, settledType, firstKnown_perm hperm (hone key), hperm.isEmpty_eq]

/-- The state of a graph that is built: its keys are the names of the fields of its nodes, each once and in the order of their bytes;
each key has the first known type that is given to it, or any type if none is known; graphs of the same nodes in different
orders have the same state, unless two known types are given to a key; and no node has a key for its id. -/
theorem stateSchema_merges {d : Document} {g : Graph} (h : Graph.build d = .ok g) :
    (∀ key, key ∈ (stateSchema g).keys ↔ ∃ n ∈ g.nodes, ∃ f ∈ n.spec.stateFields, f.name = key) ∧
      (stateSchema g).keys.Pairwise (fun a b => utf8Bytes a < utf8Bytes b) ∧
      (∀ key ∈ (stateSchema g).keys, (stateSchema g).get? key = some (firstKnown (g.typesGiven key))) ∧
      (∀ d' g', Graph.build d' = .ok g' → g.nodes.Perm g'.nodes → g.AgreesOnTypes → stateSchema g = stateSchema g') ∧
      ∀ n ∈ g.nodes, n.id ∉ (stateSchema g).keys := by
  refine ⟨fun key => mem_keys_stateSchema, (ascending_stateSchema g).imp utf8Bytes_lt, fun key hkey => ?_, ?_, ?_⟩
  · rw [get?_stateSchema, settledType, if_neg (mt List.isEmpty_iff.mp (mem_keys_iff_typesGiven.mp hkey))]
  · intro d' g' _ hperm hone
    refine (ascending_stateSchema g).ext (ascending_stateSchema g') fun key => ?_
    rw [get?_stateSchema, get?_stateSchema, settledType_perm hperm hone]
  · intro n hn hkey
    obtain ⟨hnil, s, -, rfl⟩ := Build.build_eq_ok_iff.mp h
    obtain ⟨m, hm, f, hf, hname⟩ := mem_keys_stateSchema.mp hkey
    exact (Build.sound_of_issues_eq_nil hnil).apart n hn m hm f hf hname

/-- The loop with its nodes in the opposite order. -/
def reviewLoopReversed : Document := { reviewLoop with nodes := reviewLoop.nodes.reverse }

/-- Both loops have one state. What the end puts out has its type from the call that comes after it, or before. -/
theorem stateSchema_merges_reviewLoop :
    ∃ g g', Graph.build reviewLoop = .ok g ∧ Graph.build reviewLoopReversed = .ok g' ∧
      stateSchema g = [("text", .string), ("topic", .string), ("verdict", .any)] ∧ stateSchema g = stateSchema g' ∧
      g.typesGiven "text" = [.any, .string] ∧ (stateSchema g).get? "text" = some (firstKnown (g.typesGiven "text")) ∧
      (stateSchema g).keys.Pairwise (fun a b => utf8Bytes a < utf8Bytes b) ∧ ∀ n ∈ g.nodes, n.id ∉ (stateSchema g).keys := by
  obtain ⟨g, hg, hnodes⟩ : ∃ g, Graph.build reviewLoop = .ok g ∧ g.nodes = reviewLoop.nodes := ⟨_, rfl, rfl⟩
  obtain ⟨g', hg', hnodes'⟩ : ∃ g', Graph.build reviewLoopReversed = .ok g' ∧ g'.nodes = reviewLoop.nodes.reverse := ⟨_, rfl, rfl⟩
  have htexts : ∀ n ∈ reviewLoop.nodes, ∀ f ∈ n.spec.stateFields, f.type ≠ .any → f.type = .string := by decide
  have hstring {key : String} {type : FieldType} (h : type ∈ g.typesGiven key) (hknown : type ≠ .any) : type = .string := by
    obtain ⟨n, hn, f, hf, -, rfl⟩ := Graph.mem_typesGiven.mp h
    exact htexts n (hnodes ▸ hn) f hf hknown
  have hone : g.AgreesOnTypes := fun key a ha b hb hane hbne => (hstring ha hane).trans (hstring hb hbne).symm
  obtain ⟨-, horder, htypes, hperm, hapart⟩ := stateSchema_merges hg
  have hsame := hperm _ g' hg' (by rw [hnodes, hnodes']; exact (List.reverse_perm _).symm) hone
  have hstate : stateSchema g = [("text", .string), ("topic", .string), ("verdict", .any)] := by
    rw [stateSchema, hnodes]
    rfl
  refine ⟨g, g', hg, hg', hstate, hsame, by rw [Graph.typesGiven, hnodes]; rfl, htypes _ ?_, horder, hapart⟩
  rw [hstate]
  exact List.mem_cons_self

end Package

end Workflow
