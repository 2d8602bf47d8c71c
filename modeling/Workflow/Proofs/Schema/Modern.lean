import Mathlib.Data.List.Basic
import Workflow.Schema.Check

/-!
# Documents brought up to date

The tree of a document with every outdated key replaced by the current one, or removed where the current one is there as well, and
what is found under a key of it. An outdated key is one only as an untagged text and at its own level: the root, a node, an edge,
the configuration of a node that calls a language model.
-/

namespace Workflow

namespace Tree

variable {key key' outdated : String} {t : Tree} {entries : List (Tree × Tree)} {change : Tree → Tree}

/-- Whether a value is a text key with a given name. Like a look-up, it does not see through tags. -/
def isKey (key : String) (t : Tree) : Bool := t.sameValue (.str key)

/-! ## The tree brought up to date -/

/-- The entries with an outdated key brought up to date: the current key stands in its place, unless that is there already; then
the outdated entry goes. -/
def renamed (key outdated : String) (entries : List (Tree × Tree)) : List (Tree × Tree) :=
  if (field? key entries).isSome then entries.filter fun e => !e.1.isKey outdated
  else entries.map fun e => (if e.1.isKey outdated then .str key else e.1, e.2)

/-- The entries with a change made to the value under a key. -/
def onField (key : String) (change : Tree → Tree) (entries : List (Tree × Tree)) : List (Tree × Tree) :=
  entries.map fun e => (e.1, if e.1.isKey key then change e.2 else e.2)

/-- A value with a change made to its items, if it is a sequence, or one made to its entries, if it is a mapping. -/
def onParts (item : Tree → Tree) (fields : List (Tree × Tree) → List (Tree × Tree)) : Tree → Tree
  | .seq items => .seq (items.map item)
  | .map entries => .map (fields entries)
  | t => t

/-- A mapping with a change made to its entries. Whatever else a value is, it stays as it is. -/
def onMapping : (List (Tree × Tree) → List (Tree × Tree)) → Tree → Tree := onParts id

/-- A sequence with a change made to its items. Whatever else a value is, it stays as it is. -/
def onItems (item : Tree → Tree) : Tree → Tree := onParts item id

/-- The configuration of a node that calls a language model. -/
def modernConfig : Tree → Tree := onMapping (renamed "prompt" "prompt_template")

/-- The entries of a node. Its kind, by either key, decides whether there can be an outdated key in its configuration. -/
def modernNodeFields (entries : List (Tree × Tree)) : List (Tree × Tree) :=
  let current := renamed "kind" "type" entries
  if (field? "kind" current).any (isKey NodeKind.llmCall.text) then onField "config" modernConfig current else current

/-- The entries of an edge. -/
def modernEdgeFields (entries : List (Tree × Tree)) : List (Tree × Tree) :=
  renamed "target" "to" (renamed "source" "from" entries)

/-- The entries of a document. -/
def modernFields (entries : List (Tree × Tree)) : List (Tree × Tree) :=
  onField "edges" (onItems (onMapping modernEdgeFields))
    (onField "nodes" (onItems (onMapping modernNodeFields)) (renamed "entry" "entry_point" entries))

/-- A document with no outdated key. -/
def modern : Tree → Tree := onMapping modernFields

/-! ## Look-ups -/

/-- A value is a key exactly if it is that text. -/
theorem isKey_iff : t.isKey key = true ↔ t = .str key := by
  cases t <;> simp [isKey, sameValue]

/-- No value is two keys. -/
theorem not_isKey_of_isKey (h : t.isKey key = true) (hne : key ≠ key') : t.isKey key' = false := by
  rw [isKey_iff] at h
  rw [← Bool.not_eq_true, isKey_iff, h]
  exact fun hkey => hne (Tree.str.inj hkey)

theorem field?_cons (e : Tree × Tree) (rest : List (Tree × Tree)) :
    field? key (e :: rest) = if e.1.isKey key then some e.2 else field? key rest := by
  obtain ⟨k, value⟩ := e
  cases k <;> simp [field?, isKey, sameValue]

/-- Leaving out a key changes the look-up of no other key. -/
theorem field?_filter (entries : List (Tree × Tree)) (key outdated : String) :
    field? key (entries.filter fun e => !e.1.isKey outdated) = if key = outdated then none else field? key entries := by
  induction entries with
  | nil => simp [field?]
  | cons e rest ih =>
    by_cases hout : e.1.isKey outdated = true
    · rw [List.filter_cons_of_neg (by simp [hout]), ih, field?_cons]
      by_cases hkey : key = outdated
      · rw [if_pos hkey, if_pos hkey]
      · rw [if_neg hkey, if_neg hkey, not_isKey_of_isKey hout (Ne.symm hkey), if_neg Bool.false_ne_true]
    · rw [List.filter_cons_of_pos (by simp [hout]), field?_cons, ih, field?_cons]
      by_cases hkey : key = outdated
      · rw [if_pos hkey, if_pos hkey, hkey, if_neg hout]
      · rw [if_neg hkey, if_neg hkey]

/-- Under a key that takes the place of another one that is there, that one's value is found. -/
theorem field?_map_key (h : field? key entries = none) :
    field? key (entries.map fun e => (if e.1.isKey outdated then .str key else e.1, e.2)) = field? outdated entries := by
  induction entries with
  | nil => rfl
  | cons e rest ih =>
    rw [field?_cons] at h
    have hkey : e.1.isKey key = false := by
      cases hkey : e.1.isKey key with
      | false => rfl
      | true =>
        rw [hkey, if_pos rfl] at h
        cases h
    rw [hkey, if_neg Bool.false_ne_true] at h
    rw [List.map_cons, field?_cons, field?_cons, ih h]
    by_cases hout : e.1.isKey outdated = true
    · simp only [if_pos hout, isKey_iff.mpr rfl, if_true]
    · simp only [if_neg hout, hkey, if_false, Bool.false_eq_true]

/-- A key that takes the place of another one changes the look-up of no third key, and that of the other one finds nothing. -/
theorem field?_map_of_ne (h : key' ≠ key) :
    field? key' (entries.map fun e => (if e.1.isKey outdated then .str key else e.1, e.2)) =
      if key' = outdated then none else field? key' entries := by
  induction entries with
  | nil => simp [field?]
  | cons e rest ih =>
    rw [List.map_cons, field?_cons, ih, field?_cons]
    by_cases hout : e.1.isKey outdated = true
    · have hnew : (Tree.str key).isKey key' = false := not_isKey_of_isKey (isKey_iff.mpr rfl) (Ne.symm h)
      simp only [if_pos hout, hnew, Bool.false_eq_true, if_false]
      by_cases hkey : key' = outdated
      · rw [if_pos hkey, if_pos hkey]
      · rw [if_neg hkey, if_neg hkey, not_isKey_of_isKey hout (Ne.symm hkey), if_neg Bool.false_ne_true]
    · simp only [if_neg hout]
      by_cases hkey : key' = outdated
      · simp only [hkey, if_true, if_neg hout]
      · simp only [if_neg hkey]

/-- Under the current key stands what stood there, or else what stood under the outdated one. -/
theorem field?_renamed_key (hne : key ≠ outdated) :
    field? key (renamed key outdated entries) = (field? key entries).or (field? outdated entries) := by
  rw [renamed]
  cases hkey : field? key entries with
  | none =>
    rw [Option.isSome_none, if_neg Bool.false_ne_true, field?_map_key hkey]
    rfl
  | some value => rw [Option.isSome_some, if_pos rfl, field?_filter, if_neg hne, hkey, Option.some_or]

/-- Under the outdated key stands nothing any more. -/
theorem field?_renamed_outdated (hne : key ≠ outdated) : field? outdated (renamed key outdated entries) = none := by
  rw [renamed]
  split
  · rw [field?_filter, if_pos rfl]
  · rw [field?_map_of_ne (Ne.symm hne), if_pos rfl]

/-- Under any other key stands what stood there. -/
theorem field?_renamed_of_ne (hkey : key' ≠ key) (hout : key' ≠ outdated) :
    field? key' (renamed key outdated entries) = field? key' entries := by
  rw [renamed]
  split
  · rw [field?_filter, if_neg hout]
  · rw [field?_map_of_ne hkey, if_neg hout]

/-- A change to the value under a key is found there. -/
theorem field?_onField_self : field? key (onField key change entries) = (field? key entries).map change := by
  induction entries with
  | nil => rfl
  | cons e rest ih =>
    rw [onField, List.map_cons, field?_cons, field?_cons]
    by_cases hkey : e.1.isKey key = true
    · simp only [if_pos hkey, Option.map_some]
    · simp only [if_neg hkey]
      exact ih

/-- A change to the value under a key changes the look-up of no other key. -/
theorem field?_onField_of_ne (hne : key' ≠ key) : field? key' (onField key change entries) = field? key' entries := by
  induction entries with
  | nil => rfl
  | cons e rest ih =>
    rw [onField, List.map_cons, field?_cons, field?_cons]
    by_cases hkey : e.1.isKey key' = true
    · simp only [if_pos hkey, not_isKey_of_isKey hkey hne, Bool.false_eq_true, if_false]
    · simp only [if_neg hkey]
      exact ih

/-! ## The fields of a node -/

/-- Apart from its configuration, a node has its kind under the current key and is else as it was. -/
theorem field?_modernNodeFields_of_ne (hne : key ≠ "config") :
    field? key (modernNodeFields entries) = field? key (renamed "kind" "type" entries) := by
  rw [modernNodeFields]
  split
  · rw [field?_onField_of_ne hne]
  · rfl

/-- A node has its configuration brought up to date if it calls a language model. -/
theorem field?_modernNodeFields_config :
    field? "config" (modernNodeFields entries) =
      if ((field? "kind" entries).or (field? "type" entries)).any (isKey NodeKind.llmCall.text)
      then (field? "config" entries).map modernConfig else field? "config" entries := by
  have hkind : field? "kind" (renamed "kind" "type" entries) = (field? "kind" entries).or (field? "type" entries) :=
    field?_renamed_key (by decide)
  have hconfig : field? "config" (renamed "kind" "type" entries) = field? "config" entries :=
    field?_renamed_of_ne (by decide) (by decide)
  rw [modernNodeFields, ← hkind, ← hconfig]
  split
  · exact field?_onField_self
  · rfl

end Tree

namespace Schema

variable {key outdated what : String} {entries : List (Tree × Tree)} {allowed : List String} {place : Place} {code : IssueCode}

open Workflow.Tree

/-! ## Keys -/

/-- A key that is allowed has no issue. -/
theorem keyIssue_of_isKey {t : Tree} (h : t.isKey key = true) (hallowed : key ∈ allowed) :
    keyIssue allowed place code what t = [] := by
  have htext : (Tree.str key).text? = some key := rfl
  rw [isKey_iff.mp h, keyIssue, htext]
  exact if_pos hallowed

/-- What is gathered from a list is gathered from the elements that have something to give. -/
theorem flatMap_filter_eq {α β : Type} {f : α → List β} {p : α → Bool} {l : List α} (h : ∀ a ∈ l, p a = false → f a = []) :
    (l.filter p).flatMap f = l.flatMap f := by
  induction l with
  | nil => rfl
  | cons a l ih =>
    have hrest := ih fun b hb => h b (List.mem_cons_of_mem _ hb)
    cases hp : p a with
    | false =>
      rw [List.filter_cons_of_neg (by simp [hp]), hrest, List.flatMap_cons, h a List.mem_cons_self hp, List.nil_append]
    | true => rw [List.filter_cons_of_pos hp, List.flatMap_cons, hrest, List.flatMap_cons]

/-- The issues of keys stay the same if the current key and the outdated one are both allowed. -/
theorem keyIssues_renamed (hkey : key ∈ allowed) (hout : outdated ∈ allowed) :
    keyIssues (renamed key outdated entries) allowed place code what = keyIssues entries allowed place code what := by
  rw [keyIssues, keyIssues, renamed]
  split
  · refine flatMap_filter_eq fun e _ he => keyIssue_of_isKey ?_ hout
    simpa using he
  · rw [List.flatMap_map]
    refine List.flatMap_congr fun e _ => ?_
    by_cases h : e.1.isKey outdated = true
    · simp only [if_pos h, keyIssue_of_isKey h hout, keyIssue_of_isKey (isKey_iff.mpr rfl) hkey]
    · simp only [if_neg h]

/-- The issues of keys do not depend on the values. -/
theorem keyIssues_onField {change : Tree → Tree} :
    keyIssues (onField key change entries) allowed place code what = keyIssues entries allowed place code what := by
  rw [keyIssues, keyIssues, onField, List.flatMap_map]

end Schema

end Workflow
