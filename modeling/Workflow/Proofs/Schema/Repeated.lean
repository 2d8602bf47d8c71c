import Mathlib.Order.Bounds.Basic
import Workflow.Proofs.Schema.Outdated

/-!
# Repeated ids and what is said of them

An id text that an item of the node list has is repeated by every later item that has it too, whatever else the items are. The report
tells of each such item once, in the order of the list, and each time it names the first item with the id text
(`validate_duplicateIds`). That the first one is kept through any number of repetitions and broken items is shown item by item: one
more item at the end of a list adds the repetition that it is, if it is one, and leaves those before it as they are
(`Repetition.in_concat_iff`).
-/

namespace Workflow

open IssueCode (isOwn)

/-- What is found of a part by itself is about no repeated id. -/
theorem AllWithin.filter_repeated {place : Place} {issues : List Issue} (h : AllWithin isOwn place issues) :
    issues.filter (·.code == .duplicateId) = [] :=
  h.filter_eq_nil (· == .duplicateId) fun _ hcode => beq_eq_false_iff_ne.mpr (bne_iff_ne.mp hcode)

namespace Schema

open Reading Workflow.Tree Grammar

variable {u item : Tree} {ts earlier : List Tree} {id : String} {i : Nat} {place : Place} {entries : List (Tree × Tree)}

/-! ## Repetitions -/

/-- The item at a position has an id text. -/
def IdAt (ts : List Tree) (id : String) (i : Nat) : Prop := ∃ u, ts[i]? = some u ∧ HasIdText u id

/-- An item with an id text that an earlier item has: the text, the position of the first item with it, and that of the item itself. -/
structure Repetition where
  id : String
  first : Nat
  position : Nat

namespace Repetition

/-- A repetition is one of a list if the list has the id text at its position, and the first position is the least of all earlier ones
with that text. -/
structure In (r : Repetition) (ts : List Tree) : Prop where
  repeated : IdAt ts r.id r.position
  first : IsLeast {i | i < r.position ∧ IdAt ts r.id i} r.first

/-- What is said of a repetition in the node list of a document. -/
def issue (r : Repetition) : Issue where
  code := .duplicateId
  place := [.key "nodes", .index r.position, .key "id"]
  message := "duplicate node id '" ++ r.id ++ "': declared at nodes[" ++ toString r.first ++ "] and nodes[" ++
    toString r.position ++ "]"

end Repetition

/-- The repetition that an item is after others, if it is one. -/
def repetition? (earlier : List Tree) (item : Tree) : Option Repetition :=
  (idText? item).bind fun id => (firstWithId? (earlier.map idText?) id).map fun first => ⟨id, first, earlier.length⟩

/-- The repetitions of a list, item by item. -/
def repetitions (ts : List Tree) : List Repetition :=
  ts.zipIdx.flatMap fun e => (repetition? (ts.take e.2) e.1).toList

/-- An item with the id text of an earlier one is a repetition: of all earlier positions with the text one is the least. -/
theorem Repetition.exists_in {position : Nat} (h : i < position) (hi : IdAt ts id i) (hposition : IdAt ts id position) :
    ∃ r : Repetition, r.In ts ∧ r.position = position := by
  classical
  have hex : ∃ i, i < position ∧ IdAt ts id i := ⟨i, h, hi⟩
  exact ⟨⟨id, Nat.find hex, position⟩, ⟨hposition, Nat.find_spec hex, fun _ hother => Nat.find_min' hex hother⟩, rfl⟩

/-! ## One more item -/

theorem IdAt.lt_length (h : IdAt ts id i) : i < ts.length := by
  obtain ⟨u, hu, -⟩ := h
  exact (List.getElem?_eq_some_iff.mp hu).1

/-- One more item changes no id text before it. -/
theorem idAt_concat_of_lt (h : i < ts.length) : IdAt (ts ++ [u]) id i ↔ IdAt ts id i := by
  rw [IdAt, IdAt, List.getElem?_append_left h]

/-- At the end stands the id text of that item. -/
theorem idAt_concat_length : IdAt (ts ++ [u]) id ts.length ↔ HasIdText u id := by
  simp only [IdAt, List.getElem?_concat_length, Option.some.injEq, exists_eq_left']

/-- The item at a position is read for its id text. -/
theorem idAt_iff : IdAt ts id i ↔ ∃ h : i < ts.length, idText? ts[i] = some id := by
  simp only [IdAt, List.getElem?_eq_some_iff, ← idText?_eq_some_iff]
  constructor
  · rintro ⟨u, ⟨hlt, rfl⟩, htext⟩
    exact ⟨hlt, htext⟩
  · rintro ⟨hlt, htext⟩
    exact ⟨ts[i], ⟨hlt, rfl⟩, htext⟩

/-- The position that is found for an id text is the least one with it. -/
theorem firstWithId?_eq_some_iff {first : Nat} :
    firstWithId? (earlier.map idText?) id = some first ↔ IsLeast {i | IdAt earlier id i} first := by
  rw [firstWithId?, List.findIdx?_eq_some_iff_getElem]
  simp only [List.length_map, List.getElem_map, beq_iff_eq]
  constructor
  · rintro ⟨hlt, htext, hnone⟩
    refine ⟨idAt_iff.mpr ⟨hlt, htext⟩, fun i hi => ?_⟩
    obtain ⟨hi, hother⟩ := idAt_iff.mp hi
    exact not_lt.mp fun hlt => hnone i hlt hother
  · rintro ⟨hfirst, hleast⟩
    obtain ⟨hlt, htext⟩ := idAt_iff.mp hfirst
    exact ⟨hlt, htext, fun i hi hother => absurd (hleast (idAt_iff.mpr ⟨_, hother⟩)) (not_le.mpr hi)⟩

/-- An item is a repetition after others if it has an id text that stands among them. -/
theorem repetition?_eq_some_iff {r : Repetition} :
    repetition? earlier item = some r ↔
      r.position = earlier.length ∧ HasIdText item r.id ∧ IsLeast {i | IdAt earlier r.id i} r.first := by
  simp only [repetition?, Option.bind_eq_some_iff, Option.map_eq_some_iff, idText?_eq_some_iff, firstWithId?_eq_some_iff]
  constructor
  · rintro ⟨id, hid, first, hfirst, rfl⟩
    exact ⟨rfl, hid, hfirst⟩
  · rintro ⟨hposition, hid, hfirst⟩
    exact ⟨r.id, hid, r.first, hfirst, by rw [← hposition]⟩

namespace Repetition

variable {r : Repetition}

theorem In.lt_length (h : r.In ts) : r.position < ts.length := h.repeated.lt_length

/-- Before the end one more item changes nothing. -/
theorem in_concat_of_lt (h : r.position < ts.length) : r.In (ts ++ [u]) ↔ r.In ts := by
  have hearlier : {i | i < r.position ∧ IdAt (ts ++ [u]) r.id i} = {i | i < r.position ∧ IdAt ts r.id i} :=
    Set.ext fun i => and_congr_right fun hi => idAt_concat_of_lt (hi.trans h)
  constructor
  · rintro ⟨hrepeated, hfirst⟩
    exact ⟨(idAt_concat_of_lt h).mp hrepeated, hearlier ▸ hfirst⟩
  · rintro ⟨hrepeated, hfirst⟩
    exact ⟨(idAt_concat_of_lt h).mpr hrepeated, hearlier ▸ hfirst⟩

/-- At the end the item itself is the repetition. -/
theorem in_concat_of_eq (h : r.position = ts.length) : r.In (ts ++ [u]) ↔ repetition? ts u = some r := by
  have hearlier : {i | i < ts.length ∧ IdAt (ts ++ [u]) r.id i} = {i | IdAt ts r.id i} :=
    Set.ext fun i => ⟨fun ⟨hi, hid⟩ => (idAt_concat_of_lt hi).mp hid,
      fun hid => ⟨hid.lt_length, (idAt_concat_of_lt hid.lt_length).mpr hid⟩⟩
  have hend : IdAt (ts ++ [u]) r.id ts.length ↔ HasIdText u r.id := idAt_concat_length
  rw [repetition?_eq_some_iff, and_iff_right h, ← hearlier, ← hend, ← h]
  exact ⟨fun ⟨hrepeated, hfirst⟩ => ⟨hrepeated, hfirst⟩, fun ⟨hrepeated, hfirst⟩ => ⟨hrepeated, hfirst⟩⟩

/-- The repetitions of a list with one more item are those of the list, and the one that this item is, if it is one. -/
theorem in_concat_iff : r.In (ts ++ [u]) ↔ r.In ts ∨ repetition? ts u = some r := by
  rcases lt_trichotomy r.position ts.length with hlt | heq | hgt
  · rw [in_concat_of_lt hlt, or_iff_left]
    exact fun hlast => hlt.ne (repetition?_eq_some_iff.mp hlast).1
  · rw [in_concat_of_eq heq, or_iff_right]
    exact fun hin => hin.lt_length.ne heq
  · refine iff_of_false (fun hin => ?_) (not_or.mpr ⟨fun hin => hgt.asymm hin.lt_length, fun hlast => ?_⟩)
    · have hlength := hin.lt_length
      rw [List.length_append, List.length_singleton] at hlength
      omega
    · exact hgt.ne' (repetition?_eq_some_iff.mp hlast).1

end Repetition

/-! ## All items -/

/-- One more item adds the repetition that it is. -/
theorem repetitions_concat (ts : List Tree) (u : Tree) :
    repetitions (ts ++ [u]) = repetitions ts ++ (repetition? ts u).toList := by
  have hbefore : ∀ e ∈ ts.zipIdx, (repetition? ((ts ++ [u]).take e.2) e.1).toList = (repetition? (ts.take e.2) e.1).toList :=
    fun e he => by rw [List.take_append_of_le_length (List.snd_lt_of_mem_zipIdx he).le]
  rw [repetitions, List.zipIdx_append, List.flatMap_append, List.flatMap_congr hbefore, Nat.zero_add, List.zipIdx_singleton,
    List.flatMap_singleton, List.take_left, repetitions]

/-- The repetitions of a list are all there are in it, in the order of their positions. -/
theorem repetitions_in (ts : List Tree) :
    (repetitions ts).Pairwise (·.position < ·.position) ∧ ∀ r, r ∈ repetitions ts ↔ r.In ts := by
  induction ts using List.reverseRecOn with
  | nil => exact ⟨List.Pairwise.nil, fun r => iff_of_false List.not_mem_nil fun hin => Nat.not_lt_zero _ hin.lt_length⟩
  | append_singleton ts u ih =>
    obtain ⟨hordered, hmem⟩ := ih
    rw [repetitions_concat]
    refine ⟨List.pairwise_append.mpr ⟨hordered, ?_, fun r hr last hlast => ?_⟩, fun r => ?_⟩
    · cases repetition? ts u with
      | none => exact List.Pairwise.nil
      | some last => exact List.pairwise_singleton _ _
    · rw [(repetition?_eq_some_iff.mp (Option.mem_toList.mp hlast)).1]
      exact ((hmem r).mp hr).lt_length
    · rw [List.mem_append, hmem, Option.mem_toList, Repetition.in_concat_iff]

/-! ## What the readings find -/

/-- What is found of an item after others is that it is a repetition, if it is one. -/
theorem repeatedIdIssues_eq (ts : List Tree) (u : Tree) :
    repeatedIdIssues (ts.map idText?) ts.length u ((Place.root.key "nodes").item ts.length) =
      (repetition? ts u).toList.map Repetition.issue := by
  rw [repeatedIdIssues, repetition?]
  cases idText? u with
  | none => rfl
  | some id =>
    cases hfirst : firstWithId? (ts.map idText?) id <;> simp only [Option.bind_some, hfirst] <;> rfl

/-- Of repeated ids a node item tells what it is found to be after those before it. -/
theorem filter_nodeItem (earlier : List (Option String)) (position : Nat) (u : Tree) (place : Place) :
    ((node u place).after (repeatedIdIssues earlier position u place)).issues.filter (·.code == .duplicateId) =
      repeatedIdIssues earlier position u place := by
  rw [after, List.filter_append, AllWithin.filter_repeated (within_node u place), List.append_nil, List.filter_eq_self]
  exact fun i hi => (allWithin_repeatedIdIssues earlier position u place i hi).1

/-- The node list tells of its repetitions. -/
theorem filter_nodes (ts : List Tree) :
    (nodes ts (Place.root.key "nodes")).issues.filter (·.code == .duplicateId) = (repetitions ts).map Repetition.issue := by
  rw [nodes, items, issues_all, List.flatMap_map, List.filter_flatMap, repetitions, List.map_flatMap]
  refine List.flatMap_congr fun e he => ?_
  have hlength : (ts.take e.2).length = e.2 := List.length_take_of_le (List.snd_lt_of_mem_zipIdx he).le
  have hfound := repeatedIdIssues_eq (ts.take e.2) e.1
  rw [hlength] at hfound
  rw [filter_nodeItem, ← List.map_take, hfound]

/-- So does the field of the root with the node list, and without a list there it tells of none. -/
theorem filter_nodesField (entries : List (Tree × Tree)) :
    (requiredSequence entries "nodes" Place.root nodes).issues.filter (·.code == .duplicateId) =
      (repetitions ((Tree.map entries).itemsUnder "nodes")).map Repetition.issue := by
  rw [itemsUnder, requiredSequence, requiredField]
  cases field? "nodes" entries with
  | none => rfl
  | some t =>
    cases t with
    | seq ts => exact filter_nodes ts
    | _ => rfl

/-! ## The report -/

/-- The report tells of the repetitions in the node list. -/
theorem withCode_duplicateId (t : Tree) (strict : Bool) :
    (validate t strict).withCode .duplicateId = (repetitions (t.itemsUnder "nodes")).map Repetition.issue := by
  change (document t).issues.filter (·.code == .duplicateId) = _
  cases t with
  | map entries =>
    have hkeys : AllWithin isOwn Place.root (keyIssues entries documentKeys Place.root .unknownField "top-level field") :=
      (allWithin_keyIssues rfl).own
    have hentry : AllWithin isOwn Place.root (entry entries).issues := fun i hi =>
      ⟨(within_endpoint (entry_eq_endpoint entries ▸ hi)).1, List.nil_prefix⟩
    have hedges : (requiredSequence entries "edges" Place.root edges).Within isOwn (Place.root.key "edges") :=
      within_requiredSequence rfl rfl within_edges
    rw [document_map]
    simp only [List.filter_append, hkeys.filter_repeated, within_requiredText.own.filter_repeated,
      within_optionalText.own.filter_repeated, within_version.own.filter_repeated, hentry.filter_repeated,
      AllWithin.filter_repeated hedges, filter_nodesField, List.nil_append, List.append_nil]
  | _ => rfl

/-- The report tells of every item of the node list that has the id text of an earlier one, whatever else the items are, and of no
other: once each, in the order of the list, with the id text, the least position that has it, and the position of the item. -/
theorem validate_duplicateIds (t : Tree) (strict : Bool) :
    ∃ told : List Repetition, (validate t strict).withCode .duplicateId = told.map Repetition.issue ∧
      told.Pairwise (·.position < ·.position) ∧ (∀ r, r ∈ told ↔ r.In (t.itemsUnder "nodes")) ∧
      ∀ i, (∃ r ∈ told, r.position = i) ↔
        ∃ id earlier, earlier < i ∧ IdAt (t.itemsUnder "nodes") id earlier ∧ IdAt (t.itemsUnder "nodes") id i := by
  obtain ⟨hordered, hmem⟩ := repetitions_in (t.itemsUnder "nodes")
  refine ⟨_, withCode_duplicateId t strict, hordered, hmem, fun i => ⟨?_, ?_⟩⟩
  · rintro ⟨r, hr, rfl⟩
    obtain ⟨hrepeated, ⟨hearlier, hfirst⟩, -⟩ := (hmem r).mp hr
    exact ⟨r.id, r.first, hearlier, hfirst, hrepeated⟩
  · rintro ⟨id, earlier, hlt, hearlier, hrepeated⟩
    obtain ⟨r, hin, hposition⟩ := Repetition.exists_in hlt hearlier hrepeated
    exact ⟨r, (hmem r).mpr hin, hposition⟩

/-- Items of all kinds, among them three with the same id text: a node, one under a tag, and one that is no node. -/
example : ((validate (.map [(.str "nodes", .seq [.null, .map [(.str "id", .str "a")], .map [(.str "id", .num (.int 1))],
      .tagged "old" (.map [(.str "id", .str "a")]), .str "a", .map [(.str "id", .tagged "old" (.str "a")), (.null, .null)]])])
      false).withCode .duplicateId).map (fun i => (i.place.text, i.message)) =
    [("nodes[3].id", "duplicate node id 'a': declared at nodes[1] and nodes[3]"),
      ("nodes[5].id", "duplicate node id 'a': declared at nodes[1] and nodes[5]")] := by
  decide +kernel

end Schema

end Workflow
