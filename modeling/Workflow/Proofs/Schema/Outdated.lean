import Workflow.Proofs.Schema.Renewal

/-!
# Outdated keys and what is said of them

Which issues about outdated keys the report on a document holds, in which order and in which words (`validate_outdated`). The fields
of a node and its configuration are told of wherever an outdated key stands in them; the root and the edges only where it stands
without the current key (`outdated_untold`).
-/

namespace Workflow

open IssueCode (isPlain)

namespace Tree

/-! ## What there is to say -/

/-- What there is to say of an outdated key that stands in a mapping. Beside the current key it is ignored. -/
def outdatedKey (entries : List (Tree × Tree)) (key outdated : String) (place : Place) : List Issue :=
  if (field? outdated entries).isSome then
    [⟨.deprecatedField, place.key outdated,
      if (field? key entries).isSome then
        "'" ++ outdated ++ "' is deprecated and ignored because '" ++ key ++ "' is set"
      else "'" ++ outdated ++ "' is deprecated, use '" ++ key ++ "'"⟩]
  else []

/-- What there is to say of an outdated key that stands in a mapping without the current one. -/
def loneOutdatedKey (entries : List (Tree × Tree)) (key outdated : String) (place : Place) : List Issue :=
  if (field? key entries).isSome then [] else outdatedKey entries key outdated place

/-- The items of the sequence under a key of a document. Without a sequence there are none. -/
def itemsUnder (t : Tree) (key : String) : List Tree :=
  match t with
  | .map entries =>
    match field? key entries with
    | some (.seq ts) => ts
    | _ => []
  | _ => []

/-- The configuration that stands in a node, empty where no mapping does. -/
def configFields (fields : List (Tree × Tree)) : List (Tree × Tree) :=
  match field? "config" fields with
  | some (.map config) => config
  | _ => []

/-- The outdated key in the configuration of a node, if the node calls a language model. -/
def outdatedInConfig (fields : List (Tree × Tree)) (place : Place) : List Issue :=
  if ((field? "kind" fields).or (field? "type" fields)).any (isKey NodeKind.llmCall.text) then
    outdatedKey (configFields fields) "prompt" "prompt_template" (place.key "config")
  else []

/-- The outdated keys in a node. -/
def outdatedInNode (u : Tree) (place : Place) : List Issue :=
  match u with
  | .map fields => outdatedKey fields "kind" "type" place ++ outdatedInConfig fields place
  | _ => []

/-- The outdated keys in an edge, told of by a given rule. -/
def outdatedInEdge (tell : List (Tree × Tree) → String → String → Place → List Issue) (u : Tree) (place : Place) :
    List Issue :=
  match u with
  | .map fields => tell fields "source" "from" place ++ tell fields "target" "to" place
  | _ => []

/-- The outdated keys in a document, node by node and edge by edge. Those of the root and of the edges are told of by a given
rule, all others wherever they stand. -/
def outdatedKeys (tell : List (Tree × Tree) → String → String → Place → List Issue) (t : Tree) : List Issue :=
  match t with
  | .map entries =>
    tell entries "entry" "entry_point" Place.root ++
      ((t.itemsUnder "nodes").zipIdx.flatMap fun e => outdatedInNode e.1 ((Place.root.key "nodes").item e.2)) ++
      ((t.itemsUnder "edges").zipIdx.flatMap fun e => outdatedInEdge tell e.1 ((Place.root.key "edges").item e.2))
  | _ => []

end Tree

namespace Reading

variable {α : Type}

/-! ## The issues of a reading -/

/-- The issues of a reading about outdated keys. -/
def outdated (r : Reading α) : List Issue := r.issues.filter (·.code == .deprecatedField)

end Reading

/-- Issues about single fields are about no outdated key. -/
theorem AllWithin.filter_outdated {place : Place} {issues : List Issue} (h : AllWithin isPlain place issues) :
    issues.filter (·.code == .deprecatedField) = [] := by
  refine h.filter_eq_nil (· == .deprecatedField) fun code hcode => ?_
  rw [isPlain, Bool.and_eq_true, bne_iff_ne] at hcode
  exact beq_eq_false_iff_ne.mpr hcode.1

namespace Reading

variable {α : Type}

theorem Within.outdated_eq {place : Place} {r : Reading α} (h : r.Within isPlain place) : r.outdated = [] :=
  AllWithin.filter_outdated h

/-- What is found before a plain reading is all there is to find. -/
theorem Within.outdated_after {place : Place} {r : Reading α} (h : r.Within isPlain place) (found : List Issue) :
    (r.after found).outdated = found.filter (·.code == .deprecatedField) := by
  rw [outdated, Reading.after, List.filter_append, AllWithin.filter_outdated h, List.append_nil]

/-- The value of a reading that goes on is read from that of the first. -/
theorem value_andThen {β : Type} (r : Reading α) (next : α → Reading β) :
    (r.andThen next).value = r.value.bind fun a => (next a).value := by
  rw [andThen]
  cases r.value <;> rfl

/-- All readings together find the outdated keys of each. -/
theorem outdated_all (rs : List (Reading α)) : (all rs).outdated = rs.flatMap (·.outdated) := by
  rw [outdated, issues_all, List.filter_flatMap]
  rfl

end Reading

namespace Schema

open Reading Workflow.Tree

variable {u : Tree} {place : Place} {entries config : List (Tree × Tree)}

/-! ## Keys -/

/-- An end of an edge, and the entry, tell of an outdated key where it stands alone. -/
theorem outdated_endpoint {key outdated : String} :
    (endpoint entries key outdated place).outdated = loneOutdatedKey entries key outdated place := by
  unfold endpoint
  rw [loneOutdatedKey, outdatedKey]
  cases hkey : field? key entries with
  | some value => exact within_requiredText.outdated_eq
  | none =>
    cases field? outdated entries with
    | some value => exact (within_textValue _ _).outdated_after _
    | none => exact within_requiredText.outdated_eq

theorem outdated_nodeKind : (nodeKind entries place).outdated = outdatedKey entries "kind" "type" place := by
  rw [nodeKind, outdatedKey]
  cases field? "kind" entries with
  | some kind =>
    cases field? "type" entries with
    | some _ => exact (within_kindValue _ _).outdated_after _
    | none => exact (within_kindValue _ _).outdated_eq
  | none =>
    cases field? "type" entries with
    | some outdated => exact (within_kindValue _ _).outdated_after _
    | none => rfl

theorem outdated_prompt : (prompt config place).outdated = outdatedKey config "prompt" "prompt_template" place := by
  rw [prompt, outdatedKey]
  cases field? "prompt" config with
  | some value =>
    cases field? "prompt_template" config with
    | some _ => exact (within_textValue _ _).outdated_after _
    | none => exact (within_textValue _ _).outdated_eq
  | none =>
    cases field? "prompt_template" config with
    | some outdated => exact (within_textValue _ _).outdated_after _
    | none => rfl

/-! ## Nodes -/

theorem outdated_llmCallSpec : (llmCallSpec config place).outdated = outdatedKey config "prompt" "prompt_template" place := by
  have hplain := allWithin_callFields config place
  rw [← outdated_prompt, outdated, llmCallSpec]
  simp only [List.append_assoc] at hplain ⊢
  rw [List.filter_append, hplain.filter_outdated, List.append_nil]
  rfl

/-- Only the configuration of a call of a language model has an outdated key. -/
theorem outdated_spec (kind : NodeKind) :
    (spec kind config place).outdated =
      if kind = .llmCall then outdatedKey config "prompt" "prompt_template" place else [] := by
  split
  · next hkind =>
    have hkeys : AllWithin isPlain place (keyIssues config NodeKind.llmCall.configKeys place .unusedConfig
        ("config key for a " ++ NodeKind.llmCall.text ++ " node")) := allWithin_keyIssues rfl
    rw [hkind, outdated, spec, after, List.filter_append, hkeys.filter_outdated, List.nil_append]
    exact outdated_llmCallSpec
  · next hkind => exact (plain_spec hkind).outdated_eq

/-- A text is read where one stands that is not blank. -/
theorem textValue_value_iff {s : String} : (textValue u place).value = some s ↔ u = .str s ∧ isBlankText s = false := by
  cases u with
  | str s' =>
    rw [textValue, Tree.str.injEq]
    by_cases hblank : isBlankText s' = true
    · rw [if_pos hblank]
      refine iff_of_false (Option.some_ne_none s).symm fun h => ?_
      rw [h.1, h.2] at hblank
      cases hblank
    · rw [if_neg hblank, good, Option.some.injEq]
      exact (and_iff_left_of_imp fun h => h ▸ Bool.not_eq_true _ ▸ hblank).symm
  | _ => simp [textValue, bad]

/-- A kind is read where its name stands. -/
theorem kindValue_value_iff {kind : NodeKind} : (kindValue u place).value = some kind ↔ u = .str kind.text := by
  rw [kindValue, value_andThen, Option.bind_eq_some_iff]
  simp only [textValue_value_iff]
  constructor
  · rintro ⟨name, ⟨rfl, -⟩, hname⟩
    split at hname
    · next hknown =>
      rw [good, Option.some.injEq] at hname
      rw [ofText?_eq_some_iff.mp hknown, hname]
    · cases hname
  · rintro rfl
    refine ⟨kind.text, ⟨rfl, by cases kind <;> decide⟩, ?_⟩
    rw [ofText?_eq_some_iff.mpr rfl]
    rfl

/-- A kind is read from the current key, or from the outdated one if there is none. -/
theorem nodeKind_value_iff {kind : NodeKind} :
    (nodeKind entries place).value = some kind ↔
      (field? "kind" entries).or (field? "type" entries) = some (.str kind.text) := by
  rw [nodeKind]
  cases field? "kind" entries <;> cases field? "type" entries <;>
    simp [Reading.after, kindValue_value_iff, bad]

/-- The configuration that is read is the one that stands there, if one does. -/
theorem getD_configMapping (entries : List (Tree × Tree)) (place : Place) :
    (configMapping entries place).value.getD [] = configFields entries := by
  rw [configMapping, optionalField, configFields, Reading.map]
  cases field? "config" entries with
  | none => rfl
  | some t => cases t <;> rfl

/-- The configuration of a node tells of its outdated key if the kind that is read has one. -/
theorem outdated_nodeSpec : (nodeSpec entries place).outdated = outdatedInConfig entries place := by
  have hcalls : ((field? "kind" entries).or (field? "type" entries)).any (isKey NodeKind.llmCall.text) = true ↔
      (nodeKind entries place).value = some .llmCall := by
    rw [nodeKind_value_iff, Option.any_eq_true]
    simp only [isKey_iff, exists_eq_right]
  rw [outdatedInConfig, if_congr hcalls rfl rfl, ← getD_configMapping entries place, nodeSpec]
  cases (nodeKind entries place).value with
  | none => rfl
  | some kind =>
    cases (configMapping entries place).value with
    | none => exact (ite_self _).symm
    | some config => simpa using outdated_spec kind

theorem outdated_node (u : Tree) (place : Place) : (node u place).outdated = outdatedInNode u place := by
  cases u with
  | map fields =>
    have hkeys : AllWithin isPlain place (keyIssues fields nodeKeys place .unknownField "node field") := allWithin_keyIssues rfl
    rw [outdatedInNode, ← outdated_nodeKind, ← outdated_nodeSpec]
    simp only [outdated, node_map, List.filter_append, hkeys.filter_outdated, within_nodeId.filter_outdated,
      within_display.filter_outdated, within_configMapping.filter_outdated, List.nil_append, List.append_nil]
  | _ => rfl

/-! ## Edges and lists -/

theorem outdated_edge (u : Tree) (place : Place) : (edge u place).outdated = outdatedInEdge loneOutdatedKey u place := by
  cases u with
  | map fields =>
    have hkeys : AllWithin isPlain place (keyIssues fields edgeKeys place .unknownField "edge field") := allWithin_keyIssues rfl
    rw [outdatedInEdge, ← outdated_endpoint, ← outdated_endpoint]
    simp only [outdated, edge_map, List.filter_append, hkeys.filter_outdated, within_optionalText.filter_outdated,
      allWithin_edgeDisplayIssues.filter_outdated, List.nil_append, List.append_nil]
  | _ => rfl

/-- A list tells of the outdated keys of its items, and of none where there is no list. -/
theorem outdated_requiredSequence {α : Type} {key : String} {read : List Tree → Place → Reading α}
    {inItem : Tree → Place → List Issue}
    (h : ∀ ts p, (read ts p).outdated = ts.zipIdx.flatMap fun e => inItem e.1 (p.item e.2)) :
    (requiredSequence entries key Place.root read).outdated =
      ((Tree.map entries).itemsUnder key).zipIdx.flatMap fun e => inItem e.1 ((Place.root.key key).item e.2) := by
  rw [itemsUnder, requiredSequence, requiredField]
  cases field? key entries with
  | none => rfl
  | some t =>
    cases t with
    | seq ts => exact h ts _
    | _ => rfl

theorem outdated_items {α : Type} {read : Nat → Tree → Place → Reading α} {inItem : Tree → Place → List Issue}
    (h : ∀ i u p, (read i u p).outdated = inItem u p) (ts : List Tree) (place : Place) :
    (items ts place read).outdated = ts.zipIdx.flatMap fun e => inItem e.1 (place.item e.2) := by
  rw [items, outdated_all, List.flatMap_map]
  exact List.flatMap_congr fun e _ => h _ _ _

theorem outdated_nodes (ts : List Tree) (place : Place) :
    (nodes ts place).outdated = ts.zipIdx.flatMap fun e => outdatedInNode e.1 (place.item e.2) := by
  refine outdated_items (fun i u p => ?_) ts place
  have hrepeated : (repeatedIdIssues ((ts.map idText?).take i) i u p).filter (·.code == .deprecatedField) = [] := by
    refine (allWithin_repeatedIdIssues _ i u p).filter_eq_nil (· == .deprecatedField) fun code hcode => ?_
    rw [beq_iff_eq.mp hcode]
    rfl
  rw [outdated, after, List.filter_append, hrepeated, List.nil_append]
  exact outdated_node u p

/-! ## The report -/

/-- The report tells of each outdated key of a node and of its configuration, whether or not the current key stands beside it, and of
each outdated key of the root and of an edge that stands without the current one: once each, in the order of the document. -/
theorem validate_outdated (t : Tree) (strict : Bool) :
    (validate t strict).withCode .deprecatedField = t.outdatedKeys loneOutdatedKey := by
  change (document t).outdated = _
  cases t with
  | map entries =>
    have hkeys : AllWithin isPlain Place.root (keyIssues entries documentKeys Place.root .unknownField "top-level field") :=
      allWithin_keyIssues rfl
    rw [outdatedKeys, ← outdated_endpoint, ← entry_eq_endpoint, ← outdated_requiredSequence outdated_nodes,
      ← outdated_requiredSequence fun ts p => outdated_items (fun _ => outdated_edge) ts p]
    simp only [outdated, document_map, List.filter_append, hkeys.filter_outdated, within_requiredText.filter_outdated,
      within_optionalText.filter_outdated, within_version.filter_outdated, List.nil_append]
    rfl
  | _ => rfl

/-- A workflow with every outdated key beside the current one. -/
def spelledTwice : Tree :=
  .map [(.str "name", .str "ask"), (.str "entry", .str "begin"), (.str "entry_point", .str "ask"),
    (.str "nodes", .seq [.map [(.str "id", .str "begin"), (.str "kind", .str "start"), (.str "type", .str "end")],
      .map [(.str "id", .str "ask"), (.str "kind", .str "llm-call"),
        (.str "config", .map [(.str "prompt", .str "Why?"), (.str "prompt_template", .str "How?")])],
      .map [(.str "id", .str "finish"), (.str "kind", .str "end")]]),
    (.str "edges", .seq [.map [(.str "source", .str "begin"), (.str "from", .str "ask"), (.str "target", .str "ask"),
        (.str "to", .str "finish")],
      .map [(.str "source", .str "ask"), (.str "target", .str "finish")]])]

/-- That workflow is accepted. Five outdated keys stand in it, and the report tells of two. -/
theorem outdated_untold :
    (∃ c, check spelledTwice false = .ok c) ∧
      (spelledTwice.outdatedKeys outdatedKey).map (·.place) =
        [[.key "entry_point"], [.key "nodes", .index 0, .key "type"],
          [.key "nodes", .index 1, .key "config", .key "prompt_template"], [.key "edges", .index 0, .key "from"],
          [.key "edges", .index 0, .key "to"]] ∧
      ((validate spelledTwice false).withCode .deprecatedField).map (·.place) =
        [[.key "nodes", .index 0, .key "type"], [.key "nodes", .index 1, .key "config", .key "prompt_template"]] :=
  ⟨⟨_, rfl⟩, rfl, rfl⟩

end Schema

end Workflow
