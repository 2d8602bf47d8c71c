import Workflow.Proofs.Schema.Verdict

/-!
# Which issues a reading finds, and where

Every issue that the reading of a value finds stands at the place of the value or inside it. Nearly all readings are plain: their
issues are about single fields. Two kinds of issues compare a field with another one, an outdated spelling with the current one and
an id with the ids before it; the first is found by the readings of the fields that have an outdated spelling, and of what these
belong to, the second by that of the node list alone.
-/

namespace Workflow

/-! ## Places and codes -/

namespace Place

/-- A place inside a place is inside the places around it. -/
theorem prefix_key (place : Place) (name : String) : place <+: place.key name := List.prefix_append _ _

theorem prefix_item (place : Place) (position : Nat) : place <+: place.item position := List.prefix_append _ _

end Place

namespace IssueCode

/-- Whether an issue with the code is about a single field: neither about an outdated spelling nor about a repeated id. -/
def isPlain (code : IssueCode) : Bool := code != .deprecatedField && code != .duplicateId

/-- Whether an issue with the code is about a part of a document by itself: not about a repeated id. -/
def isOwn (code : IssueCode) : Bool := code != .duplicateId

end IssueCode

open IssueCode (isPlain isOwn)

/-- Every issue of a list has one of some codes and stands at a place or inside it. -/
def AllWithin (codes : IssueCode → Bool) (place : Place) (issues : List Issue) : Prop :=
  ∀ i ∈ issues, codes i.code = true ∧ place <+: i.place

namespace AllWithin

variable {codes : IssueCode → Bool} {place inner : Place} {a b : List Issue}

theorem nil : AllWithin codes place [] := fun _ hi => absurd hi List.not_mem_nil

theorem singleton {i : Issue} (hcode : codes i.code = true) (hplace : place <+: i.place) : AllWithin codes place [i] :=
  List.forall_mem_singleton.mpr ⟨hcode, hplace⟩

theorem append (ha : AllWithin codes place a) (hb : AllWithin codes place b) : AllWithin codes place (a ++ b) :=
  List.forall_mem_append.mpr ⟨ha, hb⟩

/-- What stands inside a place stands inside the places around it. -/
theorem mono (h : AllWithin codes inner a) (hplace : place <+: inner) : AllWithin codes place a :=
  fun i hi => ⟨(h i hi).1, hplace.trans (h i hi).2⟩

/-- Where only other codes are looked for, no issue is left. -/
theorem filter_eq_nil (h : AllWithin codes place a) (looked : IssueCode → Bool)
    (hcodes : ∀ code, codes code = true → looked code = false) : a.filter (fun i => looked i.code) = [] := by
  refine List.filter_eq_nil_iff.mpr fun i hi hlooked => ?_
  rw [hcodes _ (h i hi).1] at hlooked
  cases hlooked

/-- Plain issues are about parts by themselves. -/
theorem own (h : AllWithin isPlain place a) : AllWithin isOwn place a := fun i hi => by
  obtain ⟨hcode, hplace⟩ := h i hi
  exact ⟨(Bool.and_eq_true _ _ ▸ hcode).2, hplace⟩

end AllWithin

namespace Reading

variable {α β : Type} {codes : IssueCode → Bool} {place inner : Place}

/-- Every issue of a reading has one of some codes and stands at a place or inside it. -/
def Within (codes : IssueCode → Bool) (place : Place) (r : Reading α) : Prop := AllWithin codes place r.issues

/-! ## Readings put together -/

theorem within_good (a : α) : (good a).Within codes place := AllWithin.nil

theorem within_bad {code : IssueCode} (h : codes code = true) (place : Place) (message : String) :
    (bad code place message : Reading α).Within codes place := AllWithin.singleton h (List.prefix_refl _)

theorem Within.mono {r : Reading α} (h : r.Within codes inner) (hplace : place <+: inner) : r.Within codes place :=
  AllWithin.mono h hplace

theorem Within.own {r : Reading α} (h : r.Within isPlain place) : r.Within isOwn place := AllWithin.own h

theorem Within.map {r : Reading α} (h : r.Within codes place) (f : α → β) : (r.map f).Within codes place := h

theorem Within.after {r : Reading α} (h : r.Within codes place) {found : List Issue} (hfound : AllWithin codes place found) :
    (r.after found).Within codes place := hfound.append h

theorem Within.andThen {r : Reading α} (h : r.Within codes place) {next : α → Reading β}
    (hnext : ∀ a, (next a).Within codes place) : (r.andThen next).Within codes place := by
  rw [Reading.andThen]
  cases r.value with
  | none => exact h
  | some a => exact (hnext a).after h

theorem within_all {rs : List (Reading α)} (h : ∀ r ∈ rs, r.Within codes place) : (all rs).Within codes place := by
  unfold Within
  rw [issues_all]
  exact List.forall_mem_flatMap.mpr h

end Reading

namespace Schema

open Reading

variable {α : Type} {codes : IssueCode → Bool} {t : Tree} {place : Place} {entries config : List (Tree × Tree)} {key : String}

/-! ## Values and fields -/

theorem within_mapping (t : Tree) (place : Place) : (mapping t place).Within isPlain place := by
  unfold mapping
  split
  · exact within_good _
  · exact within_bad rfl _ _

theorem within_textValue (t : Tree) (place : Place) : (textValue t place).Within isPlain place := by
  unfold textValue
  split
  · split
    · exact within_bad rfl _ _
    · exact within_good _
  · exact within_bad rfl _ _

theorem within_numberValue (t : Tree) (place : Place) : (numberValue t place).Within isPlain place := by
  unfold numberValue
  split
  · exact within_good _
  · exact within_bad rfl _ _

theorem within_requiredField {read : Tree → Place → Reading α} (hmissing : codes .missingField = true)
    (h : ∀ t p, (read t p).Within codes p) : (requiredField entries key place read).Within codes (place.key key) := by
  rw [requiredField]
  split
  · exact within_bad hmissing _ _
  · exact h _ _

theorem within_optionalField {read : Tree → Place → Reading α} (h : ∀ t p, (read t p).Within codes p) :
    (optionalField entries key place read).Within codes (place.key key) := by
  rw [optionalField]
  split
  · exact within_good _
  · exact within_good _
  · exact (h _ _).map some

theorem within_requiredText : (requiredText entries key place).Within isPlain (place.key key) :=
  within_requiredField rfl within_textValue

theorem within_optionalText : (optionalText entries key place).Within isPlain (place.key key) :=
  within_optionalField within_textValue

theorem within_items {ts : List Tree} {read : Nat → Tree → Place → Reading α} (h : ∀ i t p, (read i t p).Within codes p) :
    (items ts place read).Within codes place := by
  refine within_all fun r hr => ?_
  obtain ⟨x, -, rfl⟩ := List.mem_map.mp hr
  exact (h _ _ _).mono (place.prefix_item _)

theorem within_requiredSequence {read : List Tree → Place → Reading α} (hmissing : codes .missingField = true)
    (htype : codes .invalidType = true) (h : ∀ ts p, (read ts p).Within codes p) :
    (requiredSequence entries key place read).Within codes (place.key key) := by
  refine within_requiredField hmissing fun t p => ?_
  split
  · exact h _ _
  · exact within_bad htype _ _

theorem within_textList (t : Tree) (place : Place) : (textList t place).Within isPlain place := by
  unfold textList
  split
  · exact within_items fun _ => within_textValue
  · exact within_bad rfl _ _

/-- The issues of keys are plain if the code for unknown keys is. -/
theorem allWithin_keyIssues {allowed : List String} {code : IssueCode} {what : String} (h : code.isPlain = true) :
    AllWithin isPlain place (keyIssues entries allowed place code what) := by
  refine List.forall_mem_flatMap.mpr fun e _ => ?_
  rw [keyIssue]
  split
  · split
    · exact AllWithin.nil
    · exact AllWithin.singleton h (place.prefix_key _)
  · exact AllWithin.singleton rfl (List.prefix_refl _)

/-! ## Configurations -/

theorem within_configEntries (fields : List (Tree × Tree)) (place : Place) :
    (configEntries fields place).Within isPlain place := by
  refine (within_all fun r hr => ?_).map _
  obtain ⟨e, -, rfl⟩ := List.mem_map.mp hr
  rw [configEntry]
  split
  · exact within_bad rfl _ _
  · split
    · exact within_good _
    · exact (within_bad rfl _ _).mono (place.prefix_key _)

theorem within_missingConfig (kind : NodeKind) (key : String) (place : Place) :
    (missingConfig kind key place : Reading α).Within isPlain place := (within_bad rfl _ _).mono (place.prefix_key _)

theorem within_configText (kind : NodeKind) : (configText kind config key place).Within isPlain place := by
  rw [configText]
  split
  · exact within_missingConfig _ _ _
  · exact (within_textValue _ _).mono (place.prefix_key _)

theorem within_inputType (t : Tree) (place : Place) : (inputType t place).Within isPlain place := by
  unfold inputType
  split
  · exact within_good _
  · split
    · exact within_good _
    · exact within_bad rfl _ _
  · exact within_bad rfl _ _

theorem within_input (place : Place) (e : Tree × Tree) : (input place e).Within isPlain place := by
  rw [input]
  split
  · exact within_bad rfl _ _
  · exact ((within_inputType _ _).mono (place.prefix_key _)).map _

theorem within_startSpec : (startSpec config place).Within isPlain place := by
  rw [startSpec]
  split
  · exact within_good _
  · split
    · exact within_good _
    · refine Within.mono ((within_mapping _ _).andThen fun inputs => (within_all fun r hr => ?_).map _) (place.prefix_key _)
      obtain ⟨e, -, rfl⟩ := List.mem_map.mp hr
      exact within_input _ e

theorem allWithin_temperatureIssues (x : Option Double) : AllWithin isPlain place (temperatureIssues x place) := by
  unfold temperatureIssues
  split
  · exact AllWithin.nil
  · split
    · exact AllWithin.nil
    · exact AllWithin.singleton rfl (place.prefix_key _)

theorem within_toolCallSpec : (toolCallSpec config place).Within isPlain place := by
  have harguments : (optionalField config "arguments" place fun value place =>
      (mapping value place).andThen fun entries => configEntries entries place).Within isPlain (place.key "arguments") :=
    within_optionalField fun t p => (within_mapping t p).andThen fun fields => within_configEntries fields p
  exact ((within_configText _).append (harguments.mono (place.prefix_key _))).append
    (within_optionalText.mono (place.prefix_key _))

theorem within_branchLabels (t : Tree) (place : Place) : (branchLabels t place).Within isPlain place := by
  refine (within_textList t place).andThen fun labels => ?_
  simp only
  split
  · exact within_bad rfl _ _
  · split
    · exact within_good _
    · exact within_bad rfl _ _

theorem within_branchSpec : (branchSpec config place).Within isPlain place := by
  refine (within_configText _).append ?_
  split
  · exact within_missingConfig _ _ _
  · exact (within_branchLabels _ _).mono (place.prefix_key _)

theorem within_transformSpec : (transformSpec config place).Within isPlain place := by
  rw [transformSpec]
  split
  · exact within_missingConfig _ _ _
  · refine Within.mono ((within_mapping _ _).andThen fun fields => ?_) (place.prefix_key _)
    split
    · exact within_bad rfl _ _
    · exact (within_configEntries _ _).map _

theorem within_finishSpec : (finishSpec config place).Within isPlain place :=
  ((within_optionalField within_textList).mono (place.prefix_key _)).map _

/-- The configuration of a node that calls no language model has no outdated spelling. -/
theorem plain_spec {kind : NodeKind} (h : kind ≠ .llmCall) : (spec kind config place).Within isPlain place := by
  unfold spec
  refine Within.after ?_ (allWithin_keyIssues rfl)
  cases kind with
  | start => exact within_startSpec
  | llmCall => exact absurd rfl h
  | toolCall => exact within_toolCallSpec
  | conditionalBranch => exact within_branchSpec
  | transform => exact within_transformSpec
  | finish => exact within_finishSpec

/-- A prompt is told of at either of its keys. -/
theorem within_prompt : (prompt config place).Within isOwn place := by
  have htext : ∀ key t, (textValue t (place.key key)).Within isOwn place := fun key t =>
    (within_textValue _ _).own.mono (place.prefix_key key)
  unfold prompt
  split
  · exact htext _ _
  · exact (htext _ _).after (AllWithin.singleton rfl (place.prefix_key _))
  · exact (htext _ _).after (AllWithin.singleton rfl (place.prefix_key _))
  · exact (within_missingConfig _ _ _).own

/-- Of a call all fields but the prompt are plain. -/
theorem allWithin_callFields (config : List (Tree × Tree)) (place : Place) :
    AllWithin isPlain place ((optionalText config "system" place).issues ++ (optionalText config "model" place).issues ++
      (optionalField config "temperature" place numberValue).issues ++ (optionalText config "output_key" place).issues ++
      temperatureIssues (optionalField config "temperature" place numberValue).value.join place) := by
  have htext : ∀ key, AllWithin isPlain place (optionalText config key place).issues := fun key =>
    within_optionalText.mono (place.prefix_key key)
  have htemperature : AllWithin isPlain place (optionalField config "temperature" place numberValue).issues :=
    (within_optionalField within_numberValue).mono (place.prefix_key _)
  exact ((((htext _).append (htext _)).append htemperature).append (htext _)).append (allWithin_temperatureIssues _)

theorem within_llmCallSpec : (llmCallSpec config place).Within isOwn place := by
  have hfields : AllWithin isOwn place ((prompt config place).issues ++ _) :=
    within_prompt.append (allWithin_callFields config place).own
  simp only [← List.append_assoc] at hfields
  exact hfields

theorem within_spec (kind : NodeKind) (config : List (Tree × Tree)) (place : Place) :
    (spec kind config place).Within isOwn place := by
  by_cases hkind : kind = .llmCall
  · rw [hkind]
    exact within_llmCallSpec.after (allWithin_keyIssues rfl).own
  · exact (plain_spec hkind).own

/-! ## Nodes -/

theorem within_nodeId : (nodeId entries place).Within isPlain (place.key "id") := by
  unfold nodeId
  simp only
  split
  · exact within_bad rfl _ _
  · split
    · exact within_bad rfl _ _
    · split
      · exact within_bad rfl _ _
      · exact within_good _
  · exact within_bad rfl _ _

theorem within_kindValue (t : Tree) (place : Place) : (kindValue t place).Within isPlain place := by
  refine (within_textValue t place).andThen fun name => ?_
  split
  · exact within_good _
  · exact within_bad rfl _ _

/-- A kind is told of at either of its keys. -/
theorem within_nodeKind : (nodeKind entries place).Within isOwn place := by
  have hkind : ∀ key t, (kindValue t (place.key key)).Within isOwn place := fun key t =>
    (within_kindValue _ _).own.mono (place.prefix_key key)
  unfold nodeKind
  split
  · exact hkind _ _
  · exact (hkind _ _).after (AllWithin.singleton rfl (place.prefix_key _))
  · exact (hkind _ _).after (AllWithin.singleton rfl (place.prefix_key _))
  · exact (within_bad rfl _ _).mono (place.prefix_key _)

theorem within_display : (display entries place).Within isPlain (place.key "display") := by
  refine within_optionalField fun t p => (within_mapping t p).andThen fun fields =>
    Within.after ?_ (allWithin_keyIssues rfl)
  split
  · exact within_good _
  · exact within_bad rfl _ _

theorem within_configMapping : (configMapping entries place).Within isPlain (place.key "config") :=
  (within_optionalField within_mapping).map _

theorem within_nodeSpec : (nodeSpec entries place).Within isOwn place := by
  rw [nodeSpec]
  cases (nodeKind entries place).value with
  | none => exact AllWithin.nil
  | some kind =>
    cases (configMapping entries place).value with
    | none => exact AllWithin.nil
    | some config => exact (within_spec kind config _).mono (place.prefix_key _)

theorem within_node (u : Tree) (place : Place) : (node u place).Within isOwn place := by
  cases u with
  | map fields =>
    rw [node_map]
    exact (((((allWithin_keyIssues rfl).own.append (within_nodeId.own.mono (place.prefix_key _))).append
      within_nodeKind).append (within_display.own.mono (place.prefix_key _))).append
      (within_configMapping.own.mono (place.prefix_key _))).append within_nodeSpec
  | _ => exact within_bad rfl _ _

/-- An id that is found repeated is told of at the node, by the code for it. -/
theorem allWithin_repeatedIdIssues (earlier : List (Option String)) (position : Nat) (item : Tree) (place : Place) :
    AllWithin (· == .duplicateId) place (repeatedIdIssues earlier position item place) := by
  rw [repeatedIdIssues]
  split
  · exact AllWithin.nil
  · split
    · exact AllWithin.nil
    · exact AllWithin.singleton rfl (place.prefix_key _)

/-! ## Edges and lists -/

/-- An end of an edge is told of at either of its keys, and so is the entry. -/
theorem within_endpoint {outdated : String} {i : Issue} (h : i ∈ (endpoint entries key outdated place).issues) :
    i.code.isOwn = true ∧ ∃ name ∈ [key, outdated], place.key name <+: i.place := by
  unfold endpoint at h
  split at h
  · obtain ⟨hcode, hplace⟩ := ((within_textValue _ _).own.after (AllWithin.singleton rfl (List.prefix_refl _))) i h
    exact ⟨hcode, outdated, by simp, hplace⟩
  · obtain ⟨hcode, hplace⟩ := within_requiredText.own i h
    exact ⟨hcode, key, by simp, hplace⟩

theorem allWithin_edgeDisplayIssues : AllWithin isPlain (place.key "display") (edgeDisplayIssues entries place) := by
  rw [edgeDisplayIssues]
  split
  · exact AllWithin.nil
  · split
    · exact AllWithin.nil
    · exact (within_mapping _ _).append (allWithin_keyIssues rfl)

theorem within_edge (u : Tree) (place : Place) : (edge u place).Within isOwn place := by
  cases u with
  | map fields =>
    have hend : ∀ key outdated, (endpoint fields key outdated place).Within isOwn place := fun key outdated i hi => by
      obtain ⟨hcode, name, -, hname⟩ := within_endpoint hi
      exact ⟨hcode, (place.prefix_key name).trans hname⟩
    rw [edge_map]
    exact ((((allWithin_keyIssues rfl).own.append (hend _ _)).append (hend _ _)).append
      (within_optionalText.own.mono (place.prefix_key _))).append (allWithin_edgeDisplayIssues.own.mono (place.prefix_key _))
  | _ => exact within_bad rfl _ _

/-- An item of the node list is told of at the item, by whatever code. -/
theorem within_nodeItem (earlier : List (Option String)) (position : Nat) (u : Tree) (place : Place) :
    ((node u place).after (repeatedIdIssues earlier position u place)).Within (fun _ => true) place :=
  Within.after (fun i hi => ⟨rfl, (within_node u place i hi).2⟩) fun i hi =>
    ⟨rfl, (allWithin_repeatedIdIssues earlier position u place i hi).2⟩

theorem within_nodes (ts : List Tree) (place : Place) : (nodes ts place).Within (fun _ => true) place :=
  within_items fun _ u p => within_nodeItem _ _ u p

theorem within_edges (ts : List Tree) (place : Place) : (edges ts place).Within isOwn place :=
  within_items fun _ => within_edge

theorem within_version : (version entries).Within isPlain (Place.root.key "version") := by
  refine within_optionalField fun t p => ?_
  split
  · exact within_good _
  · exact within_textValue _ _

end Schema

end Workflow
