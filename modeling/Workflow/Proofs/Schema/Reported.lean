import Workflow.Proofs.Schema.Accept

/-!
# What is not read is reported

Every reading of the schema that gives no value gives an error, from single fields up to the document
(`reported_document`). So a tree is refused exactly if its report holds an error (`check?_eq_none_iff`).
-/

namespace Workflow

namespace Schema

open Reading

variable {t : Tree} {place : Place} {entries config : List (Tree × Tree)} {key : String}

/-! ## Configurations -/

theorem reported_requiredText : (requiredText entries key place).Reported :=
  reported_requiredField reported_textValue

theorem reported_optionalText : (optionalText entries key place).Reported :=
  reported_optionalField reported_textValue

theorem reported_configText (kind : NodeKind) : (configText kind config key place).Reported := by
  rw [configText]
  split
  · exact reported_bad rfl _ _
  · exact reported_textValue _ _

theorem reported_configEntries (fields : List (Tree × Tree)) (place : Place) : (configEntries fields place).Reported := by
  refine (reported_all fun r hr => ?_).map _
  obtain ⟨e, -, rfl⟩ := List.mem_map.mp hr
  rw [configEntry]
  split
  · exact reported_bad rfl _ _
  · split
    · exact reported_good _
    · exact reported_bad rfl _ _

theorem reported_inputType (t : Tree) (place : Place) : (inputType t place).Reported := by
  unfold inputType
  split
  · exact reported_good _
  · split
    · exact reported_good _
    · exact reported_bad rfl _ _
  · exact reported_bad rfl _ _

theorem reported_input (place : Place) (e : Tree × Tree) : (input place e).Reported := by
  rw [input]
  split
  · exact reported_bad rfl _ _
  · exact (reported_inputType _ _).map _

theorem reported_startSpec : (startSpec config place).Reported := by
  rw [startSpec]
  split
  · exact reported_good _
  · split
    · exact reported_good _
    · refine (reported_mapping _ _).andThen fun inputs => (reported_all fun r hr => ?_).map _
      obtain ⟨e, -, rfl⟩ := List.mem_map.mp hr
      exact reported_input _ e

theorem reported_prompt : (prompt config place).Reported := by
  unfold prompt
  split
  · exact reported_textValue _ _
  · exact (reported_textValue _ _).after _
  · exact (reported_textValue _ _).after _
  · exact reported_bad rfl _ _

/-- A temperature out of range is an error. -/
theorem temperatureIssues_eq_nil_iff {x : Option Double} :
    temperatureIssues x place = [] ↔ hasError (temperatureIssues x place) = false := by
  cases x with
  | none => exact iff_of_true rfl rfl
  | some x =>
    rw [temperatureIssues]
    split <;> simp

theorem reported_llmCallSpec : (llmCallSpec config place).Reported := by
  rw [reported_iff]
  intro hno
  simp only [llmCallSpec, hasError_append, Bool.or_eq_false_iff] at hno
  obtain ⟨⟨⟨⟨⟨hp, hsys⟩, hm⟩, hx⟩, hk⟩, hout⟩ := hno
  obtain ⟨p, hp⟩ := reported_prompt.accepts_iff.mpr hp
  obtain ⟨sys, hsys⟩ := reported_optionalText.accepts_iff.mpr hsys
  obtain ⟨m, hm⟩ := reported_optionalText.accepts_iff.mpr hm
  obtain ⟨x, hx⟩ := (reported_optionalField reported_numberValue).accepts_iff.mpr hx
  obtain ⟨k, hk⟩ := reported_optionalText.accepts_iff.mpr hk
  have hjoin : (some x).join = x := by cases x <;> rfl
  rw [hx.value_eq, hjoin, ← temperatureIssues_eq_nil_iff] at hout
  exact ⟨_, llmCallSpec_yields_iff.mpr ⟨⟨p, sys, m, x, k⟩, rfl, hp, hsys, hm, hx, hout, hk⟩⟩

theorem reported_toolCallSpec : (toolCallSpec config place).Reported := by
  rw [reported_iff]
  intro hno
  simp only [toolCallSpec, hasError_append, Bool.or_eq_false_iff] at hno
  obtain ⟨⟨ht, ha⟩, hk⟩ := hno
  have hargs : (optionalField config "arguments" place fun value place =>
      (mapping value place).andThen fun entries => configEntries entries place).Reported :=
    reported_optionalField fun t p => (reported_mapping t p).andThen fun fields => reported_configEntries fields p
  obtain ⟨tool, ht⟩ := (reported_configText _).accepts_iff.mpr ht
  obtain ⟨args, ha⟩ := hargs.accepts_iff.mpr ha
  obtain ⟨k, hk⟩ := reported_optionalText.accepts_iff.mpr hk
  exact ⟨_, toolCallSpec_yields_iff.mpr ⟨tool, args, k, rfl, ht, ha, hk⟩⟩

theorem reported_branchLabels (t : Tree) (place : Place) : (branchLabels t place).Reported := by
  refine (reported_textList t place).andThen fun labels => ?_
  simp only
  split
  · exact reported_bad rfl _ _
  · split
    · exact reported_good _
    · exact reported_bad rfl _ _

theorem reported_branchSpec : (branchSpec config place).Reported := by
  rw [reported_iff]
  intro hno
  simp only [branchSpec, hasError_append, Bool.or_eq_false_iff] at hno
  obtain ⟨ho, hb⟩ := hno
  obtain ⟨on, ho⟩ := (reported_configText _).accepts_iff.mpr ho
  cases hf : Tree.field? "branches" config with
  | none => simp [hf, missingConfig, bad] at hb
  | some t =>
    rw [hf] at hb
    obtain ⟨labels, hlabels⟩ := (reported_branchLabels _ _).accepts_iff.mpr hb
    exact ⟨_, branchSpec_yields_iff.mpr ⟨⟨on, labels⟩, rfl, ho, t, hf, hlabels⟩⟩

theorem reported_transformSpec : (transformSpec config place).Reported := by
  rw [transformSpec]
  split
  · exact reported_bad rfl _ _
  · refine (reported_mapping _ _).andThen fun fields => ?_
    split
    · exact reported_bad rfl _ _
    · exact (reported_configEntries _ _).map _

theorem reported_finishSpec : (finishSpec config place).Reported :=
  (reported_optionalField reported_textList).map _

/-- A configuration that is not read is reported, whatever the kind of its node. -/
theorem reported_spec (kind : NodeKind) (config : List (Tree × Tree)) (place : Place) :
    (spec kind config place).Reported := by
  unfold spec
  refine Reported.after ?_ _
  cases kind with
  | start => exact reported_startSpec
  | llmCall => exact reported_llmCallSpec
  | toolCall => exact reported_toolCallSpec
  | conditionalBranch => exact reported_branchSpec
  | transform => exact reported_transformSpec
  | finish => exact reported_finishSpec

/-! ## Nodes and edges -/

theorem reported_nodeId : (nodeId entries place).Reported := by
  unfold nodeId
  simp only
  split
  · exact reported_bad rfl _ _
  · split
    · exact reported_bad rfl _ _
    · split
      · exact reported_bad rfl _ _
      · exact reported_good _
  · exact reported_bad rfl _ _

theorem reported_kindValue (t : Tree) (place : Place) : (kindValue t place).Reported := by
  refine (reported_textValue t place).andThen fun name => ?_
  split
  · exact reported_good _
  · exact reported_bad rfl _ _

theorem reported_nodeKind : (nodeKind entries place).Reported := by
  unfold nodeKind
  split
  · exact reported_kindValue _ _
  · exact (reported_kindValue _ _).after _
  · exact (reported_kindValue _ _).after _
  · exact reported_bad rfl _ _

theorem reported_display : (display entries place).Reported := by
  refine reported_optionalField fun t p => (reported_mapping t p).andThen fun fields => Reported.after ?_ _
  split
  · exact reported_good _
  · exact reported_bad rfl _ _

theorem reported_configMapping : (configMapping entries place).Reported :=
  (reported_optionalField reported_mapping).map _

theorem reported_node (t : Tree) (place : Place) : (node t place).Reported := by
  refine (reported_mapping t place).andThen fun entries => ?_
  rw [reported_iff]
  intro hno
  simp only [hasError_append, Bool.or_eq_false_iff] at hno
  obtain ⟨⟨⟨⟨⟨hk, hid⟩, hkind⟩, hdisplay⟩, hconfig⟩, hspec⟩ := hno
  obtain ⟨id, hid⟩ := reported_nodeId.accepts_iff.mpr hid
  obtain ⟨kind, hkind⟩ := reported_nodeKind.accepts_iff.mpr hkind
  obtain ⟨shown, hdisplay⟩ := reported_display.accepts_iff.mpr hdisplay
  obtain ⟨config, hconfig⟩ := reported_configMapping.accepts_iff.mpr hconfig
  simp only [hkind.value_eq, hconfig.value_eq] at hspec
  obtain ⟨s, hspec⟩ := (reported_spec _ _ _).accepts_iff.mpr hspec
  refine ⟨⟨id, s, shown⟩, ?_, ?_⟩
  · simp only [hid.value_eq, hkind.value_eq, hdisplay.value_eq, hconfig.value_eq, hspec.value_eq]
    rfl
  · simp only [hasError_append, Bool.or_eq_false_iff, hkind.value_eq, hconfig.value_eq]
    exact ⟨⟨⟨⟨⟨hk, hid.2⟩, hkind.2⟩, hdisplay.2⟩, hconfig.2⟩, hspec.2⟩

theorem reported_endpoint {key outdated : String} : (endpoint entries key outdated place).Reported := by
  unfold endpoint
  split
  · exact (reported_textValue _ _).after _
  · exact reported_requiredText

theorem reported_edge (t : Tree) (place : Place) : (edge t place).Reported := by
  refine (reported_mapping t place).andThen fun entries => ?_
  rw [reported_iff]
  intro hno
  simp only [hasError_append, Bool.or_eq_false_iff] at hno
  obtain ⟨⟨⟨⟨hk, hs⟩, ht⟩, hc⟩, hd⟩ := hno
  obtain ⟨source, hs⟩ := reported_endpoint.accepts_iff.mpr hs
  obtain ⟨target, ht⟩ := reported_endpoint.accepts_iff.mpr ht
  obtain ⟨condition, hc⟩ := reported_optionalText.accepts_iff.mpr hc
  refine ⟨⟨source, target, condition⟩, ?_, ?_⟩
  · simp only [hs.value_eq, ht.value_eq, hc.value_eq]
    rfl
  · simp only [hasError_append, Bool.or_eq_false_iff]
    exact ⟨⟨⟨⟨hk, hs.2⟩, ht.2⟩, hc.2⟩, hd⟩

/-! ## The document -/

theorem reported_version : (version entries).Reported := by
  refine reported_optionalField fun t p => ?_
  split
  · exact reported_good _
  · exact reported_textValue _ _

theorem reported_entry : (entry entries).Reported := by
  unfold entry
  split
  · exact (reported_textValue _ _).after _
  · exact reported_requiredText

/-- A document that is not read is reported. -/
theorem reported_document (t : Tree) : (document t).Reported := by
  unfold document
  split
  · rename_i entries
    rw [reported_iff]
    intro hno
    simp only [hasError_append, Bool.or_eq_false_iff] at hno
    obtain ⟨⟨⟨⟨⟨⟨hk, hname⟩, hdesc⟩, hversion⟩, hentry⟩, hnodes⟩, hedges⟩ := hno
    have hnodes' : (requiredSequence entries "nodes" Place.root nodes).Reported :=
      reported_requiredSequence fun ts p => reported_items fun i u q => (reported_node u q).after _
    have hedges' : (requiredSequence entries "edges" Place.root edges).Reported :=
      reported_requiredSequence fun ts p => reported_items fun i u q => reported_edge u q
    obtain ⟨name, hname⟩ := reported_requiredText.accepts_iff.mpr hname
    obtain ⟨desc, hdesc⟩ := reported_optionalText.accepts_iff.mpr hdesc
    obtain ⟨v, hversion⟩ := reported_version.accepts_iff.mpr hversion
    obtain ⟨e, hentry⟩ := reported_entry.accepts_iff.mpr hentry
    obtain ⟨ns, hnodes⟩ := hnodes'.accepts_iff.mpr hnodes
    obtain ⟨es, hedges⟩ := hedges'.accepts_iff.mpr hedges
    refine ⟨⟨name, desc, v, e, ns, es⟩, ?_, ?_⟩
    · simp only [hname.value_eq, hdesc.value_eq, hversion.value_eq, hentry.value_eq, hnodes.value_eq, hedges.value_eq]
      rfl
    · simp only [hasError_append, Bool.or_eq_false_iff]
      exact ⟨⟨⟨⟨⟨⟨hk, hname.2⟩, hdesc.2⟩, hversion.2⟩, hentry.2⟩, hnodes.2⟩, hedges.2⟩
  · exact reported_bad rfl _ _

/-- A tree is refused exactly if reading it finds an error. -/
theorem check?_eq_none_iff : check? t = none ↔ hasError (document t).issues = true := by
  have haccepts := (reported_document t).accepts_iff
  simp only [Accepts, ← check?_eq_some_iff] at haccepts
  rw [← Bool.not_eq_false, ← haccepts, Option.eq_none_iff_forall_ne_some, not_exists]

/-- A document that was read has no branching node with less than two labels, or with a label twice. -/
theorem labels_of_check? {d : Document} (h : check? t = some d) {n : Node} (hn : n ∈ d.nodes) {b : Branching}
    (hb : n.spec = .conditionalBranch b) : 2 ≤ b.branches.length ∧ b.branches.Nodup := by
  obtain ⟨entries, -, -, -, -, -, -, hnodes, -⟩ := document_yields_iff.mp (check?_eq_some_iff.mp h)
  obtain ⟨ts, -, hitems⟩ := requiredSequence_yields_iff.mp hnodes
  obtain ⟨i, u, -, hu⟩ := exists_of_mem_items hitems hn
  obtain ⟨-, hyields⟩ := after_yields_iff.mp hu
  obtain ⟨_, _, _, -, -, -, -, -, -, hspec⟩ := node_yields_iff.mp hyields
  exact labels_of_spec_yields (hb ▸ hspec)

end Schema

end Workflow
