import Workflow.Proofs.Schema.Verdict

/-!
# What a checked document is read from

A document that the schema hands out is the one that stands in the tree, item by item and text by text, and it is proper: what later
stages take for granted holds of it (`check_faithful`). Which document a tree holds is said on the tree alone, as its grammar
is; so the two sides of the theorem have nothing of the reading between them.
-/

namespace Workflow

namespace Grammar

variable {α : Type}

/-! ## What the fields of a mapping hold -/

/-- The field under a key, or the one under an outdated key if there is none under the key, is a text. -/
def HoldsText (entries : List (Tree × Tree)) (key outdated : String) (s : String) : Prop :=
  Renamed entries key outdated (· = .str s)

/-- The field under a key holds a value in a form; without a value it is missing or null. -/
def HoldsOptional (entries : List (Tree × Tree)) (key : String) (form : Tree → α → Prop) : Option α → Prop
  | none => Tree.field? key entries = none ∨ Tree.field? key entries = some .null
  | some a => ∃ t, Tree.field? key entries = some t ∧ form t a

/-- A text as a tree. -/
def IsTextOf (t : Tree) (s : String) : Prop := t = .str s

/-- A number as a tree; a whole number stands for the nearest double. -/
def IsDoubleOf (t : Tree) (x : Double) : Prop := ∃ n, t = .num n ∧ n.toDouble = x

/-- A version as a tree: a text, or a number that stands for its digits. -/
def IsVersionOf (t : Tree) (s : String) : Prop := t = .str s ∨ ∃ n, t = .num n ∧ n.text .yaml = s

/-- Texts as a tree, in order. -/
def AreTextsOf (t : Tree) (texts : List String) : Prop := t = .seq (texts.map .str)

/-- An object as a tree. Of several values under one key the last counts. -/
def IsObjectOf (t : Tree) (object : Keyed Json) : Prop :=
  ∃ entries values, t = .map entries ∧ object = Keyed.ofList values ∧
    List.Forall₂ (fun e v => e.1.text? = some v.1 ∧ e.2.toJson = .ok v.2) entries values

/-- The type of an input as a tree. -/
def IsTypeOf (t : Tree) (type : FieldType) : Prop :=
  t = .null ∧ type = .any ∨ ∃ name, t = .str name ∧ FieldType.ofText? name = some type

/-- The inputs of a start node as a tree, in order. -/
def AreInputsOf (t : Tree) (inputs : List StateField) : Prop :=
  t.isNull = true ∧ inputs = [] ∨
    ∃ entries, t = .map entries ∧ List.Forall₂ (fun e f => e.1.text? = some f.name ∧ IsTypeOf e.2 f.type) entries inputs

/-! ## What a tree holds -/

/-- The configuration that a mapping holds. Lists that need not be there are empty where they are not. -/
def IsSpecOf (config : List (Tree × Tree)) : NodeSpec → Prop
  | .start inputs =>
    Tree.field? "inputs" config = none ∧ inputs = [] ∨ Required config "inputs" (AreInputsOf · inputs)
  | .llmCall call =>
    HoldsText config "prompt" "prompt_template" call.prompt ∧ HoldsOptional config "system" IsTextOf call.system ∧
      HoldsOptional config "model" IsTextOf call.model ∧ HoldsOptional config "temperature" IsDoubleOf call.temperature ∧
      HoldsOptional config "output_key" IsTextOf call.outputKey
  | .toolCall call =>
    Required config "tool" (IsTextOf · call.tool) ∧
      (∃ o, HoldsOptional config "arguments" IsObjectOf o ∧ call.arguments = o.getD []) ∧
      HoldsOptional config "output_key" IsTextOf call.outputKey
  | .conditionalBranch b =>
    Required config "on" (IsTextOf · b.on) ∧ Required config "branches" (AreTextsOf · b.branches)
  | .transform assign => Required config "assign" (IsObjectOf · assign)
  | .finish outputs => ∃ o, HoldsOptional config "outputs" AreTextsOf o ∧ outputs = o.getD []

/-- The node that a mapping holds. A configuration that is missing or null is an empty one. -/
structure IsNodeWith (entries : List (Tree × Tree)) (n : Node) : Prop where
  id : Required entries "id" (IsTextOf · n.id)
  kind : HoldsText entries "kind" "type" n.kind.text
  spec : ∃ config, (Tree.field? "config" entries = some (.map config) ∨
    (Tree.field? "config" entries = none ∨ Tree.field? "config" entries = some .null) ∧ config = []) ∧
    IsSpecOf config n.spec
  display : HoldsOptional entries "display" (fun t v => t.toJson = .ok v) n.display

/-- A node as a tree. -/
def IsNodeOf (t : Tree) (n : Node) : Prop := ∃ entries, t = .map entries ∧ IsNodeWith entries n

/-- The edge that a mapping holds. -/
structure IsEdgeWith (entries : List (Tree × Tree)) (e : EdgeDecl) : Prop where
  source : HoldsText entries "source" "from" e.source
  target : HoldsText entries "target" "to" e.target
  condition : HoldsOptional entries "condition" IsTextOf e.condition

/-- An edge as a tree. -/
def IsEdgeOf (t : Tree) (e : EdgeDecl) : Prop := ∃ entries, t = .map entries ∧ IsEdgeWith entries e

/-- The document that a mapping holds: as many nodes and edges as there are items, each that of the item at its position. -/
structure IsDocumentWith (entries : List (Tree × Tree)) (d : Document) : Prop where
  name : Required entries "name" (IsTextOf · d.name)
  description : HoldsOptional entries "description" IsTextOf d.description
  version : HoldsOptional entries "version" IsVersionOf d.version
  entry : HoldsText entries "entry" "entry_point" d.entry
  nodes : Required entries "nodes" fun t => ∃ items, t = .seq items ∧ List.Forall₂ IsNodeOf items d.nodes
  edges : Required entries "edges" fun t => ∃ items, t = .seq items ∧ List.Forall₂ IsEdgeOf items d.edges

/-- A document as a tree. -/
def IsDocumentOf (t : Tree) (d : Document) : Prop := ∃ entries, t = .map entries ∧ IsDocumentWith entries d

end Grammar

/-! ## Proper documents -/

/-- What a configuration is relied on for: no text of it is blank, temperatures are numbers from zero to two, a branching node has
at least two outcomes, all different, and a transforming node assigns something. -/
def NodeSpec.Proper : NodeSpec → Prop
  | .start _ => True
  | .llmCall call =>
    isBlankText call.prompt = false ∧ (∀ s ∈ call.system, isBlankText s = false) ∧ (∀ s ∈ call.model, isBlankText s = false) ∧
      (∀ x ∈ call.temperature, ∃ f : Finite, x = .finite f ∧ 0 ≤ f.value ∧ f.value ≤ 2) ∧
      ∀ s ∈ call.outputKey, isBlankText s = false
  | .toolCall call => isBlankText call.tool = false ∧ ∀ s ∈ call.outputKey, isBlankText s = false
  | .conditionalBranch b =>
    isBlankText b.on = false ∧ 2 ≤ b.branches.length ∧ b.branches.Nodup ∧ ∀ s ∈ b.branches, isBlankText s = false
  | .transform assign => assign ≠ []
  | .finish outputs => ∀ s ∈ outputs, isBlankText s = false

/-- An id that a node may have. -/
def ProperId (id : String) : Prop := id ≠ "" ∧ trimBlank id = id ∧ id ∉ reservedIds

/-- What a document is relied on for. -/
structure Document.Proper (d : Document) : Prop where
  name : isBlankText d.name = false
  description : ∀ s ∈ d.description, isBlankText s = false
  entry : isBlankText d.entry = false
  distinct : (d.nodes.map (·.id)).Nodup
  id : ∀ n ∈ d.nodes, ProperId n.id
  spec : ∀ n ∈ d.nodes, n.spec.Proper
  ends : ∀ e ∈ d.edges, isBlankText e.source = false ∧ isBlankText e.target = false
  condition : ∀ e ∈ d.edges, ∀ s ∈ e.condition, isBlankText s = false

namespace Schema

open Reading Grammar

variable {t : Tree} {place : Place} {entries config : List (Tree × Tree)} {key : String}

/-! ## Texts -/

theorem of_requiredText_yields {s : String} (h : (requiredText entries key place).Yields s) :
    Required entries key (IsTextOf · s) ∧ isBlankText s = false := by
  obtain ⟨t, ht, htext⟩ := requiredField_yields_iff.mp h
  obtain ⟨rfl, hs⟩ := textValue_yields_iff.mp htext
  exact ⟨⟨_, ht, rfl⟩, hs⟩

theorem of_configText_yields {kind : NodeKind} {s : String} (h : (configText kind config key place).Yields s) :
    Required config key (IsTextOf · s) ∧ isBlankText s = false := by
  rw [configText] at h
  cases hf : Tree.field? key config with
  | none =>
    rw [hf] at h
    exact absurd h not_bad_yields
  | some t =>
    rw [hf] at h
    obtain ⟨rfl, hs⟩ := textValue_yields_iff.mp h
    exact ⟨⟨_, hf, rfl⟩, hs⟩

/-- What an optional field yields stands in it, in the form in which its reading finds it. -/
theorem of_optionalField_yields {α : Type} {read : Tree → Place → Reading α} (form : Tree → α → Prop)
    (hform : ∀ t place a, (read t place).Yields a → form t a) {o : Option α}
    (h : (optionalField entries key place read).Yields o) : HoldsOptional entries key form o := by
  rcases optionalField_yields_iff.mp h with ⟨hmissing, rfl⟩ | ⟨t, a, ht, -, ha, rfl⟩
  · exact hmissing
  · exact ⟨t, ht, hform _ _ _ ha⟩

theorem of_optionalText_yields {o : Option String} (h : (optionalText entries key place).Yields o) :
    HoldsOptional entries key IsTextOf o ∧ ∀ s ∈ o, isBlankText s = false := by
  refine ⟨of_optionalField_yields IsTextOf (fun t place s hs => (textValue_yields_iff.mp hs).1) h, ?_⟩
  rcases optionalField_yields_iff.mp h with ⟨-, rfl⟩ | ⟨t, s, -, -, hs, rfl⟩
  · simp
  · simpa using (textValue_yields_iff.mp hs).2

theorem of_endpoint_yields {outdated s : String} (h : (endpoint entries key outdated place).Yields s) :
    HoldsText entries key outdated s ∧ isBlankText s = false := by
  unfold endpoint at h
  rw [HoldsText, Renamed]
  cases hk : Tree.field? key entries <;> cases ho : Tree.field? outdated entries <;>
    simp_all [requiredText]

theorem of_prompt_yields {s : String} (h : (prompt config place).Yields s) :
    HoldsText config "prompt" "prompt_template" s ∧ isBlankText s = false := by
  rw [prompt] at h
  rw [HoldsText, Renamed]
  cases hk : Tree.field? "prompt" config <;> cases ho : Tree.field? "prompt_template" config <;>
    simp_all [missingConfig]

theorem of_entry_yields {s : String} (h : (entry entries).Yields s) :
    HoldsText entries "entry" "entry_point" s ∧ isBlankText s = false := by
  unfold entry at h
  rw [HoldsText, Renamed]
  cases hk : Tree.field? "entry" entries <;> cases ho : Tree.field? "entry_point" entries <;>
    simp_all [requiredText]

/-- A version yields a text that stands there, or the digits of a number that does. -/
theorem of_version_yields {o : Option String} (h : (version entries).Yields o) :
    HoldsOptional entries "version" IsVersionOf o := by
  refine of_optionalField_yields _ (fun t place s hs => ?_) h
  cases t with
  | num n => exact Or.inr ⟨n, rfl, (good_yields_iff.mp hs).symm⟩
  | _ => exact Or.inl (textValue_yields_iff.mp hs).1

/-! ## Objects -/

theorem of_configEntries_yields {object : Keyed Json} (h : (configEntries entries place).Yields object) :
    IsObjectOf (.map entries) object := by
  obtain ⟨values, hvalues, rfl⟩ := map_yields_iff.mp h
  rw [all_yields_iff, List.forall₂_map_left_iff] at hvalues
  refine ⟨entries, values, rfl, rfl, hvalues.imp fun e v hv => ?_⟩
  rw [configEntry] at hv
  cases hk : e.1.text? with
  | none => simp [hk] at hv
  | some k =>
    cases hj : e.2.toJson with
    | error refusal => simp [hk, hj] at hv
    | ok j =>
      simp only [hk, hj, good_yields_iff] at hv
      rw [hv]
      exact ⟨rfl, rfl⟩

/-- Putting an entry leaves some entry. -/
theorem put_ne_nil {α : Type} (key : String) (value : α) (map : Keyed α) : map.put key value ≠ [] := by
  cases map with
  | nil => exact List.cons_ne_nil _ _
  | cons e rest =>
    unfold Keyed.put
    split_ifs <;> exact List.cons_ne_nil _ _

/-- An object made of entries has some if there were any. -/
theorem ofList_ne_nil {α : Type} {entries : List (String × α)} (h : entries ≠ []) : Keyed.ofList entries ≠ [] := by
  rw [← List.dropLast_append_getLast h, Keyed.ofList, List.foldl_append]
  exact put_ne_nil _ _ _

/-! ## Configurations -/

theorem of_input_yields {e : Tree × Tree} {f : StateField} (h : (input place e).Yields f) :
    e.1.text? = some f.name ∧ IsTypeOf e.2 f.type := by
  rw [input] at h
  cases hk : e.1.text? with
  | none => simp [hk] at h
  | some name =>
    simp only [hk] at h
    obtain ⟨type, htype, rfl⟩ := map_yields_iff.mp h
    refine ⟨rfl, ?_⟩
    unfold inputType at htype
    split at htype
    · exact Or.inl ⟨‹_›, good_yields_iff.mp htype⟩
    · split at htype
      · rename_i hknown
        exact Or.inr ⟨_, ‹_›, (good_yields_iff.mp htype).symm ▸ hknown⟩
      · exact absurd htype not_bad_yields
    · exact absurd htype not_bad_yields

theorem of_startSpec_yields {s : NodeSpec} (h : (startSpec config place).Yields s) : IsSpecOf config s ∧ s.Proper := by
  rw [startSpec] at h
  cases hf : Tree.field? "inputs" config with
  | none =>
    simp only [hf, good_yields_iff] at h
    rw [h]
    exact ⟨Or.inl ⟨hf, rfl⟩, trivial⟩
  | some t =>
    simp only [hf] at h
    by_cases hn : t.isNull = true
    · rw [if_pos hn, good_yields_iff] at h
      rw [h]
      exact ⟨Or.inr ⟨t, hf, Or.inl ⟨hn, rfl⟩⟩, trivial⟩
    · rw [if_neg hn] at h
      obtain ⟨fields, hfields, hs⟩ := andThen_yields_iff.mp h
      obtain ⟨inputs, hinputs, rfl⟩ := map_yields_iff.mp hs
      rw [all_yields_iff, List.forall₂_map_left_iff] at hinputs
      exact ⟨Or.inr ⟨t, hf, Or.inr ⟨fields, mapping_yields_iff.mp hfields, hinputs.imp fun _ _ => of_input_yields⟩⟩, trivial⟩

/-- A temperature that is found in range is a number from zero to two. -/
theorem of_temperatureIssues_eq_nil {o : Option Double} (h : temperatureIssues o place = []) :
    ∀ x ∈ o, ∃ f : Finite, x = .finite f ∧ 0 ≤ f.value ∧ f.value ≤ 2 := by
  rintro x rfl
  have hin : x.within 2 = true := by
    by_contra hno
    simp [temperatureIssues, hno] at h
  cases x with
  | finite f =>
    obtain ⟨h0, h2⟩ := Double.finite_within_iff.mp hin
    exact ⟨f, rfl, h0, by exact_mod_cast h2⟩
  | _ => cases hin

theorem of_llmCallSpec_yields {s : NodeSpec} (h : (llmCallSpec config place).Yields s) : IsSpecOf config s ∧ s.Proper := by
  obtain ⟨call, rfl, hprompt, hsystem, hmodel, htemp, hrange, hkey⟩ := llmCallSpec_yields_iff.mp h
  have hp := of_prompt_yields hprompt
  have hs := of_optionalText_yields hsystem
  have hm := of_optionalText_yields hmodel
  have hk := of_optionalText_yields hkey
  have ht : HoldsOptional config "temperature" IsDoubleOf call.temperature :=
    of_optionalField_yields IsDoubleOf (fun t place x hx => numberValue_yields_iff.mp hx) htemp
  exact ⟨⟨hp.1, hs.1, hm.1, ht, hk.1⟩, hp.2, hs.2, hm.2, of_temperatureIssues_eq_nil hrange, hk.2⟩

theorem of_toolCallSpec_yields {s : NodeSpec} (h : (toolCallSpec config place).Yields s) : IsSpecOf config s ∧ s.Proper := by
  obtain ⟨tool, arguments, outputKey, rfl, htool, hargs, hkey⟩ := toolCallSpec_yields_iff.mp h
  have ht := of_configText_yields htool
  have hk := of_optionalText_yields hkey
  have ha : HoldsOptional config "arguments" IsObjectOf arguments := by
    refine of_optionalField_yields _ (fun t place object hobject => ?_) hargs
    obtain ⟨fields, hfields, hvalues⟩ := andThen_yields_iff.mp hobject
    rw [mapping_yields_iff.mp hfields]
    exact of_configEntries_yields hvalues
  exact ⟨⟨ht.1, ⟨arguments, ha, rfl⟩, hk.1⟩, ht.2, hk.2⟩

theorem of_branchSpec_yields {s : NodeSpec} (h : (branchSpec config place).Yields s) : IsSpecOf config s ∧ s.Proper := by
  obtain ⟨b, rfl, hon, t, ht, hlabels⟩ := branchSpec_yields_iff.mp h
  have ho := of_configText_yields hon
  obtain ⟨hseq, hblank, hlen, hnd⟩ := branchLabels_yields_iff.mp hlabels
  exact ⟨⟨ho.1, t, ht, hseq⟩, ho.2, hlen, hnd, hblank⟩

theorem of_transformSpec_yields {s : NodeSpec} (h : (transformSpec config place).Yields s) : IsSpecOf config s ∧ s.Proper := by
  rw [transformSpec] at h
  cases hf : Tree.field? "assign" config with
  | none =>
    rw [hf] at h
    exact absurd h not_bad_yields
  | some t =>
    simp only [hf] at h
    obtain ⟨fields, hfields, hs⟩ := andThen_yields_iff.mp h
    rw [mapping_yields_iff] at hfields
    subst hfields
    split at hs
    · exact absurd hs not_bad_yields
    · rename_i hsome
      obtain ⟨assign, hassign, rfl⟩ := map_yields_iff.mp hs
      have hobject := of_configEntries_yields hassign
      refine ⟨⟨_, hf, hobject⟩, ?_⟩
      -- as many values are put as there are fields, so at least one
      obtain ⟨fields', values, heq, rfl, hvalues⟩ := hobject
      cases heq
      refine ofList_ne_nil fun hnil => hsome ?_
      rw [hnil, List.forall₂_nil_right_iff] at hvalues
      rw [hvalues]
      rfl

theorem of_finishSpec_yields {s : NodeSpec} (h : (finishSpec config place).Yields s) : IsSpecOf config s ∧ s.Proper := by
  obtain ⟨o, ho, rfl⟩ := map_yields_iff.mp h
  refine ⟨⟨o, of_optionalField_yields AreTextsOf (fun t place texts htexts => (textList_yields_iff.mp htexts).1) ho, rfl⟩, ?_⟩
  rcases optionalField_yields_iff.mp ho with ⟨-, rfl⟩ | ⟨t, texts, -, -, htexts, rfl⟩
  · simp [NodeSpec.Proper]
  · exact (textList_yields_iff.mp htexts).2

/-- The configuration that is read under a kind stands in the mapping, and it is proper. -/
theorem of_spec_yields {kind : NodeKind} {s : NodeSpec} (h : (spec kind config place).Yields s) :
    IsSpecOf config s ∧ s.Proper := by
  unfold spec at h
  obtain ⟨-, h⟩ := after_yields_iff.mp h
  cases kind with
  | start => exact of_startSpec_yields h
  | llmCall => exact of_llmCallSpec_yields h
  | toolCall => exact of_toolCallSpec_yields h
  | conditionalBranch => exact of_branchSpec_yields h
  | transform => exact of_transformSpec_yields h
  | finish => exact of_finishSpec_yields h

/-! ## Nodes and edges -/

/-- A text that passes as an id is a proper one. -/
theorem properId_of_isId {id : String} (h : IsId (.str id)) : ProperId id := by
  obtain ⟨hshape, hreserved⟩ := isId_str_iff.mp h
  obtain ⟨-, htrim⟩ := Bool.or_eq_false_iff.mp hshape
  obtain ⟨id', heq, hne, -⟩ := h
  cases heq
  exact ⟨hne, by simpa using htrim, hreserved⟩

/-- The node that is read from an item stands in it, under the id text of the item, and its id and its configuration are
proper. -/
theorem of_node_yields {n : Node} (h : (node t place).Yields n) :
    IsNodeOf t n ∧ HasIdText t n.id ∧ ProperId n.id ∧ n.spec.Proper := by
  obtain ⟨entries, kind, config, rfl, -, hid, hkind, hdisplay, hconfig, hspec⟩ := node_yields_iff.mp h
  obtain ⟨hf, hproper⟩ := nodeId_yields_iff.mp hid
  obtain ⟨hstands, hsound⟩ := of_spec_yields hspec
  have hshown : HoldsOptional entries "display" (fun t v => t.toJson = .ok v) n.display := by
    refine of_optionalField_yields _ (fun t place v hv => ?_) hdisplay
    obtain ⟨fields, -, hv⟩ := andThen_yields_iff.mp hv
    obtain ⟨-, hv⟩ := after_yields_iff.mp hv
    cases hj : t.toJson with
    | error refusal => simp [hj] at hv
    | ok v' =>
      simp only [hj, good_yields_iff] at hv
      rw [hv]
  refine ⟨⟨entries, rfl, ⟨_, hf, rfl⟩, ?_, ⟨config, configMapping_yields_iff.mp hconfig, hstands⟩, hshown⟩,
    ⟨_, hf, rfl⟩, properId_of_isId hproper, hsound⟩
  rw [Node.kind, kind_of_spec_yields hspec]
  exact nodeKind_yields_iff.mp hkind

theorem of_edge_yields {e : EdgeDecl} (h : (edge t place).Yields e) :
    IsEdgeOf t e ∧ (isBlankText e.source = false ∧ isBlankText e.target = false) ∧ ∀ s ∈ e.condition, isBlankText s = false := by
  obtain ⟨entries, rfl, -, hsource, htarget, hcondition, -⟩ := edge_yields_iff.mp h
  have hs := of_endpoint_yields hsource
  have ht := of_endpoint_yields htarget
  have hc := of_optionalText_yields hcondition
  exact ⟨⟨entries, rfl, hs.1, ht.1, hc.1⟩, ⟨hs.2, ht.2⟩, hc.2⟩

/-- The nodes of a node list, each with what holds of it at its item. -/
theorem of_nodes_yields {items : List Tree} {ns : List Node} (h : (nodes items place).Yields ns) :
    List.Forall₂ (fun t n => IsNodeOf t n ∧ HasIdText t n.id ∧ ProperId n.id ∧ n.spec.Proper) items ns := by
  rw [nodes, items_yields_iff] at h
  exact forall₂_zipIdx_iff.mp (h.imp fun x n hn => of_node_yields (after_yields_iff.mp hn).2)

theorem of_edges_yields {items : List Tree} {es : List EdgeDecl} (h : (edges items place).Yields es) :
    List.Forall₂ (fun t e => IsEdgeOf t e ∧ (isBlankText e.source = false ∧ isBlankText e.target = false) ∧
      ∀ s ∈ e.condition, isBlankText s = false) items es := by
  rw [edges, items_yields_iff] at h
  exact forall₂_zipIdx_iff.mp (h.imp fun x e he => of_edge_yields he)

/-- What two lists have in common item by item, the items of the second have each. -/
theorem forall_mem_of_forall₂ {α β : Type} {P : β → Prop} {as : List α} {bs : List β}
    (h : List.Forall₂ (fun _ b => P b) as bs) : ∀ b ∈ bs, P b := by
  induction h with
  | nil => simp
  | cons hb _ ih => exact List.forall_mem_cons.mpr ⟨hb, ih⟩

/-- Items no two of which have one id text give nodes no two of which have one id. -/
theorem nodup_ids {items : List Tree} {ns : List Node} (h : List.Forall₂ (fun t n => HasIdText t n.id) items ns)
    (hpair : items.Pairwise fun earlier item => ∀ id, HasIdText item id → ¬HasIdText earlier id) :
    (ns.map (·.id)).Nodup := by
  induction h with
  | nil => exact List.nodup_nil
  | cons hhead hrest ih =>
    rename_i t n items ns
    obtain ⟨hfirst, hpair⟩ := List.pairwise_cons.mp hpair
    refine List.nodup_cons.mpr ⟨fun hmem => ?_, ih hpair⟩
    obtain ⟨n', hn', heq⟩ := List.mem_map.mp hmem
    obtain ⟨i, hi, rfl⟩ := List.mem_iff_getElem.mp hn'
    obtain ⟨hlen, hget⟩ := List.forall₂_iff_get.mp hrest
    have hid := hget i (by omega) hi
    exact hfirst _ (List.get_mem _ _) _ hid (heq ▸ hhead)

/-- The document that is read stands in the tree, and it is proper. -/
theorem of_document_yields {d : Document} (h : (document t).Yields d) : IsDocumentOf t d ∧ d.Proper := by
  obtain ⟨entries, rfl, -, hname, hdesc, hversion, hentry, hns, hes⟩ := document_yields_iff.mp h
  have hn := of_requiredText_yields hname
  have hd := of_optionalText_yields hdesc
  have he := of_entry_yields hentry
  obtain ⟨items, hitems, hnodes⟩ := requiredSequence_yields_iff.mp hns
  obtain ⟨links, hlinks, hedges⟩ := requiredSequence_yields_iff.mp hes
  have hnode := of_nodes_yields hnodes
  have hedge := of_edges_yields hedges
  have hpair := (nodes_accepts_iff.mp ⟨_, hnodes⟩).2
  refine ⟨⟨entries, rfl, ?_⟩, ?_⟩
  · exact
      { name := hn.1
        description := hd.1
        version := of_version_yields hversion
        entry := he.1
        nodes := ⟨_, hitems, items, rfl, hnode.imp fun _ _ h => h.1⟩
        edges := ⟨_, hlinks, links, rfl, hedge.imp fun _ _ h => h.1⟩ }
  · exact
      { name := hn.2
        description := hd.2
        entry := he.2
        distinct := nodup_ids (hnode.imp fun _ _ h => h.2.1) hpair
        id := forall_mem_of_forall₂ (hnode.imp fun _ _ h => h.2.2.1)
        spec := forall_mem_of_forall₂ (hnode.imp fun _ _ h => h.2.2.2)
        ends := forall_mem_of_forall₂ (hedge.imp fun _ _ h => h.2.1)
        condition := forall_mem_of_forall₂ (hedge.imp fun _ _ h => h.2.2) }

/-! ## The theorem -/

/-- A document that the schema hands out is the one that stands in the tree: there are as many nodes and edges as items, each at its
position with the texts of its item. And it is proper: ids are distinct and usable, outcomes distinct and at least two, temperatures
in range, and no text is blank. -/
theorem check_faithful {t : Tree} {strict : Bool} {c : Checked} (h : check t strict = .ok c) :
    IsDocumentOf t c.document ∧ c.document.Proper := by
  obtain ⟨d, hd, rfl⟩ := check_eq_ok_iff.mp h
  exact of_document_yields (check?_eq_some_iff.mp hd)

/-- A workflow with a node of every kind. Its model is called with an outdated key for the prompt and a temperature at the end of the
range; the ids begin with or hold characters that only just pass. -/
def everyKind : Tree :=
  .map [(.str "name", .str "triage"), (.str "version", .num (.int 2)), (.str "entry", .str "in"),
    (.str "nodes", .seq [
      .map [(.str "id", .str "in"), (.str "kind", .str "start"),
        (.str "config", .map [(.str "inputs", .map [(.str "ticket", .str "str"), (.str "notes", .null)])])],
      .map [(.str "id", .str "read it"), (.str "type", .str "llm-call"),
        (.str "config", .map [(.str "prompt_template", .str " Read! "), (.str "temperature", .num (.int 2)),
          (.str "model", .null), (.str "output_key", .str "mood")])],
      .map [(.str "id", .str "route"), (.str "kind", .str "conditional-branch"),
        (.str "config", .map [(.str "on", .str "mood"), (.str "branches", .seq [.str "calm", .str "angry"])])],
      .map [(.str "id", .str "escalate"), (.str "kind", .str "tool-call"),
        (.str "config", .map [(.str "tool", .str "page"), (.str "arguments", .map [(.str "who", .seq [.bool true])])])],
      .map [(.str "id", .str "__close__"), (.str "kind", .str "transform"),
        (.str "config", .map [(.str "assign", .map [(.str "done", .bool true)])])],
      .map [(.str "id", .str "out"), (.str "kind", .str "end"), (.str "config", .map [(.str "outputs", .seq [.str "mood"])])]]),
    (.str "edges", .seq [
      .map [(.str "from", .str "in"), (.str "target", .str "read it")],
      .map [(.str "source", .str "route"), (.str "to", .str "out"), (.str "condition", .str "calm")]])]

/-- The theorem at that workflow. -/
theorem check_faithful_everyKind : ∃ c, check everyKind true = .ok c ∧
    c.document.nodes.length = 6 ∧ c.document.edges.length = 2 ∧ IsDocumentOf everyKind c.document ∧ c.document.Proper := by
  have hsome : ((check? everyKind).map fun d => (d.nodes.length, d.edges.length)) = some (6, 2) := by decide
  obtain ⟨d, hd, hsizes⟩ := Option.map_eq_some_iff.mp hsome
  have hc : check everyKind true = .ok ⟨d, validate everyKind true⟩ := check_eq_ok_iff.mpr ⟨d, hd, rfl⟩
  exact ⟨_, hc, congrArg Prod.fst hsizes, congrArg Prod.snd hsizes, check_faithful hc⟩

end Schema

end Workflow
