import Workflow.Proofs.Schema.Faithful
import Workflow.Proofs.Schema.Local
import Workflow.Proofs.Schema.Parts

/-!
# The keys of a clean document

In a document of which the schema has nothing to say, every key has the text of one that is known at its level (`validate_keys`).
The text of a key is seen through a tag, and the field under a key is not: a tagged key may have the text of a known one, and then
its field is not read, nor is anything said of it (`masked_keys_untold`). Only the drawing data of a node has no such key.
-/

namespace Workflow

namespace Tree

/-- Every key of a mapping is one of the allowed ones. -/
def KnownKeys (allowed : List String) (entries : List (Tree × Tree)) : Prop :=
  ∀ e ∈ entries, ∃ key ∈ allowed, e.1 = .str key

/-- Every key of a mapping has the text of one of the allowed ones, tagged or not. -/
def NamedKeys (allowed : List String) (entries : List (Tree × Tree)) : Prop :=
  ∀ e ∈ entries, ∃ key ∈ allowed, e.1.text? = some key

theorem KnownKeys.named {allowed : List String} {entries : List (Tree × Tree)} (h : KnownKeys allowed entries) :
    NamedKeys allowed entries := by
  intro e he
  obtain ⟨key, hkey, hstr⟩ := h e he
  exact ⟨key, hkey, by rw [hstr]; rfl⟩

/-- A tagged key is none of the allowed ones. -/
theorem not_knownKeys_of_tagged {allowed : List String} {entries : List (Tree × Tree)} {tag : String} {key value : Tree}
    (h : (.tagged tag key, value) ∈ entries) : ¬KnownKeys allowed entries := by
  intro hknown
  obtain ⟨_, -, hstr⟩ := hknown _ h
  cases hstr

/-- A key inside a configuration value that has a text is that text, with no tag before it. -/
theorem eq_str_of_keyText? {k : Tree} {key : String} (h : k.text? = some key) (htext : k.keyText? ≠ none) : k = .str key := by
  cases k with
  | str s =>
    rw [← Option.some.inj h]
  | tagged tag value => exact absurd rfl htext
  | _ => cases h

/-- In a mapping that has a form as a configuration value no key is tagged. -/
theorem NamedKeys.known {allowed : List String} {entries : List (Tree × Tree)} (h : NamedKeys allowed entries) {v : Json}
    (hv : (map entries).toJson = .ok v) : KnownKeys allowed entries := by
  obtain ⟨values, -, hvalues⟩ := toJson_map hv
  have htexts : ∀ e ∈ entries, e.1.keyText? ≠ none :=
    Schema.forall_mem_of_forall₂ (hvalues.imp fun _ _ hkey => Option.ne_none_iff_exists'.mpr ⟨_, hkey.1⟩).flip
  intro e he
  obtain ⟨key, hkey, htext⟩ := h e he
  exact ⟨key, hkey, eq_str_of_keyText? htext (htexts e he)⟩

end Tree

namespace Schema

open Reading Workflow.Tree

variable {t u : Tree} {place : Place} {entries fields : List (Tree × Tree)}

/-- The keys of a document obey a rule at each of its levels. The rule is told which keys are allowed there. -/
structure KeysAtEveryLevel (rule : List String → List (Tree × Tree) → Prop) (t : Tree) : Prop where
  root : ∃ entries, t = .map entries ∧ rule documentKeys entries
  nodes : ∀ u ∈ t.itemsUnder "nodes", ∃ fields, u = .map fields ∧ rule nodeKeys fields
  configs : ∀ fields, .map fields ∈ t.itemsUnder "nodes" → ∃ kind : NodeKind,
    (field? "kind" fields).or (field? "type" fields) = some (.str kind.text) ∧ rule kind.configKeys (configFields fields)
  nodeDisplays : ∀ fields shown, .map fields ∈ t.itemsUnder "nodes" → field? "display" fields = some (.map shown) →
    rule displayKeys shown
  edges : ∀ u ∈ t.itemsUnder "edges", ∃ fields, u = .map fields ∧ rule edgeKeys fields
  edgeDisplays : ∀ fields shown, .map fields ∈ t.itemsUnder "edges" → field? "display" fields = some (.map shown) →
    rule displayKeys shown

/-! ## Mappings without an issue -/

/-- Nothing is said of the keys of a mapping exactly if each has the text of an allowed one. -/
theorem keyIssues_eq_nil_iff {allowed : List String} {code : IssueCode} {what : String} :
    keyIssues entries allowed place code what = [] ↔ NamedKeys allowed entries := by
  rw [keyIssues, List.flatMap_eq_nil_iff, NamedKeys]
  refine forall₂_congr fun e _ => ?_
  rw [keyIssue]
  cases e.1.text? with
  | none => simp
  | some k => simp [eq_comm]

/-- A value without an issue is a mapping. -/
theorem exists_map_of_mapping {α : Type} {next : List (Tree × Tree) → Reading α}
    (h : ((mapping u place).andThen next).issues = []) : ∃ fields, u = .map fields := by
  cases u with
  | map fields => exact ⟨fields, rfl⟩
  | _ => cases h

/-- The keys of the drawing data of a node without an issue are known, for that data has a form as a configuration value. -/
theorem knownKeys_of_display {shown : List (Tree × Tree)} (h : (display fields place).issues = [])
    (hshown : field? "display" fields = some (.map shown)) : KnownKeys displayKeys shown := by
  rw [display, optionalField, hshown] at h
  obtain ⟨-, hread⟩ := List.append_eq_nil_iff.mp h
  obtain ⟨hkeys, hvalue⟩ := List.append_eq_nil_iff.mp hread
  have hnamed := keyIssues_eq_nil_iff.mp hkeys
  split at hvalue
  · next v hv => exact hnamed.known hv
  · cases hvalue

/-- The keys of the drawing data of an edge without an issue have known texts. -/
theorem namedKeys_of_edgeDisplay {shown : List (Tree × Tree)} (h : edgeDisplayIssues fields place = [])
    (hshown : field? "display" fields = some (.map shown)) : NamedKeys displayKeys shown := by
  rw [edgeDisplayIssues, hshown] at h
  exact keyIssues_eq_nil_iff.mp h

/-- A node whose configuration is without an issue has a kind, and the keys there have texts known for that kind. -/
theorem namedKeys_of_nodeSpec (hkind : (nodeKind fields place).issues = []) (hconfig : (configMapping fields place).issues = [])
    (hspec : (nodeSpec fields place).issues = []) :
    ∃ kind : NodeKind, (field? "kind" fields).or (field? "type" fields) = some (.str kind.text) ∧
      NamedKeys kind.configKeys (configFields fields) := by
  obtain ⟨kind, hkind⟩ := reported_nodeKind.accepts_iff.mpr (by rw [hkind]; rfl)
  obtain ⟨config, hconfig⟩ := reported_configMapping.accepts_iff.mpr (by rw [hconfig]; rfl)
  have hfields : configFields fields = config := by
    rw [← getD_configMapping fields place, hconfig.value_eq]
    rfl
  rw [nodeSpec_of_value hkind.value_eq hconfig.value_eq] at hspec
  refine ⟨kind, nodeKind_value_iff.mp hkind.value_eq, hfields ▸ ?_⟩
  exact keyIssues_eq_nil_iff.mp (List.append_eq_nil_iff.mp hspec).1

/-- The keys of a node without an issue, of its configuration and of its drawing data. -/
theorem keys_of_node (h : (node u place).issues = []) :
    ∃ fields, u = .map fields ∧ NamedKeys nodeKeys fields ∧
      (∃ kind : NodeKind, (field? "kind" fields).or (field? "type" fields) = some (.str kind.text) ∧
        NamedKeys kind.configKeys (configFields fields)) ∧
      ∀ shown, field? "display" fields = some (.map shown) → KnownKeys displayKeys shown := by
  obtain ⟨fields, rfl⟩ := exists_map_of_mapping h
  simp only [node_map, List.append_eq_nil_iff] at h
  obtain ⟨⟨⟨⟨⟨hkeys, -⟩, hkind⟩, hdisplay⟩, hconfig⟩, hspec⟩ := h
  exact ⟨fields, rfl, keyIssues_eq_nil_iff.mp hkeys, namedKeys_of_nodeSpec hkind hconfig hspec,
    fun _ => knownKeys_of_display hdisplay⟩

/-- The keys of an edge without an issue, and of its drawing data. -/
theorem keys_of_edge (h : (edge u place).issues = []) :
    ∃ fields, u = .map fields ∧ NamedKeys edgeKeys fields ∧
      ∀ shown, field? "display" fields = some (.map shown) → NamedKeys displayKeys shown := by
  obtain ⟨fields, rfl⟩ := exists_map_of_mapping h
  simp only [edge_map, List.append_eq_nil_iff] at h
  obtain ⟨⟨⟨⟨hkeys, -⟩, -⟩, -⟩, hdisplay⟩ := h
  exact ⟨fields, rfl, keyIssues_eq_nil_iff.mp hkeys, fun _ => namedKeys_of_edgeDisplay hdisplay⟩

/-! ## Documents without an issue -/

/-- The root of a document without an issue is a mapping whose keys have known texts. -/
theorem keys_of_document (h : (document t).issues = []) : ∃ entries, t = .map entries ∧ NamedKeys documentKeys entries := by
  cases t with
  | map entries =>
    simp only [document_map, List.append_eq_nil_iff] at h
    obtain ⟨⟨⟨⟨⟨⟨hkeys, -⟩, -⟩, -⟩, -⟩, -⟩, -⟩ := h
    exact ⟨entries, rfl, keyIssues_eq_nil_iff.mp hkeys⟩
  | _ => cases h

/-- Where a report says nothing, nothing is found in any node. -/
theorem node_issues_of_nil {strict : Bool} (h : (validate t strict).issues = []) (hu : u ∈ t.itemsUnder "nodes") :
    ∃ place, (node u place).issues = [] := by
  obtain ⟨i, hi⟩ := List.mem_iff_getElem?.mp hu
  obtain ⟨earlier, hinside⟩ := inside_node hi strict
  rw [Report.inside, h] at hinside
  exact ⟨_, (List.append_eq_nil_iff.mp hinside.symm).2⟩

/-- Nor in any edge. -/
theorem edge_issues_of_nil {strict : Bool} (h : (validate t strict).issues = []) (hu : u ∈ t.itemsUnder "edges") :
    ∃ place, (edge u place).issues = [] := by
  obtain ⟨i, hi⟩ := List.mem_iff_getElem?.mp hu
  have hinside := inside_edge hi strict
  rw [Report.inside, h] at hinside
  exact ⟨_, hinside.symm⟩

/-- In a document of which the report says nothing every key has the text of one that is known at its level: for the root, for the
nodes and the edges, for the configuration of each node by its kind, and for drawing data. In the drawing data of nodes it is
that key, with no tag before it. -/
theorem validate_keys {t : Tree} {strict : Bool} (h : (validate t strict).issues = []) :
    KeysAtEveryLevel NamedKeys t ∧ ∀ fields shown, .map fields ∈ t.itemsUnder "nodes" →
      field? "display" fields = some (.map shown) → KnownKeys displayKeys shown := by
  have hdisplays : ∀ fields shown, .map fields ∈ t.itemsUnder "nodes" → field? "display" fields = some (.map shown) →
      KnownKeys displayKeys shown := by
    intro fields shown hmem hshown
    obtain ⟨place, hnode⟩ := node_issues_of_nil h hmem
    obtain ⟨fields', heq, -, -, hdisplay⟩ := keys_of_node hnode
    cases heq
    exact hdisplay shown hshown
  refine ⟨⟨keys_of_document h, fun u hu => ?_, fun fields hmem => ?_, fun fields shown hmem hshown => ?_, fun u hu => ?_,
    fun fields shown hmem hshown => ?_⟩, hdisplays⟩
  · obtain ⟨place, hnode⟩ := node_issues_of_nil h hu
    obtain ⟨fields, rfl, hkeys, -⟩ := keys_of_node hnode
    exact ⟨fields, rfl, hkeys⟩
  · obtain ⟨place, hnode⟩ := node_issues_of_nil h hmem
    obtain ⟨fields', heq, -, hconfig, -⟩ := keys_of_node hnode
    cases heq
    exact hconfig
  · exact (hdisplays fields shown hmem hshown).named
  · obtain ⟨place, hedge⟩ := edge_issues_of_nil h hu
    obtain ⟨fields, rfl, hkeys, -⟩ := keys_of_edge hedge
    exact ⟨fields, rfl, hkeys⟩
  · obtain ⟨place, hedge⟩ := edge_issues_of_nil h hmem
    obtain ⟨fields', heq, -, hdisplay⟩ := keys_of_edge hedge
    cases heq
    exact hdisplay shown hshown

/-- The configuration of a call, a tag before one of its keys. -/
def maskedConfig : List (Tree × Tree) := [(.tagged "old" (.str "system"), .str "Be brief."), (.str "prompt", .str "Why?")]

/-- A node with that configuration, a tag before one of its own keys. Its drawing data has none. -/
def maskedNode : List (Tree × Tree) :=
  [(.tagged "old" (.str "type"), .str "start"), (.str "id", .str "ask"), (.str "kind", .str "llm-call"),
    (.str "config", .map maskedConfig), (.str "display", .map [(.str "x", .num (.int 10))])]

/-- The drawing data of an edge, a tag before its key. -/
def maskedLabel : List (Tree × Tree) := [(.tagged "old" (.str "label"), .str "first")]

/-- An edge with that drawing data, a tag before one of its own keys. -/
def maskedEdge : List (Tree × Tree) :=
  [(.tagged "old" (.str "condition"), .str "late"), (.str "source", .str "begin"), (.str "target", .str "ask"),
    (.str "display", .map maskedLabel)]

/-- A document of these, a tag before one of the keys of its root. -/
def maskedRoot : List (Tree × Tree) :=
  [(.tagged "old" (.str "description"), .str "hidden"), (.str "name", .str "ask"), (.str "entry", .str "begin"),
    (.str "nodes", .seq [.map [(.str "id", .str "begin"), (.str "kind", .str "start")], .map maskedNode,
      .map [(.str "id", .str "finish"), (.str "kind", .str "end")]]),
    (.str "edges", .seq [.map maskedEdge, .map [(.str "source", .str "ask"), (.str "target", .str "finish")]])]

/-- All keys of that document have known texts. -/
theorem validate_keys_masked :
    (validate (.map maskedRoot) true).issues = [] ∧ KeysAtEveryLevel NamedKeys (.map maskedRoot) ∧
      KnownKeys displayKeys [(.str "x", .num (.int 10))] := by
  have hnil : (validate (.map maskedRoot) true).issues = [] := rfl
  obtain ⟨hnamed, hdisplays⟩ := validate_keys hnil
  exact ⟨hnil, hnamed, hdisplays maskedNode _ (List.mem_cons_of_mem _ List.mem_cons_self) rfl⟩

/-- Of that document nothing is said, and it is accepted without the fields under its tagged keys. -/
theorem masked_keys_untold :
    (validate (.map maskedRoot) true).issues = [] ∧
      (¬KnownKeys documentKeys maskedRoot ∧ ¬KnownKeys nodeKeys maskedNode ∧ ¬KnownKeys NodeKind.llmCall.configKeys maskedConfig ∧
        ¬KnownKeys edgeKeys maskedEdge ∧ ¬KnownKeys displayKeys maskedLabel) ∧
      ¬KeysAtEveryLevel KnownKeys (.map maskedRoot) ∧
      ∃ d, check? (.map maskedRoot) = some d ∧ d.description = none ∧ d.edges.map (·.condition) = [none, none] ∧
        d.nodes.map (·.spec) = [.start [], .llmCall ⟨"Why?", none, none, none, none⟩, .finish []] := by
  have hroot : ¬KnownKeys documentKeys maskedRoot := not_knownKeys_of_tagged List.mem_cons_self
  refine ⟨rfl, ⟨hroot, not_knownKeys_of_tagged List.mem_cons_self, not_knownKeys_of_tagged List.mem_cons_self,
    not_knownKeys_of_tagged List.mem_cons_self, not_knownKeys_of_tagged List.mem_cons_self⟩, fun h => ?_, _, rfl, rfl, rfl, rfl⟩
  obtain ⟨entries, heq, hknown⟩ := h.root
  exact hroot (Tree.map.inj heq ▸ hknown)

end Schema

end Workflow
