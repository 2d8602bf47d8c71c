import Workflow.Proofs.Schema.Reported

/-!
# The verdict of the schema

A tree is read as a document exactly if its report holds no error, and the report is the same in either case
(`check_ok_iff_no_error`). Nothing is given up in silence: a part of a document that cannot be read has an error of its own, and
that error is in the report (`Part.exists_error`).
-/

namespace Workflow

/-- A list of issues holds an error exactly if one of them is one. -/
theorem hasError_iff {issues : List Issue} : hasError issues = true ↔ ∃ i ∈ issues, i.severity = .error := by
  simp only [hasError, List.any_eq_true, Issue.isError, beq_iff_eq]

namespace Reading

variable {α : Type}

/-- All readings together find the issues of each. -/
theorem issues_all (rs : List (Reading α)) : (all rs).issues = rs.flatMap (·.issues) := by
  induction rs with
  | nil => rfl
  | cons r rs ih => rw [all, List.flatMap_cons, ih]

end Reading

namespace Schema

open Reading

variable {t u : Tree} {place : Place} {entries fields : List (Tree × Tree)} {ts : List Tree}

/-! ## Parts of a document -/

/-- The readings of the parts of a node: the node, its fields, and its configuration if its kind is known and it has one. -/
inductive NodePart (u : Tree) (place : Place) : {α : Type} → Reading α → Prop
  | whole : NodePart u place (node u place)
  | id {fields : List (Tree × Tree)} (h : u = .map fields) : NodePart u place (nodeId fields place)
  | kind {fields : List (Tree × Tree)} (h : u = .map fields) : NodePart u place (nodeKind fields place)
  | display {fields : List (Tree × Tree)} (h : u = .map fields) : NodePart u place (display fields place)
  | config {fields : List (Tree × Tree)} (h : u = .map fields) : NodePart u place (configMapping fields place)
  | spec {fields config : List (Tree × Tree)} {kind : NodeKind} (h : u = .map fields)
      (hkind : (nodeKind fields place).value = some kind) (hconfig : (configMapping fields place).value = some config) :
      NodePart u place (spec kind config (place.key "config"))

/-- The readings of the parts of an edge: the edge and its fields. -/
inductive EdgePart (u : Tree) (place : Place) : {α : Type} → Reading α → Prop
  | whole : EdgePart u place (edge u place)
  | source {fields : List (Tree × Tree)} (h : u = .map fields) : EdgePart u place (endpoint fields "source" "from" place)
  | target {fields : List (Tree × Tree)} (h : u = .map fields) : EdgePart u place (endpoint fields "target" "to" place)
  | condition {fields : List (Tree × Tree)} (h : u = .map fields) : EdgePart u place (optionalText fields "condition" place)

/-- The readings of the parts of a document: the document, its fields, and the parts of its nodes and edges. -/
inductive Part (t : Tree) : {α : Type} → Reading α → Prop
  | whole : Part t (document t)
  | name {entries : List (Tree × Tree)} (h : t = .map entries) : Part t (requiredText entries "name" Place.root)
  | description {entries : List (Tree × Tree)} (h : t = .map entries) :
      Part t (optionalText entries "description" Place.root)
  | version {entries : List (Tree × Tree)} (h : t = .map entries) : Part t (version entries)
  | entry {entries : List (Tree × Tree)} (h : t = .map entries) : Part t (entry entries)
  | nodes {entries : List (Tree × Tree)} (h : t = .map entries) :
      Part t (requiredSequence entries "nodes" Place.root nodes)
  | edges {entries : List (Tree × Tree)} (h : t = .map entries) :
      Part t (requiredSequence entries "edges" Place.root edges)
  | ofNode {α : Type} {r : Reading α} {entries : List (Tree × Tree)} {ts : List Tree} {u : Tree} {i : Nat}
      (h : t = .map entries) (hseq : Tree.field? "nodes" entries = some (.seq ts)) (hitem : ts[i]? = some u)
      (hpart : NodePart u ((Place.root.key "nodes").item i) r) : Part t r
  | ofEdge {α : Type} {r : Reading α} {entries : List (Tree × Tree)} {ts : List Tree} {u : Tree} {i : Nat}
      (h : t = .map entries) (hseq : Tree.field? "edges" entries = some (.seq ts)) (hitem : ts[i]? = some u)
      (hpart : EdgePart u ((Place.root.key "edges").item i) r) : Part t r

/-! ## Each part is reported -/

theorem NodePart.reported {α : Type} {r : Reading α} (h : NodePart u place r) : r.Reported := by
  cases h with
  | whole => exact reported_node u place
  | id _ => exact reported_nodeId
  | kind _ => exact reported_nodeKind
  | display _ => exact reported_display
  | config _ => exact reported_configMapping
  | spec _ _ _ => exact reported_spec _ _ _

theorem EdgePart.reported {α : Type} {r : Reading α} (h : EdgePart u place r) : r.Reported := by
  cases h with
  | whole => exact reported_edge u place
  | source _ => exact reported_endpoint
  | target _ => exact reported_endpoint
  | condition _ => exact reported_optionalText

/-- A node list that is not read is reported. -/
theorem reported_nodes (ts : List Tree) (place : Place) : (nodes ts place).Reported :=
  reported_items fun _ u q => (reported_node u q).after _

/-- An edge list that is not read is reported. -/
theorem reported_edges (ts : List Tree) (place : Place) : (edges ts place).Reported :=
  reported_items fun _ u q => reported_edge u q

/-- A part that is not read has an error among its own issues. -/
theorem Part.reported {α : Type} {r : Reading α} (h : Part t r) : r.Reported := by
  cases h with
  | whole => exact reported_document t
  | name _ => exact reported_requiredText
  | description _ => exact reported_optionalText
  | version _ => exact reported_version
  | entry _ => exact reported_entry
  | nodes _ => exact reported_requiredSequence reported_nodes
  | edges _ => exact reported_requiredSequence reported_edges
  | ofNode _ _ _ hpart => exact hpart.reported
  | ofEdge _ _ _ hpart => exact hpart.reported

/-! ## The issues of a part are in the report -/

/-- The reading of a node's configuration under its kind. Without a kind or a configuration there is none. -/
def nodeSpec (fields : List (Tree × Tree)) (place : Place) : Reading NodeSpec :=
  ((nodeKind fields place).value.bind fun kind =>
    (configMapping fields place).value.map fun config => spec kind config (place.key "config")).getD ⟨none, []⟩

/-- The reading of a configuration whose kind is known. -/
theorem nodeSpec_of_value {kind : NodeKind} {config : List (Tree × Tree)} (hkind : (nodeKind fields place).value = some kind)
    (hconfig : (configMapping fields place).value = some config) :
    nodeSpec fields place = spec kind config (place.key "config") := by
  rw [nodeSpec, hkind, hconfig]
  rfl

/-- A node is read field by field, its configuration under its kind. -/
theorem node_map (fields : List (Tree × Tree)) (place : Place) :
    node (.map fields) place =
      { value := do
          return {
            id := ← (nodeId fields place).value
            spec := ← (nodeSpec fields place).value
            display := ← (display fields place).value }
        issues :=
          keyIssues fields nodeKeys place .unknownField "node field" ++ (nodeId fields place).issues ++
            (nodeKind fields place).issues ++ (display fields place).issues ++ (configMapping fields place).issues ++
            (nodeSpec fields place).issues } := by
  cases hkind : (nodeKind fields place).value <;> cases hconfig : (configMapping fields place).value <;>
    simp [node, mapping, good, andThen, Reading.after, nodeSpec, hkind, hconfig]

theorem NodePart.issues_subset {α : Type} {r : Reading α} (h : NodePart u place r) :
    r.issues ⊆ (node u place).issues := by
  intro i hi
  cases h with
  | whole => exact hi
  | id h => rw [h, node_map]; simp [hi]
  | kind h => rw [h, node_map]; simp [hi]
  | display h => rw [h, node_map]; simp [hi]
  | config h => rw [h, node_map]; simp [hi]
  | spec h hkind hconfig => rw [h, node_map, nodeSpec_of_value hkind hconfig]; simp [hi]

/-- An edge is read field by field. -/
theorem edge_map (fields : List (Tree × Tree)) (place : Place) :
    edge (.map fields) place =
      { value := do
          return {
            source := ← (endpoint fields "source" "from" place).value
            target := ← (endpoint fields "target" "to" place).value
            condition := ← (optionalText fields "condition" place).value }
        issues :=
          keyIssues fields edgeKeys place .unknownField "edge field" ++ (endpoint fields "source" "from" place).issues ++
            (endpoint fields "target" "to" place).issues ++ (optionalText fields "condition" place).issues ++
            edgeDisplayIssues fields place } := rfl

theorem EdgePart.issues_subset {α : Type} {r : Reading α} (h : EdgePart u place r) :
    r.issues ⊆ (edge u place).issues := by
  intro i hi
  cases h with
  | whole => exact hi
  | source h => rw [h, edge_map]; simp [hi]
  | target h => rw [h, edge_map]; simp [hi]
  | condition h => rw [h, edge_map]; simp [hi]

/-- A document is read field by field. -/
theorem document_map (entries : List (Tree × Tree)) :
    document (.map entries) =
      { value := do
          return {
            name := ← (requiredText entries "name" Place.root).value
            description := ← (optionalText entries "description" Place.root).value
            version := ← (version entries).value
            entry := ← (entry entries).value
            nodes := ← (requiredSequence entries "nodes" Place.root nodes).value
            edges := ← (requiredSequence entries "edges" Place.root edges).value }
        issues :=
          keyIssues entries documentKeys Place.root .unknownField "top-level field" ++
            (requiredText entries "name" Place.root).issues ++ (optionalText entries "description" Place.root).issues ++
            (version entries).issues ++ (entry entries).issues ++
            (requiredSequence entries "nodes" Place.root nodes).issues ++
            (requiredSequence entries "edges" Place.root edges).issues } := rfl

/-- The issues of an item are among those of its list. -/
theorem issues_item_subset {α : Type} {read : Nat → Tree → Place → Reading α} {i : Nat} (h : ts[i]? = some u) :
    (read i u (place.item i)).issues ⊆ (items ts place read).issues := by
  intro x hx
  rw [items, issues_all, List.mem_flatMap]
  have hmem : (u, i) ∈ ts.zipIdx := List.mem_zipIdx_iff_getElem?.mpr h
  exact ⟨_, List.mem_map_of_mem hmem, hx⟩

/-- The reading of a sequence that is there is that of its items. -/
theorem requiredSequence_of_field? {α : Type} {key : String} {read : List Tree → Place → Reading α}
    (h : Tree.field? key entries = some (.seq ts)) : requiredSequence entries key place read = read ts (place.key key) := by
  rw [requiredSequence, requiredField, h]

/-- The issues of a part of a document are in the report on it. -/
theorem Part.issues_subset {α : Type} {r : Reading α} (h : Part t r) : r.issues ⊆ (document t).issues := by
  intro i hi
  cases h with
  | whole => exact hi
  | name h => rw [h, document_map]; simp [hi]
  | description h => rw [h, document_map]; simp [hi]
  | version h => rw [h, document_map]; simp [hi]
  | entry h => rw [h, document_map]; simp [hi]
  | nodes h => rw [h, document_map]; simp [hi]
  | edges h => rw [h, document_map]; simp [hi]
  | ofNode h hseq hitem hpart =>
    have hnodes : requiredSequence _ "nodes" Place.root Schema.nodes = _ := requiredSequence_of_field? hseq
    have hmem : i ∈ (Schema.nodes _ (Place.root.key "nodes")).issues :=
      issues_item_subset hitem (List.mem_append_right _ (hpart.issues_subset hi))
    rw [h, document_map, hnodes]
    simp [hmem]
  | ofEdge h hseq hitem hpart =>
    have hedges : requiredSequence _ "edges" Place.root Schema.edges = _ := requiredSequence_of_field? hseq
    have hmem : i ∈ (Schema.edges _ (Place.root.key "edges")).issues :=
      issues_item_subset hitem (hpart.issues_subset hi)
    rw [h, document_map, hedges]
    simp [hmem]

/-- A part that is not read has an error of its own, and the report holds it. -/
theorem Part.exists_error {α : Type} {r : Reading α} (h : Part t r) (hvalue : r.value = none) :
    ∃ i ∈ r.issues, i.severity = .error ∧ i ∈ (document t).issues := by
  obtain ⟨i, hi, herror⟩ := hasError_iff.mp (h.reported hvalue)
  exact ⟨i, hi, herror, h.issues_subset hi⟩

/-! ## The verdict -/

/-- A tree is accepted exactly if it is read as a document. -/
theorem check_eq_ok_iff {strict : Bool} {c : Checked} :
    check t strict = .ok c ↔ ∃ d, check? t = some d ∧ c = ⟨d, validate t strict⟩ := by
  rw [check]
  cases check? t <;> simp [eq_comm]

/-- A tree is refused exactly if it is not read as a document. -/
theorem check_eq_error_iff {strict : Bool} {r : Report} :
    check t strict = .error r ↔ check? t = none ∧ r = validate t strict := by
  rw [check]
  cases check? t <;> simp [eq_comm]

/-- The two ways to look at a tree never contradict each other. A tree is read as a document exactly if the report on it holds no
error, and the report is the same; a tree that is not read has an error in its report; and so has each part that is not read. -/
theorem check_ok_iff_no_error (t : Tree) (strict : Bool) :
    ((∃ c, check t strict = .ok c) ↔ ∀ i ∈ (validate t strict).issues, i.severity ≠ .error) ∧
      (∀ c, check t strict = .ok c → c.report = validate t strict ∧ (document t).value = some c.document) ∧
      (∀ r, check t strict = .error r → r = validate t strict ∧ ∃ i ∈ r.issues, i.severity = .error) ∧
      ∀ {α : Type} (r : Reading α), Part t r → r.value = none →
        ∃ i ∈ r.issues, i.severity = .error ∧ i ∈ (validate t strict).issues := by
  refine ⟨?_, ?_, ?_, fun r hpart hvalue => hpart.exists_error hvalue⟩
  · have hok : (∃ c, check t strict = .ok c) ↔ check? t ≠ none := by
      simp only [check_eq_ok_iff, Option.ne_none_iff_exists']
      exact ⟨fun ⟨_, d, hd, _⟩ => ⟨d, hd⟩, fun ⟨d, hd⟩ => ⟨_, d, hd, rfl⟩⟩
    rw [hok, ne_eq, check?_eq_none_iff, hasError_iff]
    simp only [validate, not_exists, not_and, ne_eq]
  · intro c hc
    obtain ⟨d, hd, rfl⟩ := check_eq_ok_iff.mp hc
    exact ⟨rfl, (check?_eq_some_iff.mp hd).value_eq⟩
  · intro r hr
    obtain ⟨hnone, rfl⟩ := check_eq_error_iff.mp hr
    exact ⟨rfl, hasError_iff.mp (check?_eq_none_iff.mp hnone)⟩

end Schema

end Workflow
