import Workflow.Proofs.Package.Constants
import Workflow.Proofs.Schema.Entries
import Workflow.Proofs.Strictness

/-!
# Scalars in node modules

A scalar anywhere inside what a node is given as a value stands in the constants of the module of the node, at the same path and with
the same value (`compileTree_scalars`). The exception are numbers that are not finite: their place is taken by null.
-/

namespace Workflow

/-! ## Scalars -/

/-- The value of a scalar in a configuration, if a tree is one: its own, but for a number that is not finite, which has none there and
is given as null. -/
def Tree.scalar? : Tree → Option Json
  | .null => some .null
  | .bool b => some (.bool b)
  | .str s => some (.str s)
  | .num (.int n) => some (.int n)
  | .num (.real (.finite x)) => some (.real x)
  | .num (.real _) => some .null
  | _ => none

/-- A scalar becomes its value. -/
theorem Tree.toJson_of_scalar? {t : Tree} {v : Json} (h : t.scalar? = some v) : t.toJson = .ok v := by
  cases t with
  | num n =>
    cases n with
    | int n =>
      cases h
      rfl
    | real x => cases x <;> cases h <;> rfl
  | null =>
    cases h
    rfl
  | bool b =>
    cases h
    rfl
  | str s =>
    cases h
    rfl
  | seq items => cases h
  | map entries => cases h
  | tagged tag value => cases h

/-- A scalar inside a tree has its value at the same path inside what the tree becomes. -/
theorem Tree.part?_of_scalar? {t part : Tree} {v w : Json} {path : List Step} (h : t.toJson = .ok w)
    (hpart : t.part? path = some part) (hscalar : part.scalar? = some v) : w.part? path = some v := by
  obtain ⟨v', hv', hjson⟩ := exists_of_rel (part?_toJson h path) hpart
  rw [hv', Except.ok.inj ((toJson_of_scalar? hscalar).symm.trans hjson)]

/-- The configuration of a module has the object of the node under its key. -/
theorem NodeSpec.under?_payload {s : NodeSpec} {key : String} {object : Keyed Json} (h : s.object? = some (key, object)) :
    s.payload.under? (.key key) = some (.obj object) := by
  cases s with
  | toolCall call =>
    cases h
    rw [payload, Json.record, Json.under?, Keyed.get?_ofList]
    rfl
  | transform assign =>
    cases h
    rfl
  | start inputs => cases h
  | llmCall call => cases h
  | conditionalBranch b => cases h
  | finish outputs => cases h

/-! ## Modules -/

/-- The module of a node is named after it, and it keeps the scalars of what the node is given at a position of a tree: those inside
its arguments or assignments in its configuration, and those inside its display value. -/
structure KeepsScalars (t : Tree) (i : Nat) (n : Node) (file : Artifact) : Prop where
  id : assignedValue? file.contents "NODE_ID" = some (.str n.id)
  config : ∃ config, assignedValue? file.contents "CONFIG" = some config ∧
    ∀ key object, n.spec.object? = some (key, object) → ∀ entries, t.configField? i key = some (.map entries) →
      ∀ name given path part v, lastUnder Tree.text? name entries = some given → given.part? path = some part →
        part.scalar? = some v → config.part? (.key key :: .key name :: path) = some v
  display : ∃ display, assignedValue? file.contents "DISPLAY" = some display ∧
    ∀ given path part v, t.nodeField? i "display" = some given → given.part? path = some part → part.scalar? = some v →
      display.part? path = some v

open Schema Grammar

variable {t : Tree} {strict : Bool} {options : Options} {c : Compilation} {d : Document} {g : Graph} {i : Nat} {n : Node}

/-- The package of a graph has a module for each node, with the constants of the node. -/
theorem exists_module_of_node (options : Options) (hn : g.nodes[i]? = some n) :
    ∃ file ∈ Package.artifacts g options,
      file.path = (Layout.ofGraph g options).file ["nodes", (Layout.ofGraph g options).slug i ++ ".py"] ∧
        ∀ name v, (name, v) ∈ Package.constants n → assignedValue? file.contents name = some v := by
  refine ⟨Package.artifact (Layout.ofGraph g options) ["nodes", (Layout.ofGraph g options).slug i ++ ".py"]
    (Package.nodeLines g n (Layout.ofGraph g options) options), ?_, rfl, fun name v hconstant => ?_⟩
  · refine List.mem_append_left _ (List.mem_append_right _ (List.mem_map.mpr ⟨(n, i), ?_, rfl⟩))
    exact List.mem_zipIdx_iff_getElem?.mpr hn
  · exact Package.assignedValue?_nodeLines Layout.isNameText_stateClass n hconstant

/-- A scalar inside the object of a configuration is in the configuration of the module. -/
theorem part?_payload_of_scalar? {config entries : List (Tree × Tree)} {s : NodeSpec} {key name : String} {object : Keyed Json}
    {given part : Tree} {path : List Step} {v : Json} (h : IsSpecOf config s) (hobject : s.object? = some (key, object))
    (hentries : Tree.field? key config = some (.map entries)) (hgiven : lastUnder Tree.text? name entries = some given)
    (hpart : given.part? path = some part) (hscalar : part.scalar? = some v) :
    s.payload.part? (.key key :: .key name :: path) = some v := by
  rcases object_of_isSpecOf h hobject with ⟨hnull, -⟩ | ⟨_, hsome, entries', values, rfl, rfl, hvalues⟩
  · cases hnull _ hentries
  · rw [hentries, Option.some.injEq, Tree.map.injEq] at hsome
    subst hsome
    obtain ⟨w, hw, hjson⟩ := Tree.exists_of_rel ((Tree.holdsEntries_ofList hvalues).found name) hgiven
    rw [Json.part?, NodeSpec.under?_payload hobject, Option.bind_some, Json.part?, Json.under?, hw]
    exact Tree.part?_of_scalar? hjson hpart hscalar

/-- A scalar inside a display value is in the display value of the module. -/
theorem part?_display_of_scalar? {entries : List (Tree × Tree)} {given part : Tree} {path : List Step} {v : Json}
    (h : IsNodeWith entries n) (hgiven : Tree.field? "display" entries = some given) (hpart : given.part? path = some part)
    (hscalar : part.scalar? = some v) : (n.display.getD .null).part? path = some v := by
  have hdisplay := h.display
  cases hshown : n.display with
  | none =>
    rw [hshown] at hdisplay
    rw [eq_null_of_holdsOptional hdisplay given hgiven] at hpart
    exact Tree.part?_of_scalar? rfl hpart hscalar
  | some w =>
    rw [hshown] at hdisplay
    obtain ⟨given', hgiven', hjson⟩ := hdisplay
    rw [hgiven, Option.some.injEq] at hgiven'
    subst hgiven'
    exact Tree.part?_of_scalar? hjson hpart hscalar

/-- A module with the constants of a node keeps the scalars of what the node is given. -/
theorem keepsScalars_of_constants {file : Artifact} (h : IsDocumentOf t d) (hn : d.nodes[i]? = some n)
    (hfile : ∀ name v, (name, v) ∈ Package.constants n → assignedValue? file.contents name = some v) :
    KeepsScalars t i n file := by
  obtain ⟨entries, config, hfield, hconfig, hnode, hspec⟩ := exists_fields h hn
  constructor
  · exact hfile "NODE_ID" _ List.mem_cons_self
  · refine ⟨n.spec.payload, hfile "CONFIG" _ (by simp [Package.constants]), ?_⟩
    intro key object hobject fields hfields name given path part v hgiven hpart hscalar
    rw [hconfig] at hfields
    exact part?_payload_of_scalar? hspec hobject hfields hgiven hpart hscalar
  · refine ⟨n.display.getD .null, hfile "DISPLAY" _ (by simp [Package.constants]), ?_⟩
    intro given path part v hgiven hpart hscalar
    rw [hfield] at hgiven
    exact part?_display_of_scalar? hnode hgiven hpart hscalar

/-- A compiled workflow has a module for each node, and each keeps the scalars of what its node is given. -/
theorem compileTree_scalars (h : compileTree t strict options = .ok c) :
    ∃ d g, Schema.check? t = some d ∧ Graph.build d = .ok g ∧ ∀ i n, d.nodes[i]? = some n → ∃ file ∈ c.artifacts,
      file.path = (Layout.ofGraph g options).file ["nodes", (Layout.ofGraph g options).slug i ++ ".py"] ∧
        KeepsScalars t i n file := by
  obtain ⟨d, g, hd, hg, -, rfl⟩ := compileTree_eq_ok_iff.mp h
  refine ⟨d, g, hd, hg, fun i n hn => ?_⟩
  have hnodes : g.nodes = d.nodes := by
    obtain ⟨-, s, -, rfl⟩ := Build.build_eq_ok_iff.mp hg
    rfl
  have hchecked : Schema.check t strict = .ok ⟨d, Schema.validate t strict⟩ := Schema.check_eq_ok_iff.mpr ⟨d, hd, rfl⟩
  obtain ⟨file, hmem, hpath, hconstants⟩ := exists_module_of_node options (hnodes ▸ hn)
  exact ⟨file, hmem, hpath, keepsScalars_of_constants (check_faithful hchecked).1 hn hconstants⟩

/-- Scalars of every kind, at several depths and under tags; the last of the numbers is infinite. -/
def settingsEntries : List (Tree × Tree) :=
  [(.str "mode", .str "None"), (.tagged "old" (.str "flags"), .seq [.null, .bool true]),
    (.str "size", .tagged "unit" (.num (.int 18446744073709551615))), (.str "limit", .num (.real (.infinite false)))]

/-- A workflow that assigns them. -/
def settings : Tree :=
  .map [(.str "name", .str "setup"), (.str "entry", .str "in"),
    (.str "nodes", .seq [.map [(.str "id", .str "in"), (.str "kind", .str "start")],
      .map [(.str "id", .str "set"), (.str "kind", .str "transform"),
        (.str "display", .map [(.str "x", .num (.int (-7)))]),
        (.str "config", .map [(.str "assign", .map settingsEntries)])],
      .map [(.str "id", .str "out"), (.str "kind", .str "end")]]),
    (.str "edges", .seq [.map [(.str "source", .str "in"), (.str "target", .str "set")],
      .map [(.str "source", .str "set"), (.str "target", .str "out")]])]

/-- That workflow is compiled, and its second node assigns. -/
theorem compileTree_settings : ∃ c d g n object, compileTree settings false {} = .ok c ∧ c.artifacts = Package.artifacts g {} ∧
    Schema.check settings false = .ok ⟨d, Schema.validate settings false⟩ ∧ g.nodes[1]? = some n ∧ d.nodes[1]? = some n ∧
    n.id = "set" ∧ n.spec.object? = some ("assign", object) := by
  obtain ⟨d, g, n, object, hd, hg, hpassed, hn, hn', hid, hobject⟩ : ∃ d g n object, Schema.check? settings = some d ∧
      Graph.build d = .ok g ∧ (Schema.validate settings false).passed = true ∧ g.nodes[1]? = some n ∧ d.nodes[1]? = some n ∧
      n.id = "set" ∧ n.spec.object? = some ("assign", object) := ⟨_, _, _, _, rfl, rfl, rfl, rfl, rfl, rfl, rfl⟩
  exact ⟨_, d, g, n, object, compileTree_eq_ok_iff.mpr ⟨d, g, hd, hg, hpassed, rfl⟩, rfl,
    Schema.check_eq_ok_iff.mpr ⟨d, hd, rfl⟩, hn, hn', hid, hobject⟩

/-- The theorem at that workflow, where a whole number under a tag is kept. -/
theorem compileTree_scalars_settings : ∃ c file config, compileTree settings false {} = .ok c ∧ file ∈ c.artifacts ∧
    assignedValue? file.contents "NODE_ID" = some (.str "set") ∧ assignedValue? file.contents "CONFIG" = some config ∧
    config.part? [.key "assign", .key "size", .key "!unit"] = some (.int 18446744073709551615) := by
  obtain ⟨c, d, g, n, object, hc, -, hchecked, -, hn, hid, hobject⟩ := compileTree_settings
  obtain ⟨d', g', hd', -, hmodules⟩ := compileTree_scalars hc
  obtain ⟨_, hd, heq⟩ := Schema.check_eq_ok_iff.mp hchecked
  cases heq
  rw [hd, Option.some.injEq] at hd'
  subst hd'
  obtain ⟨file, hmem, -, hkeeps⟩ := hmodules 1 n hn
  obtain ⟨config, hconfig, hscalars⟩ := hkeeps.config
  exact ⟨c, file, config, hc, hmem, hid ▸ hkeeps.id, hconfig,
    hscalars "assign" object hobject settingsEntries rfl "size" _ [.key "!unit"] _ _ rfl rfl rfl⟩

/-- In the configuration of the same module null stands for the infinite number. -/
theorem infinite_lost : ∃ c file config, compileTree settings false {} = .ok c ∧ file ∈ c.artifacts ∧
    assignedValue? file.contents "NODE_ID" = some (.str "set") ∧ settings.configField? 1 "assign" = some (.map settingsEntries) ∧
    lastUnder Tree.text? "limit" settingsEntries = some (.num (.real (.infinite false))) ∧
    assignedValue? file.contents "CONFIG" = some config ∧ config.part? [.key "assign", .key "limit"] = some .null := by
  obtain ⟨c, d, g, n, object, hc, hartifacts, hchecked, hn, hn', hid, hobject⟩ := compileTree_settings
  obtain ⟨file, hmem, -, hconstants⟩ := exists_module_of_node {} hn
  have hkeeps : KeepsScalars settings 1 n file := keepsScalars_of_constants (check_faithful hchecked).1 hn' hconstants
  obtain ⟨config, hconfig, hscalars⟩ := hkeeps.config
  exact ⟨c, file, config, hc, hartifacts ▸ hmem, hid ▸ hkeeps.id, rfl, rfl, hconfig,
    hscalars "assign" object hobject settingsEntries rfl "limit" _ [] _ _ rfl rfl rfl⟩

end Workflow
