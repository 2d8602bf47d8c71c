import Workflow.Proofs.Schema.Config
import Workflow.Schema.Check

/-!
# Documents that are accepted

The schema accepts exactly the trees of the grammar (`check?_isSome_iff_isWorkflow`). The reading and the grammar go over the
same fields, so there is one lemma for each reading, from the fields of a node up to the document.
-/

namespace Workflow

namespace Schema

open Reading Grammar

variable {t : Tree} {place : Place} {entries : List (Tree × Tree)}

/-! ## Fields of a node -/

/-- A text is an id exactly if it passes the two tests of one. -/
theorem isId_str_iff {s : String} :
    IsId (.str s) ↔ (isBlankText s || trimBlank s != s) = false ∧ s ∉ reservedIds := by
  have htrim : (trimBlank s != s) = false ↔ trimBlank s = s := by simp
  rw [Bool.or_eq_false_iff, htrim, trimBlank_eq_self_iff, isBlankText_eq_false_iff]
  simp only [IsId, Tree.str.injEq, exists_eq_left', reservedIds, List.mem_cons, List.not_mem_nil, or_false, not_or]
  constructor
  · intro h
    obtain ⟨hne, hhead, hlast, hstart, hend⟩ := h
    have hcs : s.toList ≠ [] := by simpa using hne
    obtain ⟨c, rest, hs⟩ := List.exists_cons_of_ne_nil hcs
    refine ⟨⟨⟨c, ?_, hhead c ?_⟩, hhead, hlast⟩, hstart, hend⟩ <;> simp [hs]
  · intro h
    obtain ⟨⟨⟨c, hc, -⟩, hhead, hlast⟩, hstart, hend⟩ := h
    refine ⟨?_, hhead, hlast, hstart, hend⟩
    rintro rfl
    simp at hc

/-- The id of a node is a text that is unchanged by trimming, neither empty nor reserved. -/
theorem nodeId_yields_iff {id : String} :
    (nodeId entries place).Yields id ↔ Tree.field? "id" entries = some (.str id) ∧ IsId (.str id) := by
  simp only [isId_str_iff]
  rw [nodeId]
  cases Tree.field? "id" entries with
  | none => simp
  | some t =>
    cases t with
    | str s =>
      simp only [Option.some.injEq, Tree.str.injEq]
      by_cases hblank : (isBlankText s || trimBlank s != s) = true
      · rw [if_pos hblank]
        refine iff_of_false not_bad_yields ?_
        rintro ⟨rfl, hno, -⟩
        rw [hno] at hblank
        cases hblank
      · rw [if_neg hblank]
        by_cases hres : s ∈ reservedIds
        · rw [if_pos hres]
          refine iff_of_false not_bad_yields ?_
          rintro ⟨rfl, -, hnot⟩
          exact hnot hres
        · rw [if_neg hres, good_yields_iff]
          constructor
          · rintro rfl
            exact ⟨rfl, Bool.not_eq_true _ ▸ hblank, hres⟩
          · rintro ⟨rfl, -⟩
            rfl
    | _ => simp

theorem nodeId_accepts_iff (place : Place) : (nodeId entries place).Accepts ↔ Required entries "id" IsId := by
  simp only [Accepts, nodeId_yields_iff, Required]
  constructor
  · intro h
    obtain ⟨id, hf, hid⟩ := h
    exact ⟨_, hf, hid⟩
  · intro h
    obtain ⟨_, hf, id, rfl, hid⟩ := h
    exact ⟨id, hf, id, rfl, hid⟩

/-- A name is that of a kind exactly if it is its text. -/
theorem ofText?_eq_some_iff {s : String} {kind : NodeKind} : NodeKind.ofText? s = some kind ↔ s = kind.text := by
  constructor
  · intro h
    have hfound := List.find?_some h
    exact (beq_iff_eq.mp hfound).symm
  · rintro rfl
    cases kind <;> rfl

theorem kindValue_yields_iff {kind : NodeKind} : (kindValue t place).Yields kind ↔ t = .str kind.text := by
  simp only [kindValue, andThen_yields_iff, textValue_yields_iff]
  constructor
  · intro hx
    obtain ⟨name, ⟨rfl, -⟩, h⟩ := hx
    split at h
    · rename_i found hfound
      rw [good_yields_iff] at h
      rw [ofText?_eq_some_iff.mp hfound, h]
    · exact absurd h not_bad_yields
  · rintro rfl
    refine ⟨kind.text, ⟨rfl, by cases kind <;> decide⟩, ?_⟩
    rw [ofText?_eq_some_iff.mpr rfl]
    exact good_yields_iff.mpr rfl

theorem nodeKind_yields_iff {kind : NodeKind} :
    (nodeKind entries place).Yields kind ↔ Renamed entries "kind" "type" (· = .str kind.text) := by
  rw [nodeKind, Renamed]
  cases Tree.field? "kind" entries <;> cases Tree.field? "type" entries <;>
    simp [kindValue_yields_iff]

theorem display_accepts_iff (place : Place) :
    (display entries place).Accepts ↔ Optional entries "display" fun t => IsMapping t ∧ ∃ v, t.toJson = .ok v := by
  rw [display, optionalField_accepts_iff, Grammar.Optional]
  refine forall₂_congr fun t _ => or_congr_right ?_
  simp only [andThen_accepts_iff, mapping_yields_iff, after_accepts_iff, keyIssues_iff .unusedDisplay rfl, IsMapping]
  cases t.toJson <;> simp

/-- The configuration mapping of a node is that of its field, empty where it is missing or null. -/
theorem configMapping_yields_iff {config : List (Tree × Tree)} :
    (configMapping entries place).Yields config ↔ Tree.field? "config" entries = some (.map config) ∨
      (Tree.field? "config" entries = none ∨ Tree.field? "config" entries = some .null) ∧ config = [] := by
  simp only [configMapping, map_yields_iff, optionalField_yields_iff, mapping_yields_iff]
  constructor
  · intro h
    rcases h with ⟨o, ⟨hmissing, rfl⟩ | ⟨t, fields, ht, -, rfl, rfl⟩, rfl⟩
    · exact Or.inr ⟨hmissing, rfl⟩
    · exact Or.inl ht
  · rintro (ht | ⟨hmissing, rfl⟩)
    · exact ⟨_, Or.inr ⟨_, config, ht, by simp, rfl, rfl⟩, rfl⟩
    · exact ⟨none, Or.inl ⟨hmissing, rfl⟩, rfl⟩

/-! ## Nodes -/

/-- A node yields what its fields yield, its configuration being read under its kind. -/
theorem node_yields_iff {n : Node} :
    (node t place).Yields n ↔ ∃ entries kind config, t = .map entries ∧ TextKeys entries ∧
      (nodeId entries place).Yields n.id ∧ (nodeKind entries place).Yields kind ∧
      (display entries place).Yields n.display ∧ (configMapping entries place).Yields config ∧
      (spec kind config (place.key "config")).Yields n.spec := by
  simp only [node, andThen_yields_iff, mapping_yields_iff]
  constructor
  · intro h
    obtain ⟨entries, rfl, hvalue, hno⟩ := h
    simp only [hasError_append, Bool.or_eq_false_iff, keyIssues_iff .unknownField rfl] at hno
    obtain ⟨⟨⟨⟨⟨hk, hid⟩, hkind⟩, hdisplay⟩, hconfig⟩, hspec⟩ := hno
    simp only [Option.bind_eq_bind, Option.pure_def, Option.bind_eq_some_iff, Option.some.injEq] at hvalue
    obtain ⟨id, hid', s, hs, shown, hshown, rfl⟩ := hvalue
    cases hkindv : (nodeKind entries place).value with
    | none => simp [hkindv] at hs
    | some kind =>
      cases hconfigv : (configMapping entries place).value with
      | none => simp [hkindv, hconfigv] at hs
      | some config =>
        simp only [hkindv, hconfigv] at hs hspec
        exact ⟨entries, kind, config, rfl, hk, ⟨hid', hid⟩, ⟨hkindv, hkind⟩, ⟨hshown, hdisplay⟩, ⟨hconfigv, hconfig⟩,
          hs, hspec⟩
  · rintro ⟨entries, kind, config, rfl, hk, ⟨hid, hid'⟩, ⟨hkind, hkind'⟩, ⟨hdisplay, hdisplay'⟩, ⟨hconfig, hconfig'⟩,
      hspec, hspec'⟩
    refine ⟨entries, rfl, ?_, ?_⟩
    · simp only [hid, hkind, hdisplay, hconfig, hspec]
      rfl
    · simp only [hasError_append, Bool.or_eq_false_iff, keyIssues_iff .unknownField rfl, hkind, hconfig]
      exact ⟨⟨⟨⟨⟨hk, hid'⟩, hkind'⟩, hdisplay'⟩, hconfig'⟩, hspec'⟩

theorem node_accepts_iff : (node t place).Accepts ↔ IsNode t := by
  constructor
  · intro h
    obtain ⟨n, hn⟩ := h
    obtain ⟨entries, kind, config, rfl, hk, hid, hkind, hdisplay, hconfig, hspec⟩ := node_yields_iff.mp hn
    obtain ⟨htext, hform⟩ := (spec_accepts_iff _).mp ⟨_, hspec⟩
    exact ⟨entries, rfl, hk, (nodeId_accepts_iff _).mp ⟨_, hid⟩,
      ⟨kind, config, nodeKind_yields_iff.mp hkind, configMapping_yields_iff.mp hconfig, htext, hform⟩,
      (display_accepts_iff _).mp ⟨_, hdisplay⟩⟩
  · intro h
    obtain ⟨entries, rfl, hk, hid, ⟨kind, config, hkind, hconfig, htext, hform⟩, hdisplay⟩ := h
    obtain ⟨id, hid⟩ := (nodeId_accepts_iff place).mpr hid
    obtain ⟨s, hs⟩ := (spec_accepts_iff (place.key "config")).mpr ⟨htext, hform⟩
    obtain ⟨shown, hshown⟩ := (display_accepts_iff place).mpr hdisplay
    exact ⟨⟨id, s, shown⟩, node_yields_iff.mpr ⟨entries, kind, config, rfl, hk, hid, nodeKind_yields_iff.mpr hkind, hshown,
      configMapping_yields_iff.mpr hconfig, hs⟩⟩

/-- The id text of an item is what it has as one. -/
theorem idText?_eq_some_iff {item : Tree} {id : String} : idText? item = some id ↔ HasIdText item id := by
  rw [idText?, Option.bind_eq_some_iff, HasIdText]

/-- An id text is not found repeated exactly if no earlier item has it. -/
theorem repeatedIdIssues_eq_nil_iff {earlier : List Tree} {position : Nat} {item : Tree} :
    hasError (repeatedIdIssues (earlier.map idText?) position item place) = false ↔
      ∀ id, HasIdText item id → ∀ u ∈ earlier, ¬HasIdText u id := by
  simp only [← idText?_eq_some_iff]
  rw [repeatedIdIssues]
  cases idText? item with
  | none => simp
  | some id =>
    simp only [Option.some.injEq, forall_eq']
    have hfirst : firstWithId? (earlier.map idText?) id = none ↔ ∀ u ∈ earlier, ¬idText? u = some id := by
      rw [firstWithId?, List.findIdx?_eq_none_iff, List.forall_mem_map]
      simp only [beq_eq_false_iff_ne, ne_eq]
    rw [← hfirst]
    cases firstWithId? (earlier.map idText?) id <;> simp

theorem nodes_accepts_iff {ts : List Tree} :
    (nodes ts place).Accepts ↔ (∀ u ∈ ts, IsNode u) ∧
      ts.Pairwise fun earlier item => ∀ id, HasIdText item id → ¬HasIdText earlier id := by
  simp only [nodes, items_accepts_iff, after_accepts_iff, ← List.map_take, repeatedIdIssues_eq_nil_iff, node_accepts_iff,
    List.pairwise_iff_getElem]
  constructor
  · intro h
    refine ⟨fun u hu => ?_, fun i j hi hj hij id hid => ?_⟩
    · obtain ⟨i, hi⟩ := List.mem_iff_getElem?.mp hu
      exact (h i u hi).2
    · exact (h j ts[j] (List.getElem?_eq_getElem hj)).1 id hid ts[i] (List.mem_take_iff_getElem.mpr ⟨i, by omega, rfl⟩)
  · rintro ⟨hnode, hpair⟩ j u hj
    refine ⟨fun id hid w hw => ?_, hnode u (List.mem_of_getElem? hj)⟩
    obtain ⟨hlt, rfl⟩ := List.getElem?_eq_some_iff.mp hj
    obtain ⟨i, hi, rfl⟩ := List.mem_take_iff_getElem.mp hw
    exact hpair i j (by omega) hlt (by omega) id hid

/-! ## Edges -/

/-- An end of an edge is read under its key, or under the outdated one if there is none. -/
theorem endpoint_accepts_iff (place : Place) {key outdated : String} :
    (endpoint entries key outdated place).Accepts ↔ Renamed entries key outdated IsText := by
  unfold endpoint
  rw [Renamed]
  cases hk : Tree.field? key entries <;> cases Tree.field? outdated entries <;>
    simp [requiredText, hk, textValue_accepts_iff]

theorem edgeDisplayIssues_iff (place : Place) :
    hasError (edgeDisplayIssues entries place) = false ↔
      ∀ t, Tree.field? "display" entries = some t → t.isNull = true ∨ IsMapping t := by
  rw [edgeDisplayIssues]
  cases Tree.field? "display" entries with
  | none => simp
  | some t =>
    simp only [Option.some.injEq, forall_eq']
    by_cases hn : t.isNull = true
    · simp [hn]
    · simp only [hn, if_false, Bool.false_eq_true, false_or, hasError_append, Bool.or_eq_false_iff,
        keyIssues_iff .unusedDisplay rfl, IsMapping]
      cases t <;> simp [mapping, good, bad]

/-- An edge yields what its fields yield, if its drawing data is in form. -/
theorem edge_yields_iff {e : EdgeDecl} :
    (edge t place).Yields e ↔ ∃ entries, t = .map entries ∧ TextKeys entries ∧
      (endpoint entries "source" "from" place).Yields e.source ∧ (endpoint entries "target" "to" place).Yields e.target ∧
      (optionalText entries "condition" place).Yields e.condition ∧
      ∀ t, Tree.field? "display" entries = some t → t.isNull = true ∨ IsMapping t := by
  simp only [edge, andThen_yields_iff, mapping_yields_iff, ← edgeDisplayIssues_iff place]
  constructor
  · intro h
    obtain ⟨entries, rfl, hvalue, hno⟩ := h
    simp only [hasError_append, Bool.or_eq_false_iff, keyIssues_iff .unknownField rfl] at hno
    obtain ⟨⟨⟨⟨hk, hs⟩, ht⟩, hc⟩, hd⟩ := hno
    simp only [Option.bind_eq_bind, Option.pure_def, Option.bind_eq_some_iff, Option.some.injEq] at hvalue
    obtain ⟨source, hs', target, ht', condition, hc', rfl⟩ := hvalue
    exact ⟨entries, rfl, hk, ⟨hs', hs⟩, ⟨ht', ht⟩, ⟨hc', hc⟩, hd⟩
  · intro h
    obtain ⟨entries, rfl, hk, ⟨hs, hs'⟩, ⟨ht, ht'⟩, ⟨hc, hc'⟩, hd⟩ := h
    refine ⟨entries, rfl, ?_, ?_⟩
    · simp only [hs, ht, hc]
      rfl
    · simp only [hasError_append, Bool.or_eq_false_iff, keyIssues_iff .unknownField rfl]
      exact ⟨⟨⟨⟨hk, hs'⟩, ht'⟩, hc'⟩, hd⟩

theorem edge_accepts_iff : (edge t place).Accepts ↔ IsEdge t := by
  constructor
  · intro h
    obtain ⟨e, he⟩ := h
    obtain ⟨entries, rfl, hk, hs, ht, hc, hd⟩ := edge_yields_iff.mp he
    exact ⟨entries, rfl, hk, (endpoint_accepts_iff _).mp ⟨_, hs⟩, (endpoint_accepts_iff _).mp ⟨_, ht⟩,
      (optionalText_accepts_iff _).mp ⟨_, hc⟩, hd⟩
  · intro h
    obtain ⟨entries, rfl, hk, hs, ht, hc, hd⟩ := h
    obtain ⟨source, hs⟩ := (endpoint_accepts_iff place).mpr hs
    obtain ⟨target, ht⟩ := (endpoint_accepts_iff place).mpr ht
    obtain ⟨condition, hc⟩ := (optionalText_accepts_iff place).mpr hc
    exact ⟨⟨source, target, condition⟩, edge_yields_iff.mpr ⟨entries, rfl, hk, hs, ht, hc, hd⟩⟩

theorem edges_accepts_iff {ts : List Tree} : (edges ts place).Accepts ↔ ∀ u ∈ ts, IsEdge u := by
  simp only [edges, items_accepts_iff, edge_accepts_iff]
  constructor
  · intro h u hu
    obtain ⟨i, hi⟩ := List.mem_iff_getElem?.mp hu
    exact h i u hi
  · intro h i u hi
    exact h u (List.mem_of_getElem? hi)

/-! ## The document -/

theorem version_accepts_iff :
    (version entries).Accepts ↔ Optional entries "version" fun t => IsText t ∨ ∃ n, t = .num n := by
  rw [version, optionalField_accepts_iff, Grammar.Optional]
  refine forall₂_congr fun t _ => or_congr_right ?_
  cases t <;> simp [textValue_accepts_iff, IsText]

/-- The entry is read under its key, or under the outdated one if there is none. -/
theorem entry_accepts_iff : (entry entries).Accepts ↔ Renamed entries "entry" "entry_point" IsText := by
  unfold entry
  rw [Renamed]
  cases hk : Tree.field? "entry" entries <;> cases Tree.field? "entry_point" entries <;>
    simp [requiredText, hk, textValue_accepts_iff]

/-- A document yields what its fields yield. -/
theorem document_yields_iff {d : Document} :
    (document t).Yields d ↔ ∃ entries, t = .map entries ∧ TextKeys entries ∧
      (requiredText entries "name" Place.root).Yields d.name ∧
      (optionalText entries "description" Place.root).Yields d.description ∧ (version entries).Yields d.version ∧
      (entry entries).Yields d.entry ∧ (requiredSequence entries "nodes" Place.root nodes).Yields d.nodes ∧
      (requiredSequence entries "edges" Place.root edges).Yields d.edges := by
  constructor
  · intro h
    unfold document at h
    split at h
    · rename_i entries
      obtain ⟨hvalue, hno⟩ := h
      simp only [hasError_append, Bool.or_eq_false_iff, keyIssues_iff .unknownField rfl] at hno
      obtain ⟨⟨⟨⟨⟨⟨hk, hname⟩, hdesc⟩, hversion⟩, hentry⟩, hnodes⟩, hedges⟩ := hno
      simp only [Option.bind_eq_bind, Option.pure_def, Option.bind_eq_some_iff, Option.some.injEq] at hvalue
      obtain ⟨name, hname', desc, hdesc', v, hv', e, he', ns, hns', es, hes', rfl⟩ := hvalue
      exact ⟨entries, rfl, hk, ⟨hname', hname⟩, ⟨hdesc', hdesc⟩, ⟨hv', hversion⟩, ⟨he', hentry⟩, ⟨hns', hnodes⟩, hes', hedges⟩
    · exact absurd h not_bad_yields
  · rintro ⟨entries, rfl, hk, ⟨hname, hname'⟩, ⟨hdesc, hdesc'⟩, ⟨hversion, hversion'⟩, ⟨hentry, hentry'⟩, ⟨hnodes, hnodes'⟩,
      hedges, hedges'⟩
    constructor
    · simp only [document, hname, hdesc, hversion, hentry, hnodes, hedges]
      rfl
    · simp only [document, hasError_append, Bool.or_eq_false_iff, keyIssues_iff .unknownField rfl]
      exact ⟨⟨⟨⟨⟨⟨hk, hname'⟩, hdesc'⟩, hversion'⟩, hentry'⟩, hnodes'⟩, hedges'⟩

/-- A required sequence is accepted exactly if it is there and its items are in form. -/
theorem requiredSequence_accepts_iff_required {α : Type} {key : String} {read : List Tree → Place → Reading α}
    {form : List Tree → Prop} (h : ∀ ts p, (read ts p).Accepts ↔ form ts) :
    (requiredSequence entries key place read).Accepts ↔ Required entries key fun t => ∃ ts, t = .seq ts ∧ form ts := by
  simp only [requiredSequence_accepts_iff, h, Required]
  constructor
  · intro hx
    obtain ⟨ts, hf, hform⟩ := hx
    exact ⟨_, hf, ts, rfl, hform⟩
  · intro hx
    obtain ⟨_, hf, ts, rfl, hform⟩ := hx
    exact ⟨ts, hf, hform⟩

theorem document_accepts_iff : (document t).Accepts ↔ IsWorkflow t := by
  have hnodes : ∀ entries, (requiredSequence entries "nodes" Place.root nodes).Accepts ↔
      Required entries "nodes" IsNodeList := fun _ => requiredSequence_accepts_iff_required fun _ _ => nodes_accepts_iff
  have hedges : ∀ entries, (requiredSequence entries "edges" Place.root edges).Accepts ↔
      Required entries "edges" IsEdgeList := fun _ => requiredSequence_accepts_iff_required fun _ _ => edges_accepts_iff
  constructor
  · intro h
    obtain ⟨d, hd⟩ := h
    obtain ⟨entries, rfl, hk, hname, hdesc, hversion, hentry, hns, hes⟩ := document_yields_iff.mp hd
    exact ⟨entries, rfl, hk, (requiredText_accepts_iff _).mp ⟨_, hname⟩, (optionalText_accepts_iff _).mp ⟨_, hdesc⟩,
      version_accepts_iff.mp ⟨_, hversion⟩, entry_accepts_iff.mp ⟨_, hentry⟩, (hnodes entries).mp ⟨_, hns⟩,
      (hedges entries).mp ⟨_, hes⟩⟩
  · intro h
    obtain ⟨entries, rfl, hk, hname, hdesc, hversion, hentry, hns, hes⟩ := h
    obtain ⟨name, hname⟩ := (requiredText_accepts_iff Place.root).mpr hname
    obtain ⟨desc, hdesc⟩ := (optionalText_accepts_iff Place.root).mpr hdesc
    obtain ⟨v, hversion⟩ := version_accepts_iff.mpr hversion
    obtain ⟨e, hentry⟩ := entry_accepts_iff.mpr hentry
    obtain ⟨ns, hns⟩ := (hnodes entries).mpr hns
    obtain ⟨es, hes⟩ := (hedges entries).mpr hes
    exact ⟨⟨name, desc, v, e, ns, es⟩,
      document_yields_iff.mpr ⟨entries, rfl, hk, hname, hdesc, hversion, hentry, hns, hes⟩⟩

/-- A tree is checked to be a document exactly if reading it yields one. -/
theorem check?_eq_some_iff {d : Document} : check? t = some d ↔ (document t).Yields d := by
  simp only [check?, Yields]
  cases hasError (document t).issues <;> simp

/-- The schema accepts exactly the trees of the grammar. -/
theorem check?_isSome_iff_isWorkflow (t : Tree) : (check? t).isSome = true ↔ IsWorkflow t := by
  rw [Option.isSome_iff_exists, ← document_accepts_iff]
  simp only [check?_eq_some_iff, Accepts]

/-- A workflow that begins and ends, with outdated keys for its entry, for a kind and for the source of its edge. -/
def shortest : Tree :=
  .map [(.str "name", .str "shortest"), (.str "entry_point", .str "begin"),
    (.str "nodes", .seq [.map [(.str "id", .str "begin"), (.str "kind", .str "start")],
      .map [(.str "id", .str "finish"), (.str "type", .str "end"), (.str "config", .null)]]),
    (.str "edges", .seq [.map [(.str "from", .str "begin"), (.str "target", .str "finish")]])]

example : (check? shortest).isSome = true := by decide

example : (check? (.tagged "workflow" shortest)).isSome = false := by decide

end Schema

end Workflow
