import Workflow.Proofs.Graph.Islands
import Workflow.Proofs.Schema.Faithful

/-!
# Where the defects of a structure stand

An issue stands at a place, and the place leads from the root of the tree to a value. The checks of a structure make the places of
their issues from positions and from the keys of today, long after the tree is gone. A reference that the tree holds under an outdated
key is told of at a place that is not there; every other place is (`refusals_located`).
-/

namespace Workflow

/-! ## Places in a tree -/

namespace Tree

/-- The value that a step leads to: a key into a mapping, a position into a sequence. -/
def step? : Tree → Segment → Option Tree
  | .map entries, .key name => field? name entries
  | .seq items, .index i => items[i]?
  | _, _ => none

/-- The value at a place. -/
def at? (t : Tree) : Place → Option Tree
  | [] => some t
  | s :: rest => (t.step? s).bind (·.at? rest)

/-- Some value stands at a place. -/
def Holds (t : Tree) (place : Place) : Prop := (t.at? place).isSome = true

instance (t : Tree) (place : Place) : Decidable (t.Holds place) := inferInstanceAs (Decidable (_ = true))

variable {t u : Tree} {place : Place}

theorem at?_append (t : Tree) (p q : Place) : t.at? (p ++ q) = (t.at? p).bind (·.at? q) := by
  induction p generalizing t with
  | nil => rfl
  | cons s p ih =>
    rw [List.cons_append, at?, at?, Option.bind_assoc]
    exact congrArg _ (funext ih)

/-- The value under a key of a mapping. -/
theorem at?_key {entries : List (Tree × Tree)} (h : t.at? place = some (.map entries)) (name : String) :
    t.at? (place.key name) = field? name entries := by
  rw [Place.key, at?_append, h, Option.bind_some, at?, step?]
  exact Option.bind_fun_some _

/-- The value at a position of a sequence. -/
theorem at?_item {items : List Tree} (h : t.at? place = some (.seq items)) (i : Nat) : t.at? (place.item i) = items[i]? := by
  rw [Place.item, at?_append, h, Option.bind_some, at?, step?]
  exact Option.bind_fun_some _

theorem holds_of_at? (h : t.at? place = some u) : t.Holds place := by rw [Holds, h]; rfl

end Tree

namespace Build

variable {d : Document} {t : Tree} {place : Place}

/-! ## The places of issues -/

/-- The places of nodes, of edges, and of what a node or an edge has under keys that were never renamed. -/
inductive ElementPlace (d : Document) : Place → Prop
  | nodes : ElementPlace d (Place.root.key "nodes")
  | node (i : Nat) (n : Node) (h : d.nodes[i]? = some n) : ElementPlace d (nodePlace i)
  | id (i : Nat) (n : Node) (h : d.nodes[i]? = some n) : ElementPlace d ((nodePlace i).key "id")
  | branches (i : Nat) (n : Node) (b : Branching) (h : d.nodes[i]? = some n) (hb : n.spec = .conditionalBranch b) :
    ElementPlace d (((nodePlace i).key "config").key "branches")
  | edge (j : Nat) (e : EdgeDecl) (h : d.edges[j]? = some e) : ElementPlace d (edgePlace j)
  | condition (j : Nat) (e : EdgeDecl) (label : String) (h : d.edges[j]? = some e) (hc : e.condition = some label) :
    ElementPlace d ((edgePlace j).key "condition")

/-- The places of references to nodes, each with the place under the key that the reference had in former days. -/
inductive ReferencePlace (d : Document) : Place → Place → Prop
  | entry : ReferencePlace d (Place.root.key "entry") (Place.root.key "entry_point")
  | source (j : Nat) (e : EdgeDecl) (h : d.edges[j]? = some e) :
    ReferencePlace d ((edgePlace j).key "source") ((edgePlace j).key "from")
  | target (j : Nat) (e : EdgeDecl) (h : d.edges[j]? = some e) :
    ReferencePlace d ((edgePlace j).key "target") ((edgePlace j).key "to")

/-- The codes of issues of references. -/
def referenceCodes : List IssueCode := [.danglingReference, .entryMismatch]

/-- An issue stands at an element of a document, or it is about a reference and stands there. -/
def Placed (d : Document) (x : Issue) : Prop :=
  ElementPlace d x.place ∨ x.code ∈ referenceCodes ∧ ∃ outdated, ReferencePlace d x.place outdated

theorem placed_collisionIssues : ∀ x ∈ collisionIssues d, Placed d x := by
  intro x hx
  obtain ⟨⟨n, i⟩, hn, hx⟩ := List.mem_filterMap.mp hx
  simp only [Option.ite_none_right_eq_some, Option.some.injEq] at hx
  rw [← hx.2]
  exact Or.inl (.id i n (List.mem_zipIdx_iff_getElem?.mp hn))

theorem placed_danglingIssue {outdated : Place} (h : ReferencePlace d place outdated) (what id : String) :
    ∀ x ∈ danglingIssue d place what id, Placed d x := by
  intro x hx
  rw [danglingIssue] at hx
  split at hx
  · exact absurd hx List.not_mem_nil
  · rw [List.mem_singleton.mp hx]
    exact Or.inr ⟨List.mem_cons_self, outdated, h⟩

theorem placed_edgeIssues : ∀ x ∈ edgeIssues d, Placed d x := by
  intro x hx
  obtain ⟨⟨e, j⟩, he, hx⟩ := List.mem_flatMap.mp hx
  have he := List.mem_zipIdx_iff_getElem?.mp he
  rcases List.mem_append.mp hx with hx | hx
  · exact placed_danglingIssue (.source j e he) _ _ x hx
  · exact placed_danglingIssue (.target j e he) _ _ x hx

theorem placed_entryIssues : ∀ x ∈ entryIssues d, Placed d x := by
  intro x hx
  rw [entryIssues] at hx
  rcases List.mem_append.mp hx with hx | hx
  · exact placed_danglingIssue .entry _ _ x hx
  · split at hx
    · rw [List.mem_singleton.mp hx]
      exact Or.inl .nodes
    · split at hx
      · exact absurd hx List.not_mem_nil
      · split at hx
        · exact absurd hx List.not_mem_nil
        · rw [List.mem_singleton.mp hx]
          exact Or.inr ⟨List.mem_cons_of_mem _ List.mem_cons_self, _, .entry⟩
    · rw [List.mem_singleton.mp hx]
      exact Or.inl .nodes

theorem placed_reachIssues : ∀ x ∈ reachIssues d, Placed d x := by
  intro x hx
  rw [reachIssues] at hx
  split at hx
  · exact absurd hx List.not_mem_nil
  · obtain ⟨row, hrow, hx⟩ := List.mem_flatMap.mp hx
    obtain ⟨i, hi, rfl⟩ := List.mem_map.mp hrow
    have hlt := List.mem_range.mp (List.mem_filter.mp hi).1
    have hplace : x.place = nodePlace i := by
      rw [islandIssues] at hx
      grind
    rw [Placed, hplace]
    exact Or.inl (.node i _ (List.getElem?_eq_getElem hlt))

theorem placed_plainEdgeIssue {n : Node} {e : Edge} (he : e ∈ resolvedEdges d) : ∀ x ∈ plainEdgeIssue d n e, Placed d x := by
  obtain ⟨decl, hdecl, -, -, hc⟩ := mem_resolvedEdges.mp he
  intro x hx
  obtain ⟨label, hlabel, rfl⟩ := Option.map_eq_some_iff.mp hx
  exact Or.inl (.condition e.position decl label hdecl (hc ▸ hlabel))

theorem placed_branchEdgeIssue {n : Node} {labels earlier : List String} {e : Edge} (he : e ∈ resolvedEdges d) :
    ∀ x ∈ branchEdgeIssue d n labels earlier e, Placed d x := by
  obtain ⟨decl, hdecl, -, -, hc⟩ := mem_resolvedEdges.mp he
  intro x hx
  rw [branchEdgeIssue] at hx
  split at hx
  · cases hx
    exact Or.inl (.edge e.position decl hdecl)
  · next label hlabel =>
    have hcondition := ElementPlace.condition e.position decl label hdecl (hc ▸ hlabel)
    split at hx
    · cases hx
      exact Or.inl hcondition
    · split at hx <;> cases hx
      exact Or.inl hcondition

theorem placed_branchIssues {n : Node} {i : Nat} (hn : d.nodes[i]? = some n) :
    ∀ x ∈ branchIssues d (resolvedEdges d) n i, Placed d x := by
  have hmem : ∀ e ∈ leaving (resolvedEdges d) i, e ∈ resolvedEdges d := fun e he => (List.mem_filter.mp he).1
  intro x hx
  rw [branchIssues] at hx
  split at hx
  · obtain ⟨e, he, hx⟩ := List.mem_filterMap.mp hx
    exact placed_plainEdgeIssue (hmem e he) x hx
  · next labels hlabels =>
    rcases List.mem_append.mp hx with hx | hx
    · obtain ⟨⟨e, earlier⟩, he, hx⟩ := List.mem_filterMap.mp hx
      obtain ⟨⟨e', k⟩, hk, heq⟩ := List.mem_map.mp he
      cases heq
      exact placed_branchEdgeIssue (hmem _ (List.mem_of_getElem? (List.mem_zipIdx_iff_getElem?.mp hk))) x hx
    · obtain ⟨b, hb, -⟩ := branchLabels?_eq_some_iff.mp hlabels
      simp only [missingLabelIssue] at hx
      split at hx
      · exact absurd hx List.not_mem_nil
      · rw [List.mem_singleton.mp hx]
        exact Or.inl (.branches i n b hn hb)

theorem placed_terminalIssues {sources : List (Option Nat)} {n : Node} {i : Nat} (hn : d.nodes[i]? = some n) :
    ∀ x ∈ terminalIssues sources n i, Placed d x := by
  intro x hx
  rw [Placed, place_of_mem_terminalIssues hx]
  exact Or.inl (.node i n hn)

/-- Every issue of a structure stands at an element of the document or at a reference that it is about. -/
theorem placed_issues (d : Document) : ∀ x ∈ issues d, Placed d x := by
  intro x hx
  rw [issues_eq] at hx
  simp only [List.mem_append, List.mem_flatMap, Prod.exists, List.mem_zipIdx_iff_getElem?] at hx
  rcases hx with (((((hx | hx) | hx) | hx) | ⟨n, i, hn, hx⟩) | ⟨n, i, hn, hx⟩) | hx
  · exact placed_collisionIssues x hx
  · exact placed_edgeIssues x hx
  · exact placed_entryIssues x hx
  · exact placed_reachIssues x hx
  · exact placed_branchIssues hn x hx
  · exact placed_terminalIssues hn x hx
  · rw [noTerminalIssues] at hx
    split at hx
    · rw [List.mem_singleton.mp hx]
      exact Or.inl .nodes
    · exact absurd hx List.not_mem_nil

/-! ## The places in the tree of the document -/

open Grammar

/-- Where items match one for one, the item at a position has its match there. -/
theorem exists_getElem?_of_forall₂ {α β : Type} {R : α → β → Prop} {as : List α} {bs : List β} (h : List.Forall₂ R as bs)
    {i : Nat} {b : β} (hb : bs[i]? = some b) : ∃ a, as[i]? = some a ∧ R a b := by
  induction h generalizing i with
  | nil => cases hb
  | @cons a _ _ _ hfirst _ ih =>
    cases i with
    | zero =>
      cases hb
      exact ⟨a, rfl, hfirst⟩
    | succ i => exact ih hb

/-- The node at a position stands in the tree at its place. -/
theorem at?_nodePlace (h : IsDocumentOf t d) {i : Nat} {n : Node} (hn : d.nodes[i]? = some n) :
    ∃ entries, t.at? (nodePlace i) = some (.map entries) ∧ IsNodeWith entries n := by
  obtain ⟨entries, rfl, hd⟩ := h
  obtain ⟨u, hu, items, rfl, hitems⟩ := hd.nodes
  obtain ⟨v, hv, fields, rfl, hnode⟩ := exists_getElem?_of_forall₂ hitems hn
  exact ⟨fields, by rw [nodePlace, Tree.at?_item ((Tree.at?_key rfl _).trans hu), hv], hnode⟩

/-- The edge at a position stands in the tree at its place. -/
theorem at?_edgePlace (h : IsDocumentOf t d) {j : Nat} {e : EdgeDecl} (he : d.edges[j]? = some e) :
    ∃ entries, t.at? (edgePlace j) = some (.map entries) ∧ IsEdgeWith entries e := by
  obtain ⟨entries, rfl, hd⟩ := h
  obtain ⟨u, hu, items, rfl, hitems⟩ := hd.edges
  obtain ⟨v, hv, fields, rfl, hedge⟩ := exists_getElem?_of_forall₂ hitems he
  exact ⟨fields, by rw [edgePlace, Tree.at?_item ((Tree.at?_key rfl _).trans hu), hv], hedge⟩

/-- What a tree holds of a document stands at the places of its elements. -/
theorem ElementPlace.holds (hp : ElementPlace d place) (h : IsDocumentOf t d) : t.Holds place := by
  cases hp with
  | nodes =>
    obtain ⟨entries, rfl, hd⟩ := h
    obtain ⟨u, hu, -⟩ := hd.nodes
    exact Tree.holds_of_at? ((Tree.at?_key rfl _).trans hu)
  | node i n hn =>
    obtain ⟨entries, hat, -⟩ := at?_nodePlace h hn
    exact Tree.holds_of_at? hat
  | id i n hn =>
    obtain ⟨entries, hat, hnode⟩ := at?_nodePlace h hn
    obtain ⟨u, hu, -⟩ := hnode.id
    exact Tree.holds_of_at? ((Tree.at?_key hat _).trans hu)
  | branches i n b hn hb =>
    obtain ⟨entries, hat, hnode⟩ := at?_nodePlace h hn
    obtain ⟨config, hconfig, hspec⟩ := hnode.spec
    rw [hb] at hspec
    obtain ⟨u, hu, -⟩ := hspec.2
    -- a mapping without entries has no labels, so the configuration is there
    have hfield : Tree.field? "config" entries = some (.map config) := by
      refine hconfig.resolve_right fun hno => ?_
      rw [hno.2] at hu
      cases hu
    exact Tree.holds_of_at? ((Tree.at?_key ((Tree.at?_key hat _).trans hfield) _).trans hu)
  | edge j e he =>
    obtain ⟨entries, hat, -⟩ := at?_edgePlace h he
    exact Tree.holds_of_at? hat
  | condition j e label he hc =>
    obtain ⟨entries, hat, hedge⟩ := at?_edgePlace h he
    have hcondition := hedge.condition
    rw [hc] at hcondition
    obtain ⟨u, hu, -⟩ := hcondition
    exact Tree.holds_of_at? ((Tree.at?_key hat _).trans hu)

/-- A text under a key, or under an outdated one in its place, stands at the place of the key or at the other. -/
theorem at?_of_holdsText {entries : List (Tree × Tree)} (hat : t.at? place = some (.map entries)) {key outdated s : String}
    (h : HoldsText entries key outdated s) :
    t.at? (place.key key) = some (.str s) ∨ t.at? (place.key key) = none ∧ t.at? (place.key outdated) = some (.str s) := by
  obtain ⟨u, hu, rfl⟩ := h
  rw [Tree.at?_key hat, Tree.at?_key hat]
  cases hkey : Tree.field? key entries with
  | none => exact Or.inr ⟨rfl, by rwa [hkey, Option.none_or] at hu⟩
  | some v => exact Or.inl (by rwa [hkey, Option.some_or] at hu)

/-- A reference stands at its place or, if nothing is there, at the place under the outdated key. -/
theorem ReferencePlace.at? {outdated : Place} (hp : ReferencePlace d place outdated) (h : IsDocumentOf t d) :
    ∃ s, t.at? place = some (.str s) ∨ t.at? place = none ∧ t.at? outdated = some (.str s) := by
  cases hp with
  | entry =>
    obtain ⟨entries, rfl, hd⟩ := h
    exact ⟨d.entry, at?_of_holdsText rfl hd.entry⟩
  | source j e he =>
    obtain ⟨entries, hat, hedge⟩ := at?_edgePlace h he
    exact ⟨e.source, at?_of_holdsText hat hedge.source⟩
  | target j e he =>
    obtain ⟨entries, hat, hedge⟩ := at?_edgePlace h he
    exact ⟨e.target, at?_of_holdsText hat hedge.target⟩

end Build

/-! ## The theorem -/

open Build

/-- Every issue with which a checked document is refused stands at a place that the tree has. The one exception are issues of a
reference that the tree holds under an outdated key alone: the tree has nothing at their place, and the text of the reference stands at
the place under the outdated key. -/
theorem refusals_located {t : Tree} {strict : Bool} {c : Schema.Checked} (h : Schema.check t strict = .ok c) (x : Issue)
    (hx : x ∈ Graph.refusalIssues c.document) :
    t.Holds x.place ∨ x.code ∈ referenceCodes ∧ ¬t.Holds x.place ∧
      ∃ outdated s, ReferencePlace c.document x.place outdated ∧ t.at? outdated = some (.str s) := by
  obtain ⟨d, hd, rfl⟩ := Schema.check_eq_ok_iff.mp h
  have hstands := (Schema.of_document_yields (Schema.check?_eq_some_iff.mp hd)).1
  rw [refusalIssues_eq_issues] at hx
  rcases placed_issues d x hx with helement | ⟨hcode, outdated, hreference⟩
  · exact Or.inl (helement.holds hstands)
  · obtain ⟨s, hs | ⟨hnone, hs⟩⟩ := hreference.at? hstands
    · exact Or.inl (Tree.holds_of_at? hs)
    · exact Or.inr ⟨hcode, by rw [Tree.Holds, hnone]; exact Bool.false_ne_true, outdated, s, hreference, hs⟩

/-- A workflow in the spelling of former days. It is entered at its end, and an edge leads to no node. -/
def formerly : Tree :=
  .map [(.str "name", .str "ask"), (.str "entry_point", .str "finish"),
    (.str "nodes", .seq [
      .map [(.str "id", .str "begin"), (.str "type", .str "start")],
      .map [(.str "id", .str "finish"), (.str "type", .str "end")]]),
    (.str "edges", .seq [
      .map [(.str "from", .str "begin"), (.str "to", .str "finish")],
      .map [(.str "from", .str "begin"), (.str "to", .str "nowhere")]])]

/-- The theorem at the edge of that workflow that leads to no node. -/
theorem refusals_located_formerly : ∃ c x, Schema.check formerly true = .ok c ∧ x ∈ Graph.refusalIssues c.document ∧
    x.place = (edgePlace 1).key "target" ∧ (formerly.Holds x.place ∨ x.code ∈ referenceCodes ∧ ¬formerly.Holds x.place ∧
      ∃ outdated s, ReferencePlace c.document x.place outdated ∧ formerly.at? outdated = some (.str s)) := by
  have hsome : ((Schema.check? formerly).map fun d => (Graph.refusalIssues d).map (·.place)) =
      some [(edgePlace 1).key "target", Place.root.key "entry"] := by decide
  obtain ⟨d, hd, hplaces⟩ := Option.map_eq_some_iff.mp hsome
  obtain ⟨x, hx, hplace⟩ := List.mem_map.mp (hplaces ▸ List.mem_cons_self)
  have hc : Schema.check formerly true = .ok ⟨d, Schema.validate formerly true⟩ := Schema.check_eq_ok_iff.mpr ⟨d, hd, rfl⟩
  exact ⟨_, x, hc, hx, hplace, refusals_located hc x hx⟩

/-- A checked document may be refused with issues at places that its tree does not have: both issues of that workflow stand at such. -/
theorem refusals_unlocated_formerly : ∃ c, Schema.check formerly true = .ok c ∧
    (Graph.refusalIssues c.document).map (fun x => (x.code, x.place, decide (formerly.Holds x.place))) =
      [(.danglingReference, (edgePlace 1).key "target", false), (.entryMismatch, Place.root.key "entry", false)] := by
  have hsome : ((Schema.check? formerly).map fun d =>
      (Graph.refusalIssues d).map fun x => (x.code, x.place, decide (formerly.Holds x.place))) =
      some [(.danglingReference, (edgePlace 1).key "target", false), (.entryMismatch, Place.root.key "entry", false)] := by decide
  obtain ⟨d, hd, hissues⟩ := Option.map_eq_some_iff.mp hsome
  exact ⟨⟨d, Schema.validate formerly true⟩, Schema.check_eq_ok_iff.mpr ⟨d, hd, rfl⟩, hissues⟩

end Workflow
