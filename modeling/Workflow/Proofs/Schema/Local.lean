import Workflow.Proofs.Schema.Outdated
import Workflow.Proofs.Schema.Within

/-!
# Findings are local

What the schema finds in a node, in an edge or in a field of the root is settled by that part of the document alone
(`validate_local`): whatever is wrong elsewhere neither hides nor changes it. Only ids are compared with each other.
-/

namespace Workflow

/-- The issues of a report at a place or inside it. -/
def Report.inside (r : Report) (place : Place) : List Issue := r.issues.filter fun i => decide (place <+: i.place)

namespace Tree

/-- The keys under which a field of the root is looked for. The entry has two. -/
def spellings (key : String) : List String :=
  if key ∈ ["entry", "entry_point"] then ["entry", "entry_point"] else [key]

/-- The entries of a mapping whose keys have one of the given texts, tagged or not. -/
def entriesNamed (names : List String) (entries : List (Tree × Tree)) : List (Tree × Tree) :=
  entries.filter fun e => e.1.text?.any (· ∈ names)

theorem mem_spellings (key : String) : key ∈ spellings key := by
  rw [spellings]
  split
  · next hentry => exact hentry
  · exact List.mem_singleton_self key

/-- A key is looked up among the entries of its text. -/
theorem field?_entriesNamed {names : List String} {key : String} (h : key ∈ names) (entries : List (Tree × Tree)) :
    field? key (entriesNamed names entries) = field? key entries := by
  induction entries with
  | nil => rfl
  | cons e rest ih =>
    rw [entriesNamed] at ih ⊢
    by_cases hkey : e.1.isKey key = true
    · have hnamed : e.1.text?.any (· ∈ names) = true := by
        rw [isKey_iff.mp hkey]
        exact decide_eq_true h
      rw [List.filter_cons, if_pos hnamed, field?_cons, field?_cons, if_pos hkey, if_pos hkey]
    · rw [List.filter_cons]
      split
      · rw [field?_cons, field?_cons, if_neg hkey, if_neg hkey, ih]
      · rw [field?_cons, if_neg hkey, ih]

end Tree

/-! ## Issues at a place -/

namespace AllWithin

variable {codes : IssueCode → Bool} {place inner : Place} {issues : List Issue}

theorem filter_inside (h : AllWithin codes place issues) : issues.filter (fun i => decide (place <+: i.place)) = issues :=
  List.filter_eq_self.mpr fun i hi => decide_eq_true (h i hi).2

/-- Issues at one of two places that part ways are not at the other. -/
theorem filter_outside (h : AllWithin codes inner issues) (hout : ¬place <+: inner) (hin : ¬inner <+: place) :
    issues.filter (fun i => decide (place <+: i.place)) = [] := by
  refine List.filter_eq_nil_iff.mpr fun i hi hplace => ?_
  rcases List.prefix_or_prefix_of_prefix (of_decide_eq_true hplace) (h i hi).2 with hprefix | hprefix
  · exact hout hprefix
  · exact hin hprefix

end AllWithin

/-- Every issue of a list stands in a field of the root that has one of the given names. -/
def AllAmong (names : List String) (issues : List Issue) : Prop :=
  ∀ i ∈ issues, ∃ name ∈ names, Place.root.key name <+: i.place

theorem AllWithin.among {codes : IssueCode → Bool} {name : String} {issues : List Issue}
    (h : AllWithin codes (Place.root.key name) issues) : AllAmong [name] issues :=
  fun i hi => ⟨name, List.mem_singleton_self name, (h i hi).2⟩

/-- Issues in some fields of the root are in no other. -/
theorem AllAmong.filter_eq_nil {names : List String} {issues : List Issue} (h : AllAmong names issues) {key : String}
    {place : Place} (hkey : key ∉ names) (hplace : Place.root.key key <+: place) :
    issues.filter (fun i => decide (place <+: i.place)) = [] := by
  refine List.filter_eq_nil_iff.mpr fun i hi hinside => hkey ?_
  obtain ⟨name, hname, hprefix⟩ := h i hi
  have heq := List.prefix_of_prefix_length_le (hplace.trans (of_decide_eq_true hinside)) hprefix (Nat.le_refl 1)
  rw [Place.key, Place.key, List.prefix_append_right_inj, List.cons_prefix_cons, Segment.key.injEq] at heq
  exact heq.1 ▸ hname

/-- Of what the items of a list give, that of one item is all there is if no other gives anything. -/
theorem flatMap_zipIdx_eq {α β : Type} {l : List α} {f : α × Nat → List β} {i k : Nat} {a : α} (h : l[i]? = some a)
    (hother : ∀ e, e.2 ≠ k + i → f e = []) : (l.zipIdx k).flatMap f = f (a, k + i) := by
  induction l generalizing i k with
  | nil => cases h
  | cons b l ih =>
    rw [List.zipIdx_cons, List.flatMap_cons]
    cases i with
    | zero =>
      have hrest : (l.zipIdx (k + 1)).flatMap f = [] := by
        refine List.flatMap_eq_nil_iff.mpr fun e he => hother e ?_
        have := (List.mem_zipIdx he).1
        omega
      rw [List.getElem?_cons_zero, Option.some.injEq] at h
      rw [hrest, List.append_nil, h]
      rfl
    | succ i =>
      rw [List.getElem?_cons_succ] at h
      have hne : f (b, k) = [] := hother _ (by simp only; omega)
      rw [hne, List.nil_append, ih h fun e he => hother e (by omega), Nat.add_right_comm, Nat.add_assoc]

namespace Schema

open Reading Workflow.Tree

variable {t t' u : Tree} {place : Place} {entries : List (Tree × Tree)} {ts : List Tree} {key : String} {i : Nat}

/-! ## The parts of a report -/

/-- The entry is told of under either of its names. -/
theorem among_entry (entries : List (Tree × Tree)) : AllAmong ["entry", "entry_point"] (entry entries).issues := by
  rw [entry_eq_endpoint]
  exact fun x hx => (within_endpoint hx).2

/-- Unknown keys of the root are told of at most one step away from it. -/
theorem filter_keyIssues_item {allowed : List String} {code : IssueCode} {what : String} :
    (keyIssues entries allowed Place.root code what).filter
      (fun x => decide ((Place.root.key key).item i <+: x.place)) = [] := by
  refine List.filter_eq_nil_iff.mpr fun x hx hinside => ?_
  obtain ⟨e, -, he⟩ := List.mem_flatMap.mp hx
  have hlong := (of_decide_eq_true hinside).length_le
  have hshort : x.place.length ≤ 1 := by
    rw [keyIssue] at he
    split at he
    · split at he
      · cases he
      · rw [List.mem_singleton.mp he]
        exact Nat.le_refl 1
    · rw [List.mem_singleton.mp he]
      exact Nat.zero_le 1
  exact absurd (hlong.trans hshort) (by simp [Place.item, Place.key])

/-- What is found at an item of the root's lists is found while one of the two lists is read. -/
theorem filter_document_item (hkey : key ∉ ["name", "description", "version", "entry", "entry_point"]) :
    (document (.map entries)).issues.filter (fun x => decide ((Place.root.key key).item i <+: x.place)) =
      (requiredSequence entries "nodes" Place.root nodes).issues.filter
          (fun x => decide ((Place.root.key key).item i <+: x.place)) ++
        (requiredSequence entries "edges" Place.root edges).issues.filter
          (fun x => decide ((Place.root.key key).item i <+: x.place)) := by
  have hplace := (Place.root.key key).prefix_item i
  simp only [List.mem_cons, List.not_mem_nil, or_false, not_or] at hkey
  obtain ⟨hname, hdescription, hversion, hentry, hpoint⟩ := hkey
  rw [document_map]
  simp only [List.filter_append, filter_keyIssues_item, (AllWithin.among within_requiredText).filter_eq_nil
    (mt List.mem_singleton.mp hname) hplace, (AllWithin.among within_optionalText).filter_eq_nil
    (mt List.mem_singleton.mp hdescription) hplace, (AllWithin.among within_version).filter_eq_nil
    (mt List.mem_singleton.mp hversion) hplace, (among_entry entries).filter_eq_nil (by simp [hentry, hpoint]) hplace,
    List.nil_append]

/-! ## Items -/

/-- A tree with an item under a key is a mapping with a sequence there. -/
theorem exists_of_itemsUnder (h : (t.itemsUnder key)[i]? = some u) :
    ∃ entries ts, t = .map entries ∧ field? key entries = some (.seq ts) ∧ ts[i]? = some u := by
  unfold itemsUnder at h
  split at h
  · split at h
    · exact ⟨_, _, rfl, ‹_›, h⟩
    · cases h
  · cases h

/-- Of what is found in a list, what stands at one item is what the reading of that item finds. -/
theorem inside_items {α : Type} {codes : IssueCode → Bool} {read : Nat → Tree → Place → Reading α}
    (hread : ∀ i u p, (read i u p).Within codes p)
    (h : ts[i]? = some u) :
    (items ts place read).issues.filter (fun x => decide (place.item i <+: x.place)) = (read i u (place.item i)).issues := by
  rw [items, issues_all, List.flatMap_map, List.filter_flatMap, flatMap_zipIdx_eq h, Nat.zero_add]
  · exact AllWithin.filter_inside (hread _ _ _)
  · intro e he
    have hne : e.2 ≠ i := fun heq => he (heq.trans (Nat.zero_add i).symm)
    refine AllWithin.filter_outside (hread _ _ _) ?_ ?_ <;>
      rw [Place.item, Place.item, List.prefix_append_right_inj] <;> simp [hne, Ne.symm hne]

/-- At a node the report tells that its id was there before, and what the reading of the node finds. -/
theorem inside_node (h : (t.itemsUnder "nodes")[i]? = some u) (strict : Bool) :
    ∃ earlier, (validate t strict).inside ((Place.root.key "nodes").item i) =
      repeatedIdIssues earlier i u ((Place.root.key "nodes").item i) ++ (node u ((Place.root.key "nodes").item i)).issues := by
  obtain ⟨entries, ts, rfl, hseq, hu⟩ := exists_of_itemsUnder h
  have hedges : AllAmong ["edges"] (requiredSequence entries "edges" Place.root edges).issues :=
    AllWithin.among (within_requiredSequence rfl rfl within_edges)
  have hnodes : requiredSequence entries "nodes" Place.root nodes = nodes ts (Place.root.key "nodes") :=
    requiredSequence_of_field? hseq
  refine ⟨(ts.map idText?).take i, ?_⟩
  rw [validate, Report.inside, filter_document_item (by decide),
    hedges.filter_eq_nil (by decide) ((Place.root.key "nodes").prefix_item i), List.append_nil, hnodes, nodes,
    inside_items (fun _ u p => within_nodeItem _ _ u p) hu]
  rfl

/-- At an edge the report tells what the reading of the edge finds. -/
theorem inside_edge (h : (t.itemsUnder "edges")[i]? = some u) (strict : Bool) :
    (validate t strict).inside ((Place.root.key "edges").item i) = (edge u ((Place.root.key "edges").item i)).issues := by
  obtain ⟨entries, ts, rfl, hseq, hu⟩ := exists_of_itemsUnder h
  have hnodes : AllAmong ["nodes"] (requiredSequence entries "nodes" Place.root nodes).issues :=
    AllWithin.among (within_requiredSequence rfl rfl within_nodes)
  have hedges : requiredSequence entries "edges" Place.root edges = edges ts (Place.root.key "edges") :=
    requiredSequence_of_field? hseq
  rw [validate, Report.inside, filter_document_item (by decide),
    hnodes.filter_eq_nil (by decide) ((Place.root.key "edges").prefix_item i), List.nil_append, hedges, edges,
    inside_items (fun _ => within_edge) hu]

/-! ## Fields of the root -/

/-- What is found in one field of the root is found in the entries of that field alone, for a part of the report that is about some
of the fields. -/
theorem filter_part (key : String) (entries : List (Tree × Tree)) (found : List (Tree × Tree) → List Issue)
    {names : List String} (hnames : ∀ es, AllAmong names (found es))
    (hfound : key ∈ names → found (entriesNamed (spellings key) entries) = found entries) :
    (found (entriesNamed (spellings key) entries)).filter (fun x => decide (Place.root.key key <+: x.place)) =
      (found entries).filter fun x => decide (Place.root.key key <+: x.place) := by
  by_cases hkey : key ∈ names
  · rw [hfound hkey]
  · rw [(hnames _).filter_eq_nil hkey (List.prefix_refl _), (hnames _).filter_eq_nil hkey (List.prefix_refl _)]

/-- So it is for a part of the report that reads one field. -/
theorem filter_field (key : String) (entries : List (Tree × Tree)) (found : List (Tree × Tree) → List Issue)
    {codes : IssueCode → Bool} {name : String} (hwithin : ∀ es, AllWithin codes (Place.root.key name) (found es))
    (hfound : ∀ es es', field? name es' = field? name es → found es' = found es) :
    (found (entriesNamed (spellings key) entries)).filter (fun x => decide (Place.root.key key <+: x.place)) =
      (found entries).filter fun x => decide (Place.root.key key <+: x.place) := by
  refine filter_part key entries found (fun es => (hwithin es).among) fun hkey => hfound _ _ (field?_entriesNamed ?_ entries)
  exact List.mem_singleton.mp hkey ▸ mem_spellings key

/-- An unknown key is told of in its own field. -/
theorem filter_keyIssues_field {allowed : List String} {code : IssueCode} {what : String} :
    (keyIssues (entriesNamed (spellings key) entries) allowed Place.root code what).filter
        (fun x => decide (Place.root.key key <+: x.place)) =
      (keyIssues entries allowed Place.root code what).filter fun x => decide (Place.root.key key <+: x.place) := by
  rw [keyIssues, keyIssues, List.filter_flatMap, List.filter_flatMap, entriesNamed]
  refine flatMap_filter_eq fun e _ hother => List.filter_eq_nil_iff.mpr fun x hx hinside => ?_
  have hprefix := of_decide_eq_true hinside
  rw [keyIssue] at hx
  split at hx
  · next k hk =>
    split at hx
    · cases hx
    · rw [List.mem_singleton.mp hx, Place.key, Place.key, List.prefix_append_right_inj, List.cons_prefix_cons,
        Segment.key.injEq] at hprefix
      rw [hk, Option.any_some, ← hprefix.1, decide_eq_false_iff_not] at hother
      exact hother (mem_spellings key)
  · rw [List.mem_singleton.mp hx] at hprefix
    exact absurd hprefix.length_le (by simp [Place.key, Place.root])

/-- A report tells of a field of the root what it tells of a root with that field alone. -/
theorem inside_field (entries : List (Tree × Tree)) (key : String) (strict : Bool) :
    (validate (.map (entriesNamed (spellings key) entries)) strict).inside (Place.root.key key) =
      (validate (.map entries) strict).inside (Place.root.key key) := by
  have hname := filter_field key entries (fun es => (requiredText es "name" Place.root).issues)
    (fun _ => within_requiredText) fun _ _ h => congrArg Reading.issues (requiredField_congr h)
  have hdescription := filter_field key entries (fun es => (optionalText es "description" Place.root).issues)
    (fun _ => within_optionalText) fun _ _ h => congrArg Reading.issues (optionalField_congr h)
  have hversion := filter_field key entries (fun es => (version es).issues)
    (fun _ => within_version) fun _ _ h => congrArg Reading.issues (optionalField_congr h)
  have hnodes := filter_field key entries (fun es => (requiredSequence es "nodes" Place.root nodes).issues)
    (fun _ => within_requiredSequence rfl rfl within_nodes) fun _ _ h => congrArg Reading.issues (requiredField_congr h)
  have hedges := filter_field key entries (fun es => (requiredSequence es "edges" Place.root edges).issues)
    (fun _ => within_requiredSequence rfl rfl within_edges) fun _ _ h => congrArg Reading.issues (requiredField_congr h)
  have hentry := filter_part key entries (fun es => (entry es).issues) among_entry fun hkey => by
    rw [spellings, if_pos hkey, entry, field?_entriesNamed (by decide), field?_entriesNamed (by decide), requiredText,
      requiredField, field?_entriesNamed (by decide)]
    rfl
  rw [validate, validate, Report.inside, Report.inside, document_map, document_map]
  simp only [List.filter_append, filter_keyIssues_field, hname, hdescription, hversion, hentry, hnodes, hedges]

/-! ## Two documents -/

/-- What the schema finds in a node, apart from its id having been there before, what it finds in an edge, and what it finds in a
field of the root: each is the same in any two documents that have the part in common, whatever else is in them. -/
theorem validate_local (t t' : Tree) (strict strict' : Bool) :
    (∀ i u, (t.itemsUnder "nodes")[i]? = some u → (t'.itemsUnder "nodes")[i]? = some u →
        ((validate t strict).inside ((Place.root.key "nodes").item i)).filter (·.code != .duplicateId) =
          ((validate t' strict').inside ((Place.root.key "nodes").item i)).filter (·.code != .duplicateId)) ∧
      (∀ i u, (t.itemsUnder "edges")[i]? = some u → (t'.itemsUnder "edges")[i]? = some u →
        (validate t strict).inside ((Place.root.key "edges").item i) =
          (validate t' strict').inside ((Place.root.key "edges").item i)) ∧
      ∀ entries entries' key, t = .map entries → t' = .map entries' →
        entriesNamed (spellings key) entries = entriesNamed (spellings key) entries' →
        (validate t strict).inside (Place.root.key key) = (validate t' strict').inside (Place.root.key key) := by
  refine ⟨fun i u hu hu' => ?_, fun i u hu hu' => ?_, ?_⟩
  · have hrepeated : ∀ earlier, (repeatedIdIssues earlier i u ((Place.root.key "nodes").item i)).filter
        (·.code != .duplicateId) = [] := fun earlier => by
      refine (allWithin_repeatedIdIssues earlier i u _).filter_eq_nil (· != .duplicateId) fun code hcode => ?_
      rw [bne, hcode, Bool.not_true]
    obtain ⟨earlier, hinside⟩ := inside_node hu strict
    obtain ⟨earlier', hinside'⟩ := inside_node hu' strict'
    rw [hinside, hinside', List.filter_append, List.filter_append, hrepeated, hrepeated]
  · rw [inside_edge hu, inside_edge hu']
  · rintro entries entries' key rfl rfl hsame
    rw [← inside_field, ← inside_field entries', hsame]
    rfl

/-- A node without a prompt and with a model that is no text. -/
def speechlessNode : Tree :=
  .map [(.str "id", .str "ask"), (.str "kind", .str "llm-call"), (.str "config", .map [(.str "model", .bool true)])]

/-- An edge without a target, its source under the outdated key. -/
def looseEdge : Tree := .map [(.str "from", .str "ask"), (.str "colour", .str "red")]

/-- A workflow in which little else is wrong. -/
def nearlyTidy : Tree :=
  .map [(.str "name", .str "ask"), (.str "version", .bool true), (.str "entry", .str "begin"),
    (.str "nodes", .seq [.map [(.str "id", .str "begin"), (.str "kind", .str "start")], speechlessNode]),
    (.str "edges", .seq [looseEdge])]

/-- A workflow in which everything else is wrong. -/
def untidy : Tree :=
  .map [(.null, .null), (.str "version", .bool true), (.str "name", .seq []),
    (.str "edges", .seq [looseEdge, .num (.int 7)]), (.str "nodes", .seq [.map [(.str "id", .str "ask")], speechlessNode, .null])]

/-- In both the same is found at the second node, at the first edge and at the version; in the second one the id of that node was
there before. -/
theorem validate_local_untidy :
    (nearlyTidy.itemsUnder "nodes")[1]? = some speechlessNode ∧ (untidy.itemsUnder "nodes")[1]? = some speechlessNode ∧
      ((validate nearlyTidy false).inside ((Place.root.key "nodes").item 1)).filter (·.code != .duplicateId) =
        ((validate untidy true).inside ((Place.root.key "nodes").item 1)).filter (·.code != .duplicateId) ∧
      ((validate untidy true).inside ((Place.root.key "nodes").item 1)).map (·.code) =
        [.duplicateId, .missingConfig, .invalidType] ∧
      (nearlyTidy.itemsUnder "edges")[0]? = some looseEdge ∧ (untidy.itemsUnder "edges")[0]? = some looseEdge ∧
      (validate nearlyTidy false).inside ((Place.root.key "edges").item 0) =
        (validate untidy true).inside ((Place.root.key "edges").item 0) ∧
      ((validate untidy true).inside ((Place.root.key "edges").item 0)).map (·.code) =
        [.unknownField, .deprecatedField, .missingField] ∧
      (validate nearlyTidy false).inside (Place.root.key "version") = (validate untidy true).inside (Place.root.key "version") ∧
      ((validate untidy true).inside (Place.root.key "version")).map (·.code) = [.invalidType] := by
  obtain ⟨hnodes, hedges, hfields⟩ := validate_local nearlyTidy untidy false true
  exact ⟨rfl, rfl, hnodes 1 speechlessNode rfl rfl, by decide, rfl, rfl, hedges 0 looseEdge rfl rfl, by decide,
    hfields _ _ "version" rfl rfl rfl, by decide⟩

end Schema

end Workflow
