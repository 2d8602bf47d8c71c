import Mathlib.Data.List.Dedup
import Workflow.Proofs.Number.Reading
import Workflow.Proofs.Schema.Faithful
import Workflow.Proofs.Schema.Parts

/-!
# How many entries are kept

A mapping becomes an object with one entry for each text among its keys, so it keeps all of its entries exactly if no two of its keys
have one text; a sequence keeps all of its items. That holds at every depth (`keepsElements_toJson`), and of everything that a node is
given as a value (`check_kept`). Keys that differ may well have one text: at the outside a text under a tag and the text itself
(`TagsApart`, `nodup_text?_iff`), further inside a text and the number or the truth value that it spells (`SpellApart`,
`nodup_keyText?_iff`). Nothing else makes two entries one.
-/

namespace Workflow

namespace Tree

/-! ## Keys with one text -/

/-- What a key with a text is: that text, a truth value, or a number whose text reads back. -/
theorem cases_of_keyText? {k : Tree} {s : String} (h : k.keyText? = some s) :
    k = .str s ∨ (∃ b : Bool, k = .bool b ∧ s = if b then "true" else "false") ∨
      ∃ n, k = .num n ∧ numeral? s.toList = some n := by
  cases k with
  | str text =>
    cases h
    exact Or.inl rfl
  | bool b =>
    cases h
    exact Or.inr (Or.inl ⟨b, rfl, rfl⟩)
  | num n =>
    refine Or.inr (Or.inr ⟨n, rfl, ?_⟩)
    cases n with
    | int n =>
      cases h
      exact numeral?_toString n
    | real x =>
      cases x with
      | finite x =>
        cases h
        exact Double.numeral?_finiteText x
      | nan => cases h
      | infinite negative => cases h
  | null => cases h
  | seq items => cases h
  | map entries => cases h
  | tagged tag value => cases h

/-- Two keys inside a value that have one text are one key, or one of them is that text. -/
theorem eq_or_str_of_keyText? {k k' : Tree} {s : String} (h : k.keyText? = some s) (h' : k'.keyText? = some s) :
    k = k' ∨ k = .str s ∨ k' = .str s := by
  have hbools : ∀ b b' : Bool, (if b then "true" else "false") = (if b' then "true" else "false") → b = b' := by decide
  have hword : ∀ (b : Bool) (n : Number), numeral? (if b then "true" else "false").toList ≠ some n := by
    intro b n hx
    cases b <;> cases hx
  rcases cases_of_keyText? h with hk | ⟨b, hk, hb⟩ | ⟨n, hk, hn⟩
  · exact Or.inr (Or.inl hk)
  · rcases cases_of_keyText? h' with hk' | ⟨b', hk', hb'⟩ | ⟨n', -, hn'⟩
    · exact Or.inr (Or.inr hk')
    · rw [hk, hk', hbools b b' (hb.symm.trans hb')]
      exact Or.inl rfl
    · rw [hb] at hn'
      exact absurd hn' (hword b n')
  · rcases cases_of_keyText? h' with hk' | ⟨b', -, hb'⟩ | ⟨n', hk', hn'⟩
    · exact Or.inr (Or.inr hk')
    · rw [hb'] at hn
      exact absurd hn (hword b' n)
    · rw [hk, hk', Option.some.inj (hn.symm.trans hn')]
      exact Or.inl rfl

/-- A key with a text is that text or carries a tag. -/
theorem eq_str_or_tagged_of_text? {k : Tree} {s : String} (h : k.text? = some s) :
    k = .str s ∨ ∃ tag value, k = .tagged tag value := by
  cases k with
  | str text =>
    cases h
    exact Or.inl rfl
  | tagged tag value => exact Or.inr ⟨tag, value, rfl⟩
  | null => cases h
  | bool b => cases h
  | num n => cases h
  | seq items => cases h
  | map entries => cases h

/-- No text among keys is what another one of them is spelled as. -/
def SpellApart (keys : List Tree) : Prop :=
  ∀ s k, .str s ∈ keys → k ∈ keys → k.keyText? = some s → k = .str s

/-- No text under a tag among keys is the text of another one of them. -/
def TagsApart (keys : List Tree) : Prop :=
  ∀ tag value k, .tagged tag value ∈ keys → k ∈ keys → k.text? = value.text? → k = .tagged tag value

/-- Inside a value, keys that all differ and have texts have different texts exactly if they are spelled apart. -/
theorem nodup_keyText?_iff {keys : List Tree} (hkeys : keys.Nodup) (htexts : ∀ k ∈ keys, k.keyText? ≠ none) :
    (keys.map keyText?).Nodup ↔ SpellApart keys := by
  constructor
  · intro hnodup s k hs hk htext
    exact List.inj_on_of_nodup_map hnodup hk hs htext
  · intro hapart
    refine hkeys.map_on fun k hk k' hk' heq => ?_
    obtain ⟨s, hs⟩ := Option.ne_none_iff_exists'.mp (htexts k hk)
    rw [hs] at heq
    rcases eq_or_str_of_keyText? hs heq.symm with hsame | rfl | rfl
    · exact hsame
    · exact (hapart s k' hk hk' heq.symm).symm
    · exact hapart s k hk' hk hs

/-- At the outside of a value, keys that all differ and have texts have different texts exactly if their tags keep them apart. -/
theorem nodup_text?_iff {keys : List Tree} (hkeys : keys.Nodup) (htexts : ∀ k ∈ keys, k.text? ≠ none) :
    (keys.map text?).Nodup ↔ TagsApart keys := by
  have htag : ∀ tag value, (tagged tag value).text? = value.text? := fun tag value => by rw [text?, text?, untagged]
  constructor
  · intro hnodup tag value k ht hk htext
    exact List.inj_on_of_nodup_map hnodup hk ht (htext.trans (htag tag value).symm)
  · intro hapart
    refine hkeys.map_on fun k hk k' hk' heq => ?_
    obtain ⟨s, hs⟩ := Option.ne_none_iff_exists'.mp (htexts k hk)
    rcases eq_str_or_tagged_of_text? hs with rfl | ⟨tag, value, rfl⟩
    · rcases eq_str_or_tagged_of_text? (heq.symm.trans hs) with rfl | ⟨tag, value, rfl⟩
      · rfl
      · exact hapart tag value _ hk' hk (heq.trans (htag tag value))
    · exact (hapart tag value k' hk hk' (heq.symm.trans (htag tag value))).symm

/-! ## Objects made of mappings -/

/-- An object holds the entries of a mapping whose keys are read as texts: one entry for each text, with what the last value under it
becomes. -/
structure HoldsEntries (read : Tree → Option String) (entries : List (Tree × Tree)) (object : Keyed Json) : Prop where
  ascending : object.Ascending
  found : ∀ name, Option.Rel (fun t v => t.toJson = .ok v) (lastUnder read name entries) (object.get? name)
  size : object.length = (entries.map fun e => read e.1).dedup.length
  whole : object.length = entries.length ↔ (entries.map fun e => read e.1).Nodup

/-- A value keeps the elements of a tree at every depth: a sequence is an array of as many values, and a mapping is an object that
holds its entries, all of them exactly if its keys, which all differ, are spelled apart. -/
structure KeepsElements (t : Tree) (v : Json) : Prop where
  sequences : ∀ path items, t.part? path = some (.seq items) →
    ∃ values, v.part? path = some (.arr values) ∧ values.length = items.length
  mappings : ∀ path entries, t.part? path = some (.map entries) →
    ∃ object, v.part? path = some (.obj object) ∧ HoldsEntries keyText? entries object ∧
      ((entries.map (·.1)).Nodup → (object.length = entries.length ↔ SpellApart (entries.map (·.1))))

/-- Keys that are read one for one have texts. -/
theorem ne_none_of_forall₂ {α : Type} {read : Tree → Option String} {entries : List (Tree × Tree)} {values : List α}
    {R : Tree × Tree → α → Prop} (h : List.Forall₂ R entries values) (hread : ∀ e v, R e v → ∃ s, read e.1 = some s) :
    ∀ k ∈ entries.map (·.1), read k ≠ none := by
  induction h with
  | nil => exact fun k hk => absurd hk List.not_mem_nil
  | cons hfirst _ ih =>
    rw [List.map_cons, List.forall_mem_cons]
    exact ⟨Option.ne_none_iff_exists'.mpr (hread _ _ hfirst), ih⟩

/-- Entries that are put one by one are held. -/
theorem holdsEntries_ofList {read : Tree → Option String} {entries : List (Tree × Tree)} {values : List (String × Json)}
    (h : List.Forall₂ (fun e v => read e.1 = some v.1 ∧ e.2.toJson = .ok v.2) entries values) :
    HoldsEntries read entries (Keyed.ofList values) := by
  have hnames : entries.map (fun e => read e.1) = (values.map Prod.fst).map some := by
    rw [List.map_map, ← List.forall₂_eq_eq_eq, List.forall₂_map_left_iff, List.forall₂_map_right_iff]
    exact h.imp fun e v hv => hv.1
  have hlength : entries.length = (entries.map fun e => read e.1).length := (List.length_map _).symm
  have hsize : (Keyed.ofList values).length = (entries.map fun e => read e.1).dedup.length := by
    rw [Keyed.length_ofList, hnames, List.dedup_map_of_injective (Option.some_injective _), List.length_map]
  refine ⟨Keyed.ascending_ofList values, fun name => ?_, hsize, ?_⟩
  · rw [Keyed.get?_ofList]
    exact lastUnder_rel h name
  · rw [hsize, hlength]
    constructor
    · intro hsame
      exact List.dedup_eq_self.mp ((List.dedup_sublist _).eq_of_length hsame)
    · intro hnodup
      rw [List.dedup_eq_self.mpr hnodup]

/-- A value that a tree becomes keeps its elements at every depth. -/
theorem keepsElements_toJson {t : Tree} {v : Json} (h : t.toJson = .ok v) : KeepsElements t v := by
  constructor
  · intro path items hp
    obtain ⟨w, hw, hj⟩ := exists_of_rel (part?_toJson h path) hp
    obtain ⟨values, rfl, hvalues⟩ := toJson_seq hj
    exact ⟨values, hw, hvalues.length_eq.symm⟩
  · intro path entries hp
    obtain ⟨w, hw, hj⟩ := exists_of_rel (part?_toJson h path) hp
    obtain ⟨values, rfl, hvalues⟩ := toJson_map hj
    have hholds := holdsEntries_ofList hvalues
    have htexts : ∀ k ∈ entries.map (·.1), k.keyText? ≠ none := ne_none_of_forall₂ hvalues fun e v hv => ⟨_, hv.1⟩
    refine ⟨_, hw, hholds, fun hkeys => ?_⟩
    rw [hholds.whole, ← nodup_keyText?_iff hkeys htexts, List.map_map]
    rfl

/-! ## The fields of a node -/

/-- A field of the node at a position of a document. -/
def nodeField? (t : Tree) (i : Nat) (key : String) : Option Tree :=
  match t with
  | .map top =>
    match field? "nodes" top with
    | some (.seq items) =>
      match items[i]? with
      | some (.map entries) => field? key entries
      | _ => none
    | _ => none
  | _ => none

/-- A field of the configuration of the node at a position of a document. -/
def configField? (t : Tree) (i : Nat) (key : String) : Option Tree :=
  match t.nodeField? i "config" with
  | some (.map config) => field? key config
  | _ => none

end Tree

/-- The object that a configuration holds under a key, if its kind takes one: what a tool is called with, or what is assigned. -/
def NodeSpec.object? : NodeSpec → Option (String × Keyed Json)
  | .toolCall call => some ("arguments", call.arguments)
  | .transform assign => some ("assign", assign)
  | _ => none

namespace Schema

open Grammar

/-- A node is given what the fields of the node at a position of a document hold. Its inputs are those of the mapping, each with the
text of its key; its object holds the entries of the mapping, and what is inside them is kept at every depth; and so is what is inside
its display value. No name is given twice and no entry is lost exactly if the tags of the keys, which all differ, keep them apart. -/
structure Keeps (t : Tree) (i : Nat) (n : Node) : Prop where
  inputs : ∀ inputs, n.spec = .start inputs →
    (∀ given, t.configField? i "inputs" = some given → given.isNull = true) ∧ inputs = [] ∨
      ∃ entries, t.configField? i "inputs" = some (.map entries) ∧ inputs.length = entries.length ∧
        (inputs.map fun f => some f.name) = entries.map (·.1.text?) ∧
        ((inputs.map (·.name)).Nodup ↔ (entries.map (·.1.text?)).Nodup) ∧
        ((entries.map (·.1)).Nodup → ((inputs.map (·.name)).Nodup ↔ Tree.TagsApart (entries.map (·.1))))
  object : ∀ key object, n.spec.object? = some (key, object) →
    (∀ given, t.configField? i key = some given → given = .null) ∧ object = [] ∨
      ∃ entries, t.configField? i key = some (.map entries) ∧ Tree.HoldsEntries Tree.text? entries object ∧
        ((entries.map (·.1)).Nodup → (object.length = entries.length ↔ Tree.TagsApart (entries.map (·.1)))) ∧
        ∀ name given v, lastUnder Tree.text? name entries = some given → object.get? name = some v → given.KeepsElements v
  display : (∀ given, t.nodeField? i "display" = some given → given = .null) ∧ n.display = none ∨
    ∃ given v, t.nodeField? i "display" = some given ∧ n.display = some v ∧ given.KeepsElements v

variable {t : Tree} {d : Document} {i : Nat} {n : Node} {entries config : List (Tree × Tree)}

/-- The node at a position of a document is read from the mapping at that position, and from the configuration in it. -/
theorem exists_fields (h : IsDocumentOf t d) (hn : d.nodes[i]? = some n) :
    ∃ entries config, (∀ key, t.nodeField? i key = Tree.field? key entries) ∧
      (∀ key, t.configField? i key = Tree.field? key config) ∧ IsNodeWith entries n ∧ IsSpecOf config n.spec := by
  obtain ⟨top, rfl, hdoc⟩ := h
  obtain ⟨_, hnodes, items, rfl, hitems⟩ := hdoc.nodes
  have hrel : ∃ item, items[i]? = some item ∧ IsNodeOf item n := by
    obtain ⟨hi, rfl⟩ := List.getElem?_eq_some_iff.mp hn
    obtain ⟨hlen, hget⟩ := List.forall₂_iff_get.mp hitems
    exact ⟨items[i], List.getElem?_eq_getElem (hlen ▸ hi), hget i (hlen ▸ hi) hi⟩
  obtain ⟨_, hitem, entries, rfl, hnode⟩ := hrel
  obtain ⟨config, hconfig, hspec⟩ := hnode.spec
  have hfield : ∀ key, (Tree.map top).nodeField? i key = Tree.field? key entries := fun key => by
    simp only [Tree.nodeField?, hnodes, hitem]
  refine ⟨entries, config, hfield, fun key => ?_, hnode, hspec⟩
  rw [Tree.configField?, hfield]
  rcases hconfig with hmap | ⟨hnone | hnull, rfl⟩
  · rw [hmap]
  · rw [hnone]
    rfl
  · rw [hnull]
    rfl

/-- Where a field that need not be there holds no value, it is missing or null. -/
theorem eq_null_of_holdsOptional {α : Type} {key : String} {form : Tree → α → Prop} (h : HoldsOptional entries key form none)
    (given : Tree) (hgiven : Tree.field? key entries = some given) : given = .null := by
  rcases h with hnone | hnull
  · rw [hnone] at hgiven
    cases hgiven
  · rw [hnull] at hgiven
    exact (Option.some.inj hgiven).symm

/-- The inputs of a configuration are those of the mapping under their key, if there is one. -/
theorem inputs_of_isSpecOf {inputs : List StateField} (h : IsSpecOf config (.start inputs)) :
    (∀ given, Tree.field? "inputs" config = some given → given.isNull = true) ∧ inputs = [] ∨
      ∃ fields, Tree.field? "inputs" config = some (.map fields) ∧
        List.Forall₂ (fun e f => e.1.text? = some f.name ∧ IsTypeOf e.2 f.type) fields inputs := by
  rcases h with ⟨hnone, rfl⟩ | ⟨given, hgiven, hinputs⟩
  · refine Or.inl ⟨fun given hgiven => ?_, rfl⟩
    rw [hnone] at hgiven
    cases hgiven
  · rcases hinputs with ⟨hnull, rfl⟩ | ⟨fields, rfl, hfields⟩
    · refine Or.inl ⟨fun given' hgiven' => ?_, rfl⟩
      rw [hgiven, Option.some.injEq] at hgiven'
      exact hgiven' ▸ hnull
    · exact Or.inr ⟨fields, hgiven, hfields⟩

/-- The object of a configuration is that of the mapping under its key, if there is one. -/
theorem object_of_isSpecOf {s : NodeSpec} {key : String} {object : Keyed Json} (h : IsSpecOf config s)
    (hobject : s.object? = some (key, object)) :
    (∀ given, Tree.field? key config = some given → given = .null) ∧ object = [] ∨
      ∃ given, Tree.field? key config = some given ∧ IsObjectOf given object := by
  cases s with
  | toolCall call =>
    cases hobject
    obtain ⟨-, ⟨o, ho, harguments⟩, -⟩ := h
    rw [harguments]
    cases o with
    | none => exact Or.inl ⟨eq_null_of_holdsOptional ho, rfl⟩
    | some object => exact Or.inr ho
  | transform assign =>
    cases hobject
    exact Or.inr h
  | start inputs => cases hobject
  | llmCall call => cases hobject
  | conditionalBranch b => cases hobject
  | finish outputs => cases hobject

/-- Every node of a checked document is given what its fields hold. -/
theorem check_kept {strict : Bool} {c : Checked} (h : check t strict = .ok c) (hn : c.document.nodes[i]? = some n) :
    Keeps t i n := by
  obtain ⟨entries, config, hfield, hconfig, hnode, hspec⟩ := exists_fields (check_faithful h).1 hn
  constructor
  · intro inputs hs
    rw [hs] at hspec
    rw [hconfig]
    refine (inputs_of_isSpecOf hspec).imp_right fun hgiven => ?_
    obtain ⟨fields, hgiven, hfields⟩ := hgiven
    have hnames : (inputs.map fun f => some f.name) = fields.map (·.1.text?) := by
      rw [eq_comm, ← List.forall₂_eq_eq_eq, List.forall₂_map_left_iff, List.forall₂_map_right_iff]
      exact hfields.imp fun e f hf => hf.1
    have hdistinct : (inputs.map (·.name)).Nodup ↔ (fields.map (·.1.text?)).Nodup := by
      rw [← hnames, ← List.nodup_map_iff (Option.some_injective String), List.map_map]
      rfl
    have htexts : ∀ k ∈ fields.map (·.1), k.text? ≠ none := Tree.ne_none_of_forall₂ hfields fun e f hf => ⟨_, hf.1⟩
    refine ⟨fields, hgiven, hfields.length_eq.symm, hnames, hdistinct, fun hkeys => ?_⟩
    rw [hdistinct, ← Tree.nodup_text?_iff hkeys htexts, List.map_map]
    rfl
  · intro key object hobject
    rw [hconfig]
    refine (object_of_isSpecOf hspec hobject).imp_right fun hgiven => ?_
    obtain ⟨_, hgiven, fields, values, rfl, rfl, hvalues⟩ := hgiven
    have hholds := Tree.holdsEntries_ofList hvalues
    have htexts : ∀ k ∈ fields.map (·.1), k.text? ≠ none := Tree.ne_none_of_forall₂ hvalues fun e v hv => ⟨_, hv.1⟩
    refine ⟨fields, hgiven, hholds, fun hkeys => ?_, fun name given v hunder hv => ?_⟩
    · rw [hholds.whole, ← Tree.nodup_text?_iff hkeys htexts, List.map_map]
      rfl
    obtain ⟨v', hv', hjson⟩ := Tree.exists_of_rel (hholds.found name) hunder
    rw [hv, Option.some.injEq] at hv'
    subst hv'
    exact Tree.keepsElements_toJson hjson
  · have hdisplay := hnode.display
    rw [hfield]
    cases hshown : n.display with
    | none =>
      rw [hshown] at hdisplay
      exact Or.inl ⟨eq_null_of_holdsOptional hdisplay, rfl⟩
    | some v =>
      rw [hshown] at hdisplay
      obtain ⟨given, hgiven, hjson⟩ := hdisplay
      exact Or.inr ⟨given, v, hgiven, rfl, Tree.keepsElements_toJson hjson⟩

/-- A workflow with keys that differ but have one text: two inputs, two arguments, and two entries inside an argument. -/
def clashing : Tree :=
  .map [(.str "name", .str "pager"), (.str "entry", .str "in"),
    (.str "nodes", .seq [
      .map [(.str "id", .str "in"), (.str "kind", .str "start"),
        (.str "config", .map [(.str "inputs", .map [
          (.str "ticket", .str "string"), (.tagged "old" (.str "ticket"), .str "integer")])])],
      .map [(.str "id", .str "page"), (.str "kind", .str "tool-call"),
        (.str "config", .map [(.str "tool", .str "pager"), (.str "arguments", .map [
          (.str "to", .map [(.num (.int 1), .str "day"), (.str "1", .str "night")]),
          (.str "level", .num (.int 1)), (.tagged "old" (.str "level"), .num (.int 2))])])],
      .map [(.str "id", .str "out"), (.str "kind", .str "end")]]),
    (.str "edges", .seq [])]

/-- The theorem at the node of that workflow that calls a tool. -/
theorem check_kept_clashing : ∃ c n, check clashing false = .ok c ∧ c.document.nodes[1]? = some n ∧ Keeps clashing 1 n := by
  have hcheck : ∃ c n, check clashing false = .ok c ∧ c.document.nodes[1]? = some n := ⟨_, _, rfl, rfl⟩
  obtain ⟨c, n, hc, hn⟩ := hcheck
  exact ⟨c, n, hc, hn, check_kept hc hn⟩

/-- The document of that workflow has two inputs of one name, two arguments where the mapping has three, and one entry inside an
argument where the mapping has two. -/
theorem clashing_merged : ∃ c first second entries inside, check clashing false = .ok c ∧
    c.document.nodes[0]? = some first ∧ first.spec = .start [⟨"ticket", .string⟩, ⟨"ticket", .integer⟩] ∧
    clashing.configField? 1 "arguments" = some (.map entries) ∧ entries.length = 3 ∧
    lastUnder Tree.text? "to" entries = some (.map inside) ∧ inside.length = 2 ∧
    c.document.nodes[1]? = some second ∧
    second.spec.object? = some ("arguments", [("level", .int 2), ("to", .obj [("1", .str "night")])]) :=
  ⟨_, _, _, _, _, rfl, rfl, rfl, rfl, rfl, rfl, rfl, rfl, rfl⟩

end Schema

end Workflow
