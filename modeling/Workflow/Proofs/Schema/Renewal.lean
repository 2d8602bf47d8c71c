import Workflow.Proofs.Schema.Modern
import Workflow.Proofs.Schema.Within

/-!
# Reading a document brought up to date

A document that is read without error is read to the same value when it is brought up to date, and the issues about outdated
spellings are all that goes (`document_modern`). An error would be a different matter: it stands at the key it was found under.
-/

namespace Workflow

open IssueCode (isPlain)

/-! ## Issues that stay -/

/-- Whether an issue is about anything but an outdated spelling. -/
def Issue.isCurrent (i : Issue) : Bool := i.code != .deprecatedField

/-- Issues about single fields all stay. -/
theorem AllWithin.filter_current {place : Place} {issues : List Issue} (h : AllWithin isPlain place issues) :
    issues.filter (·.isCurrent) = issues := by
  refine List.filter_eq_self.mpr fun i hi => ?_
  have hplain := (h i hi).1
  rw [isPlain, Bool.and_eq_true] at hplain
  exact hplain.1

/-- Of issues that end in plain ones, those at the end all stay. -/
theorem AllWithin.filter_append {place : Place} {issues : List Issue} (h : AllWithin isPlain place issues)
    (before : List Issue) :
    (before ++ issues).filter (·.isCurrent) = before.filter (·.isCurrent) ++ issues := by
  rw [List.filter_append, h.filter_current]

namespace Reading

variable {α : Type}

/-- A reading without the issues about outdated spellings. -/
def current (r : Reading α) : Reading α := ⟨r.value, r.issues.filter (·.isCurrent)⟩

theorem current_mk (value : Option α) (issues : List Issue) :
    (⟨value, issues⟩ : Reading α).current = ⟨value, issues.filter (·.isCurrent)⟩ := rfl

/-- A plain reading has no such issue. -/
theorem Within.current_eq {place : Place} {r : Reading α} (h : r.Within isPlain place) : r.current = r := by
  rw [current, h.filter_current]

theorem current_after (r : Reading α) (found : List Issue) :
    (r.after found).current = r.current.after (found.filter (·.isCurrent)) := by
  rw [after, current, List.filter_append]
  rfl

theorem current_all (rs : List (Reading α)) : (all rs).current = all (rs.map current) := by
  induction rs with
  | nil => rfl
  | cons r rs ih =>
    rw [List.map_cons, all, all, ← ih, current, List.filter_append]
    rfl

end Reading

namespace Schema

open Reading Workflow.Tree

variable {t u : Tree} {place : Place} {entries entries' config : List (Tree × Tree)} {key outdated : String}

/-! ## Values that were read -/

/-- A text that was read has no issue, and reads the same at any place. -/
theorem textValue_of_yields {s : String} (h : (textValue t place).Yields s) (place' : Place) :
    textValue t place' = good s := by
  obtain ⟨rfl, hblank⟩ := textValue_yields_iff.mp h
  rw [textValue, hblank]
  rfl

/-- So does a kind. -/
theorem kindValue_of_yields {kind : NodeKind} (h : (kindValue t place).Yields kind) (place' : Place) :
    kindValue t place' = good kind := by
  rw [kindValue_yields_iff] at h
  rw [h]
  cases kind <;> rfl

/-- The reading of a text that is there. -/
theorem requiredText_of_field? (h : field? key entries = some t) :
    requiredText entries key place = textValue t (place.key key) := by
  rw [requiredText, requiredField, h]

/-- A configuration that was read has no issue. -/
theorem configMapping_of_yields (h : (configMapping entries place).Yields config) : configMapping entries place = good config := by
  rcases configMapping_yields_iff.mp h with hmap | ⟨hnone | hnull, rfl⟩
  · rw [configMapping, optionalField, hmap]
    rfl
  · rw [configMapping, optionalField, hnone]
    rfl
  · rw [configMapping, optionalField, hnull]
    rfl

/-! ## Fields that stay -/

/-- A reading of a field depends on what stands under its key. -/
theorem optionalField_congr {α : Type} {read : Tree → Place → Reading α} (h : field? key entries' = field? key entries) :
    optionalField entries' key place read = optionalField entries key place read := by
  rw [optionalField, optionalField, h]

theorem requiredField_congr {α : Type} {read : Tree → Place → Reading α} (h : field? key entries' = field? key entries) :
    requiredField entries' key place read = requiredField entries key place read := by
  rw [requiredField, requiredField, h]

theorem nodeId_congr (h : field? "id" entries' = field? "id" entries) : nodeId entries' place = nodeId entries place := by
  rw [nodeId, nodeId, h]

theorem edgeDisplayIssues_congr (h : field? "display" entries' = field? "display" entries) :
    edgeDisplayIssues entries' place = edgeDisplayIssues entries place := by
  rw [edgeDisplayIssues, edgeDisplayIssues, h]

/-! ## Fields that have an outdated key -/

/-- A text that is read under the current key or the outdated one is the same under the current key alone. -/
theorem endpoint_current {s : String} (h : (endpoint entries key outdated place).Yields s)
    (hkey : field? key entries' = (field? key entries).or (field? outdated entries)) (hout : field? outdated entries' = none) :
    endpoint entries' key outdated place = (endpoint entries key outdated place).current := by
  have hnow : endpoint entries' key outdated place = requiredText entries' key place := by
    rw [endpoint, hout]
    cases field? key entries' <;> rfl
  rw [hnow]
  cases hk : field? key entries with
  | some value =>
    have hbefore : endpoint entries key outdated place = requiredText entries key place := by rw [endpoint, hk]
    rw [hk, Option.some_or] at hkey
    rw [hbefore, within_requiredText.current_eq, requiredText_of_field? hkey, requiredText_of_field? hk]
  | none =>
    rw [hk, Option.none_or] at hkey
    cases ho : field? outdated entries with
    | some value =>
      rw [ho] at hkey
      simp only [endpoint, hk, ho] at h ⊢
      rw [current_after, requiredText_of_field? hkey, textValue_of_yields (after_yields_iff.mp h).2,
        textValue_of_yields (after_yields_iff.mp h).2]
      rfl
    | none =>
      simp only [endpoint, hk, ho] at h
      obtain ⟨value, hvalue, -⟩ := requiredField_yields_iff.mp h
      rw [hk] at hvalue
      cases hvalue

/-- The entry is read like an end of an edge. -/
theorem entry_eq_endpoint (entries : List (Tree × Tree)) : entry entries = endpoint entries "entry" "entry_point" Place.root := by
  unfold entry endpoint
  cases field? "entry" entries <;> cases field? "entry_point" entries <;> rfl

/-- A kind is the same under the current key alone. An outdated key beside the current one was without effect. -/
theorem nodeKind_current {kind : NodeKind} (h : (nodeKind entries place).Yields kind)
    (hkey : field? "kind" entries' = (field? "kind" entries).or (field? "type" entries))
    (hout : field? "type" entries' = none) : nodeKind entries' place = (nodeKind entries place).current := by
  rw [nodeKind, hkey, hout]
  cases hk : field? "kind" entries with
  | some value =>
    cases ho : field? "type" entries with
    | some _ =>
      simp only [nodeKind, hk, ho, Option.some_or] at h ⊢
      rw [kindValue_of_yields (after_yields_iff.mp h).2]
      rfl
    | none =>
      simp only [nodeKind, hk, ho, Option.some_or] at h ⊢
      rw [(within_kindValue _ _).current_eq]
  | none =>
    cases ho : field? "type" entries with
    | some value =>
      simp only [nodeKind, hk, ho, Option.none_or] at h ⊢
      rw [kindValue_of_yields (after_yields_iff.mp h).2, kindValue_of_yields (after_yields_iff.mp h).2]
      rfl
    | none => exact absurd h (by simp [nodeKind, hk, ho])

/-- And so is a prompt. -/
theorem prompt_current {s : String} (h : (prompt config place).Yields s) :
    prompt (renamed "prompt" "prompt_template" config) place = (prompt config place).current := by
  rw [prompt, field?_renamed_key (by decide), field?_renamed_outdated (by decide)]
  cases hk : field? "prompt" config with
  | some value =>
    cases ho : field? "prompt_template" config with
    | some _ =>
      simp only [prompt, hk, ho, Option.some_or] at h ⊢
      rw [textValue_of_yields (after_yields_iff.mp h).2]
      rfl
    | none =>
      simp only [prompt, hk, ho, Option.some_or] at h ⊢
      rw [(within_textValue _ _).current_eq]
  | none =>
    cases ho : field? "prompt_template" config with
    | some value =>
      simp only [prompt, hk, ho, Option.none_or] at h ⊢
      rw [textValue_of_yields (after_yields_iff.mp h).2, textValue_of_yields (after_yields_iff.mp h).2]
      rfl
    | none => exact absurd h (by simp [prompt, hk, ho, missingConfig])

/-! ## Configurations -/

/-- A call of a language model is the same with its prompt under the current key. -/
theorem llmCallSpec_current {s : NodeSpec} (h : (llmCallSpec config place).Yields s) :
    llmCallSpec (renamed "prompt" "prompt_template" config) place = (llmCallSpec config place).current := by
  obtain ⟨call, -, hprompt, -⟩ := llmCallSpec_yields_iff.mp h
  have hother : ∀ key, key ≠ "prompt" → key ≠ "prompt_template" →
      optionalText (renamed "prompt" "prompt_template" config) key place = optionalText config key place :=
    fun key hkey hout => optionalField_congr (field?_renamed_of_ne hkey hout)
  have htemperature : optionalField (renamed "prompt" "prompt_template" config) "temperature" place numberValue =
      optionalField config "temperature" place numberValue :=
    optionalField_congr (field?_renamed_of_ne (by decide) (by decide))
  have hplain : (optionalField config "temperature" place numberValue).Within isPlain (place.key "temperature") :=
    within_optionalField within_numberValue
  simp only [llmCallSpec, hother "system" (by decide) (by decide), hother "model" (by decide) (by decide),
    hother "output_key" (by decide) (by decide), htemperature, prompt_current hprompt]
  refine Eq.trans ?_ (current_mk _ _).symm
  rw [(allWithin_temperatureIssues _).filter_append, within_optionalText.filter_append, hplain.filter_append,
    within_optionalText.filter_append, within_optionalText.filter_append]
  rfl

/-- The configuration of any other node stays as it is. -/
theorem spec_current_of_ne {kind : NodeKind} (h : kind ≠ .llmCall) :
    spec kind config place = (spec kind config place).current := (plain_spec h).current_eq.symm

/-- The keys of a call of a language model are the same to the reading of its configuration. -/
theorem spec_current_llmCall {s : NodeSpec} (h : (spec .llmCall config place).Yields s) :
    spec .llmCall (renamed "prompt" "prompt_template" config) place = (spec .llmCall config place).current := by
  unfold spec at h ⊢
  rw [after_yields_iff] at h
  have hkeys : AllWithin isPlain place (keyIssues config NodeKind.llmCall.configKeys place .unusedConfig
      ("config key for a " ++ NodeKind.llmCall.text ++ " node")) := allWithin_keyIssues rfl
  rw [current_after, keyIssues_renamed (by decide) (by decide), hkeys.filter_current, ← llmCallSpec_current h.2]

/-! ## Nodes -/

/-- The entries of the configuration of a node of a given kind, brought up to date. -/
def modernConfigFields (kind : NodeKind) (config : List (Tree × Tree)) : List (Tree × Tree) :=
  if kind = .llmCall then renamed "prompt" "prompt_template" config else config

theorem spec_current {kind : NodeKind} {s : NodeSpec} (h : (spec kind config place).Yields s) :
    spec kind (modernConfigFields kind config) place = (spec kind config place).current := by
  rw [modernConfigFields]
  split
  · next hkind =>
    subst hkind
    exact spec_current_llmCall h
  · next hkind => exact spec_current_of_ne hkind

/-- The configuration of a node that was read, once it is brought up to date. -/
theorem configMapping_modernNodeFields {kind : NodeKind} (hkind : (nodeKind entries place).Yields kind)
    (h : (configMapping entries place).Yields config) :
    configMapping (modernNodeFields entries) place = good (modernConfigFields kind config) := by
  have hcalls : ((field? "kind" entries).or (field? "type" entries)).any (isKey NodeKind.llmCall.text) =
      decide (kind = .llmCall) := by
    obtain ⟨t, ht, rfl⟩ := nodeKind_yields_iff.mp hkind
    rw [ht, Option.any_some]
    cases kind <;> rfl
  have hfield : field? "config" (modernNodeFields entries) =
      if kind = .llmCall then (field? "config" entries).map modernConfig else field? "config" entries := by
    rw [field?_modernNodeFields_config, hcalls]
    simp only [decide_eq_true_eq]
  refine configMapping_of_yields (configMapping_yields_iff.mpr ?_)
  rw [hfield, modernConfigFields]
  by_cases hllm : kind = .llmCall
  · rw [if_pos hllm, if_pos hllm]
    rcases configMapping_yields_iff.mp h with hmap | ⟨hnone | hnull, rfl⟩
    · exact Or.inl (by rw [hmap]; rfl)
    · exact Or.inr ⟨Or.inl (by rw [hnone]; rfl), rfl⟩
    · exact Or.inr ⟨Or.inr (by rw [hnull]; rfl), rfl⟩
  · rw [if_neg hllm, if_neg hllm]
    exact configMapping_yields_iff.mp h

theorem keyIssues_modernNodeFields {code : IssueCode} {what : String} :
    keyIssues (modernNodeFields entries) nodeKeys place code what = keyIssues entries nodeKeys place code what := by
  rw [modernNodeFields]
  split
  · rw [keyIssues_onField, keyIssues_renamed (by decide) (by decide)]
  · rw [keyIssues_renamed (by decide) (by decide)]

/-- A node that was read is the same once it is brought up to date. -/
theorem node_current {n : Node} (h : (node u place).Yields n) :
    node (onMapping modernNodeFields u) place = (node u place).current := by
  obtain ⟨entries, kind, config, rfl, -, -, hkind, -, hconfig, hspec⟩ := node_yields_iff.mp h
  have hother : ∀ key, key ≠ "config" → key ≠ "kind" → key ≠ "type" →
      field? key (modernNodeFields entries) = field? key entries := fun key hne hkey hout => by
    rw [field?_modernNodeFields_of_ne hne, field?_renamed_of_ne hkey hout]
  have hid : nodeId (modernNodeFields entries) place = nodeId entries place :=
    nodeId_congr (hother "id" (by decide) (by decide) (by decide))
  have hkind' : nodeKind (modernNodeFields entries) place = (nodeKind entries place).current := by
    refine nodeKind_current hkind ?_ ?_
    · rw [field?_modernNodeFields_of_ne (by decide), field?_renamed_key (by decide)]
    · rw [field?_modernNodeFields_of_ne (by decide), field?_renamed_outdated (by decide)]
  have hdisplay : display (modernNodeFields entries) place = display entries place :=
    optionalField_congr (hother "display" (by decide) (by decide) (by decide))
  have hconfig' := configMapping_modernNodeFields hkind hconfig
  have hspec' : nodeSpec (modernNodeFields entries) place = (nodeSpec entries place).current := by
    have hkindValue : (nodeKind (modernNodeFields entries) place).value = some kind := by
      rw [hkind']
      exact hkind.value_eq
    have hconfigValue : (configMapping (modernNodeFields entries) place).value = some (modernConfigFields kind config) := by
      rw [hconfig']
      rfl
    rw [nodeSpec_of_value hkindValue hconfigValue, nodeSpec_of_value hkind.value_eq hconfig.value_eq, spec_current hspec]
  have hkeys : AllWithin isPlain place (keyIssues entries nodeKeys place .unknownField "node field") := allWithin_keyIssues rfl
  change node (.map (modernNodeFields entries)) place = _
  rw [node_map, node_map, hid, hkind', hdisplay, hconfig', hspec', keyIssues_modernNodeFields,
    configMapping_of_yields hconfig]
  refine Eq.trans ?_ (current_mk _ _).symm
  rw [List.filter_append, (within_good config : Within isPlain place _).filter_append, within_display.filter_append,
    List.filter_append, within_nodeId.filter_append, hkeys.filter_current]
  rfl

/-! ## Lists -/

/-- Items that are read the same but for the issues about outdated spellings make up lists that are. -/
theorem items_current {α : Type} {ts : List Tree} {item : Tree → Tree} {read read' : Nat → Tree → Place → Reading α}
    (h : ∀ i t, ts[i]? = some t → read' i (item t) (place.item i) = (read i t (place.item i)).current) :
    items (ts.map item) place read' = (items ts place read).current := by
  rw [items, items, current_all, List.zipIdx_map, List.map_map, List.map_map]
  congr 1
  refine List.map_congr_left fun x hx => ?_
  exact h x.2 x.1 (List.mem_zipIdx_iff_getElem?.mp hx)

/-- A node keeps its id text. -/
theorem idText?_modernNode (u : Tree) : idText? (onMapping modernNodeFields u) = idText? u := by
  cases u with
  | map entries =>
    have hid : field? "id" (modernNodeFields entries) = field? "id" entries := by
      rw [field?_modernNodeFields_of_ne (by decide), field?_renamed_of_ne (by decide) (by decide)]
    change (field? "id" (modernNodeFields entries)).bind _ = (field? "id" entries).bind _
    rw [hid]
  | _ => rfl

/-- An id text that is found repeated is reported the same. -/
theorem repeatedIdIssues_modernNode (earlier : List (Option String)) (position : Nat) (u : Tree) :
    repeatedIdIssues earlier position (onMapping modernNodeFields u) place =
      (repeatedIdIssues earlier position u place).filter (·.isCurrent) := by
  rw [repeatedIdIssues, repeatedIdIssues, idText?_modernNode]
  split
  · rfl
  · split <;> rfl

theorem nodes_current {ts : List Tree} {ns : List Node} (h : (nodes ts place).Yields ns) :
    nodes (ts.map (onMapping modernNodeFields)) place = (nodes ts place).current := by
  have haccepts := items_accepts_iff.mp ⟨ns, h⟩
  have htexts : (ts.map (onMapping modernNodeFields)).map idText? = ts.map idText? := by
    rw [List.map_map]
    exact List.map_congr_left fun u _ => idText?_modernNode u
  unfold nodes
  rw [htexts]
  refine items_current fun i u hu => ?_
  obtain ⟨-, n, hn⟩ := after_accepts_iff.mp (haccepts i u hu)
  rw [current_after, node_current hn, repeatedIdIssues_modernNode]

/-- An edge that was read is the same once it is brought up to date. -/
theorem edge_current {e : EdgeDecl} (h : (edge u place).Yields e) :
    edge (onMapping modernEdgeFields u) place = (edge u place).current := by
  obtain ⟨entries, rfl, -, hsource, htarget, -, -⟩ := edge_yields_iff.mp h
  have hsource' : endpoint (modernEdgeFields entries) "source" "from" place =
      (endpoint entries "source" "from" place).current := by
    refine endpoint_current hsource ?_ ?_
    · rw [modernEdgeFields, field?_renamed_of_ne (by decide) (by decide), field?_renamed_key (by decide)]
    · rw [modernEdgeFields, field?_renamed_of_ne (by decide) (by decide), field?_renamed_outdated (by decide)]
  have htarget' : endpoint (modernEdgeFields entries) "target" "to" place =
      (endpoint entries "target" "to" place).current := by
    refine endpoint_current htarget ?_ (field?_renamed_outdated (by decide))
    rw [modernEdgeFields, field?_renamed_key (by decide), field?_renamed_of_ne (by decide) (by decide),
      field?_renamed_of_ne (by decide) (by decide)]
  have hcondition : optionalText (modernEdgeFields entries) "condition" place = optionalText entries "condition" place := by
    refine optionalField_congr ?_
    rw [modernEdgeFields, field?_renamed_of_ne (by decide) (by decide), field?_renamed_of_ne (by decide) (by decide)]
  have hdisplay : edgeDisplayIssues (modernEdgeFields entries) place = edgeDisplayIssues entries place := by
    refine edgeDisplayIssues_congr ?_
    rw [modernEdgeFields, field?_renamed_of_ne (by decide) (by decide), field?_renamed_of_ne (by decide) (by decide)]
  have hkeys : AllWithin isPlain place (keyIssues entries edgeKeys place .unknownField "edge field") := allWithin_keyIssues rfl
  change edge (.map (modernEdgeFields entries)) place = _
  rw [edge_map, edge_map, hsource', htarget', hcondition, hdisplay, modernEdgeFields, keyIssues_renamed (by decide) (by decide),
    keyIssues_renamed (by decide) (by decide)]
  refine Eq.trans ?_ (current_mk _ _).symm
  rw [allWithin_edgeDisplayIssues.filter_append, within_optionalText.filter_append, List.filter_append, List.filter_append,
    hkeys.filter_current]
  rfl

theorem edges_current {ts : List Tree} {es : List EdgeDecl} (h : (edges ts place).Yields es) :
    edges (ts.map (onMapping modernEdgeFields)) place = (edges ts place).current := by
  have haccepts := items_accepts_iff.mp ⟨es, h⟩
  refine items_current fun i u hu => ?_
  obtain ⟨e, he⟩ := haccepts i u hu
  exact edge_current he

/-! ## The document -/

/-- A sequence that was read is the same with its items brought up to date. -/
theorem requiredSequence_current {α : Type} {read : List Tree → Place → Reading α} {item : Tree → Tree} {a : α}
    (h : (requiredSequence entries key place read).Yields a)
    (hfield : field? key entries' = (field? key entries).map (onItems item))
    (hread : ∀ ts, (read ts (place.key key)).Yields a → read (ts.map item) (place.key key) = (read ts (place.key key)).current) :
    requiredSequence entries' key place read = (requiredSequence entries key place read).current := by
  obtain ⟨ts, hts, ha⟩ := requiredSequence_yields_iff.mp h
  rw [hts] at hfield
  rw [requiredSequence_of_field? hfield, requiredSequence_of_field? hts, hread ts ha]

/-- A document that was read is the same once it is brought up to date. -/
theorem document_modern {d : Document} (h : (document t).Yields d) : document t.modern = (document t).current := by
  obtain ⟨entries, rfl, -, -, -, -, hentry, hnodes, hedges⟩ := document_yields_iff.mp h
  have hother : ∀ key, key ≠ "nodes" → key ≠ "edges" →
      field? key (modernFields entries) = field? key (renamed "entry" "entry_point" entries) := fun key hns hes => by
    rw [modernFields, field?_onField_of_ne hes, field?_onField_of_ne hns]
  have hname : requiredText (modernFields entries) "name" Place.root = requiredText entries "name" Place.root :=
    requiredField_congr (by rw [hother _ (by decide) (by decide), field?_renamed_of_ne (by decide) (by decide)])
  have hdescription : optionalText (modernFields entries) "description" Place.root =
      optionalText entries "description" Place.root :=
    optionalField_congr (by rw [hother _ (by decide) (by decide), field?_renamed_of_ne (by decide) (by decide)])
  have hversion : version (modernFields entries) = version entries :=
    optionalField_congr (by rw [hother _ (by decide) (by decide), field?_renamed_of_ne (by decide) (by decide)])
  have hentry' : entry (modernFields entries) = (entry entries).current := by
    rw [entry_eq_endpoint] at hentry
    rw [entry_eq_endpoint, entry_eq_endpoint]
    refine endpoint_current hentry ?_ ?_
    · rw [hother _ (by decide) (by decide), field?_renamed_key (by decide)]
    · rw [hother _ (by decide) (by decide), field?_renamed_outdated (by decide)]
  have hnodes' : requiredSequence (modernFields entries) "nodes" Place.root nodes =
      (requiredSequence entries "nodes" Place.root nodes).current := by
    refine requiredSequence_current hnodes ?_ fun ts hts => nodes_current hts
    rw [modernFields, field?_onField_of_ne (by decide), field?_onField_self, field?_renamed_of_ne (by decide) (by decide)]
  have hedges' : requiredSequence (modernFields entries) "edges" Place.root edges =
      (requiredSequence entries "edges" Place.root edges).current := by
    refine requiredSequence_current hedges ?_ fun ts hts => edges_current hts
    rw [modernFields, field?_onField_self, field?_onField_of_ne (by decide), field?_renamed_of_ne (by decide) (by decide)]
  have hkeys : keyIssues (modernFields entries) documentKeys Place.root .unknownField "top-level field" =
      keyIssues entries documentKeys Place.root .unknownField "top-level field" := by
    rw [modernFields, keyIssues_onField, keyIssues_onField, keyIssues_renamed (by decide) (by decide)]
  have hplain : AllWithin isPlain Place.root (keyIssues entries documentKeys Place.root .unknownField "top-level field") :=
    allWithin_keyIssues rfl
  change document (.map (modernFields entries)) = _
  rw [document_map, document_map, hname, hdescription, hversion, hentry', hnodes', hedges', hkeys]
  refine Eq.trans ?_ (current_mk _ _).symm
  rw [List.filter_append, List.filter_append, List.filter_append, within_version.filter_append, within_optionalText.filter_append,
    within_requiredText.filter_append, hplain.filter_current]
  rfl

end Schema

end Workflow
