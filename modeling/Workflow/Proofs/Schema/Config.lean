import Workflow.Proofs.Schema.Grammar
import Workflow.Proofs.Schema.Reading
import Workflow.Proofs.Text.Blank
import Workflow.Schema.Node

/-!
# Configurations that are accepted

The reading of a configuration accepts exactly what the grammar asks for under the kind of its node (`spec_accepts_iff`). What
the readings yield is stated where it matters which value it is: texts, labels, kinds.
-/

namespace Workflow

namespace Schema

open Reading Grammar

variable {t : Tree} {place : Place} {entries config : List (Tree × Tree)} {key : String}

/-! ## Texts -/

theorem textValue_accepts_iff : (textValue t place).Accepts ↔ IsText t := by
  simp only [Accepts, textValue_yields_iff, isBlankText_eq_false_iff, IsText]

theorem requiredText_accepts_iff (place : Place) : (requiredText entries key place).Accepts ↔ Required entries key IsText := by
  rw [requiredText, requiredField_accepts_iff]
  simp only [textValue_accepts_iff, Required]

theorem optionalText_accepts_iff (place : Place) : (optionalText entries key place).Accepts ↔ Optional entries key IsText := by
  rw [optionalText, optionalField_accepts_iff]
  simp only [textValue_accepts_iff, Grammar.Optional]

/-- A text that a configuration has to hold is accepted like any required text; only the issue of its absence differs. -/
theorem configText_accepts_iff (kind : NodeKind) (place : Place) :
    (configText kind config key place).Accepts ↔ Required config key IsText := by
  rw [configText, Required]
  cases Tree.field? key config <;> simp [missingConfig, textValue_accepts_iff]

/-- Values are all texts exactly if they are made of a list of texts. -/
theorem forall_isText_iff {ts : List Tree} :
    (∀ u ∈ ts, IsText u) ↔ ∃ texts : List String, ts = texts.map Tree.str ∧ ∀ s ∈ texts, isBlankText s = false := by
  induction ts with
  | nil => simp
  | cons t ts ih =>
    rw [List.forall_mem_cons, ih]
    simp only [IsText, ← isBlankText_eq_false_iff]
    constructor
    · intro h
      obtain ⟨⟨s, rfl, hs⟩, texts, rfl, htexts⟩ := h
      exact ⟨s :: texts, rfl, List.forall_mem_cons.mpr ⟨hs, htexts⟩⟩
    · intro h
      obtain ⟨texts, heq, htexts⟩ := h
      cases texts with
      | nil => cases heq
      | cons s texts =>
        rw [List.map_cons, List.cons.injEq] at heq
        obtain ⟨hs, hrest⟩ := List.forall_mem_cons.mp htexts
        exact ⟨⟨s, heq.1, hs⟩, texts, heq.2, hrest⟩

theorem textList_accepts_iff : (textList t place).Accepts ↔ IsTextList t := by
  simp only [Accepts, textList_yields_iff, IsTextList, forall_isText_iff]
  constructor
  · intro h
    obtain ⟨texts, rfl, htexts⟩ := h
    exact ⟨_, rfl, texts, rfl, htexts⟩
  · intro h
    obtain ⟨_, rfl, texts, rfl, htexts⟩ := h
    exact ⟨texts, rfl, htexts⟩

/-! ## Mappings -/

/-- The keys of a mapping are without error exactly if all are texts. -/
theorem keyIssues_iff {allowed : List String} {what : String} (code : IssueCode) (h : code.severity = .warning) :
    hasError (keyIssues entries allowed place code what) = false ↔ TextKeys entries :=
  hasError_keyIssues_eq_false_iff h

/-- An entry of an object is accepted exactly if its key is a text and its value has a form as a configuration value. -/
theorem configEntry_accepts_iff {e : Tree × Tree} :
    (configEntry place e).Accepts ↔ (∃ k, e.1.text? = some k) ∧ ∃ v, e.2.toJson = .ok v := by
  rw [configEntry]
  cases e.1.text? with
  | none => simp
  | some k => cases e.2.toJson <;> simp

theorem configEntries_accepts_iff :
    (configEntries entries place).Accepts ↔ TextKeys entries ∧ ∀ e ∈ entries, ∃ v, e.2.toJson = .ok v := by
  rw [configEntries, map_accepts_iff, all_accepts_iff, List.forall_mem_map]
  simp only [configEntry_accepts_iff, TextKeys]
  exact forall₂_and

/-- The readings of a field that holds an object accept exactly one. -/
theorem object_accepts_iff (place : Place) :
    ((mapping t place).andThen fun fields => configEntries fields place).Accepts ↔ IsObject t := by
  simp only [andThen_accepts_iff, mapping_yields_iff, configEntries_accepts_iff, IsObject]

/-! ## Start nodes -/

/-- The short and the long names of types are those that name one. -/
theorem ofText?_ne_none_iff {s : String} : (∃ type, FieldType.ofText? s = some type) ↔ s ∈ typeNames := by
  constructor
  · intro hx
    obtain ⟨type, h⟩ := hx
    unfold FieldType.ofText? at h
    split at h <;> first | decide | cases h
  · intro h
    simp only [typeNames, List.mem_cons, List.not_mem_nil, or_false] at h
    rcases h with rfl | rfl | rfl | rfl | rfl | rfl | rfl | rfl | rfl | rfl | rfl | rfl | rfl <;> exact ⟨_, rfl⟩

theorem inputType_accepts_iff : (inputType t place).Accepts ↔ t = .null ∨ ∃ name ∈ typeNames, t = .str name := by
  cases t with
  | null => simp [inputType]
  | str s =>
    simp only [inputType, reduceCtorEq, false_or, Tree.str.injEq, exists_eq_right', ← ofText?_ne_none_iff]
    cases FieldType.ofText? s <;> simp
  | _ => simp [inputType]

theorem input_accepts_iff {e : Tree × Tree} :
    (input place e).Accepts ↔
      (∃ k, e.1.text? = some k) ∧ (e.2 = .null ∨ ∃ name ∈ typeNames, e.2 = .str name) := by
  rw [input]
  cases e.1.text? with
  | none => simp
  | some k => simp [inputType_accepts_iff]

theorem startSpec_accepts_iff : (startSpec config place).Accepts ↔ IsConfig .start config := by
  rw [startSpec, IsConfig]
  cases Tree.field? "inputs" config with
  | none => simp
  | some t =>
    simp only [Option.some.injEq, forall_eq']
    by_cases hn : t.isNull = true
    · simp [hn]
    · simp only [hn, if_false, Bool.false_eq_true, false_or, andThen_accepts_iff, mapping_yields_iff, map_accepts_iff,
        all_accepts_iff, List.forall_mem_map, input_accepts_iff, IsInputs, TextKeys]
      exact exists_congr fun fields => and_congr_right fun _ => forall₂_and

/-! ## Nodes that call -/

/-- The prompt is read under its key, or under the outdated one if there is none. -/
theorem prompt_accepts_iff (place : Place) :
    (prompt config place).Accepts ↔ Renamed config "prompt" "prompt_template" IsText := by
  rw [prompt, Renamed]
  cases Tree.field? "prompt" config <;> cases Tree.field? "prompt_template" config <;>
    simp [textValue_accepts_iff, missingConfig]

/-- The temperature is read exactly if it is missing, null or a number, and found in range exactly if it is one from zero to
two. -/
theorem temperature_accepts_iff (place : Place) :
    (∃ x, (optionalField config "temperature" place numberValue).Yields x ∧ temperatureIssues x place = []) ↔
      Optional config "temperature" IsTemperature := by
  have hbound : 2 < leastFullMantissa := by decide
  simp only [optionalField_yields_iff, numberValue_yields_iff, Grammar.Optional]
  constructor
  · rintro ⟨x, ⟨hmissing, rfl⟩ | ⟨t, a, ht, -, ⟨n, rfl, rfl⟩, rfl⟩, hx⟩ t' ht'
    · rw [ht'] at hmissing
      exact Or.inl (by simpa using hmissing)
    · rw [ht, Option.some.injEq] at ht'
      subst ht'
      have hin : n.toDouble.within 2 = true := by
        by_contra hno
        simp [temperatureIssues, hno] at hx
      obtain ⟨q, hq, h0, h2⟩ := (Number.toDouble_within_iff hbound).mp hin
      exact Or.inr ⟨n, q, rfl, hq, h0, by exact_mod_cast h2⟩
  · intro h
    cases hf : Tree.field? "temperature" config with
    | none => exact ⟨none, Or.inl ⟨Or.inl rfl, rfl⟩, rfl⟩
    | some t =>
      rcases h t hf with rfl | ⟨n, q, rfl, hq, h0, h2⟩
      · exact ⟨none, Or.inl ⟨Or.inr rfl, rfl⟩, rfl⟩
      · have hin : n.toDouble.within 2 = true :=
          (Number.toDouble_within_iff hbound).mpr ⟨q, hq, h0, by exact_mod_cast h2⟩
        exact ⟨_, Or.inr ⟨_, _, rfl, by simp, ⟨n, rfl, rfl⟩, rfl⟩, by rw [temperatureIssues, if_pos hin]⟩

/-- A call of a language model yields what its fields yield, with a temperature in range. -/
theorem llmCallSpec_yields_iff {s : NodeSpec} :
    (llmCallSpec config place).Yields s ↔ ∃ call, s = .llmCall call ∧ (prompt config place).Yields call.prompt ∧
      (optionalText config "system" place).Yields call.system ∧ (optionalText config "model" place).Yields call.model ∧
      (optionalField config "temperature" place numberValue).Yields call.temperature ∧
      temperatureIssues call.temperature place = [] ∧ (optionalText config "output_key" place).Yields call.outputKey := by
  have hoptional : ∀ o : Option (Option Double), o.join = o.getD none := fun o => by cases o <;> rfl
  simp only [Yields, llmCallSpec, hasError_append, Bool.or_eq_false_iff, Option.ite_none_right_eq_some, List.isEmpty_iff,
    Option.bind_eq_bind, Option.pure_def, Option.bind_eq_some_iff, Option.some.injEq, hoptional]
  constructor
  · intro h
    obtain ⟨⟨hout, p, hp, sys, hsys, m, hm, x, hx, k, hk, rfl⟩, ⟨⟨⟨⟨hp', hsys'⟩, hm'⟩, hx'⟩, hk'⟩, -⟩ := h
    rw [hx, Option.getD_some] at hout
    exact ⟨⟨p, sys, m, x, k⟩, rfl, ⟨hp, hp'⟩, ⟨hsys, hsys'⟩, ⟨hm, hm'⟩, ⟨hx, hx'⟩, hout, hk, hk'⟩
  · intro h
    obtain ⟨call, rfl, ⟨hp, hp'⟩, ⟨hsys, hsys'⟩, ⟨hm, hm'⟩, ⟨hx, hx'⟩, hout, hk, hk'⟩ := h
    rw [hx, Option.getD_some, hout]
    exact ⟨⟨rfl, _, hp, _, hsys, _, hm, _, rfl, _, hk, rfl⟩, ⟨⟨⟨⟨hp', hsys'⟩, hm'⟩, hx'⟩, hk'⟩, rfl⟩

theorem llmCallSpec_accepts_iff : (llmCallSpec config place).Accepts ↔ IsConfig .llmCall config := by
  rw [IsConfig, ← prompt_accepts_iff place, ← optionalText_accepts_iff place, ← optionalText_accepts_iff place,
    ← optionalText_accepts_iff place, ← temperature_accepts_iff place]
  simp only [Accepts, llmCallSpec_yields_iff]
  constructor
  · intro h
    obtain ⟨_, call, -, hp, hsys, hm, hx, hout, hk⟩ := h
    exact ⟨⟨_, hp⟩, ⟨_, hsys⟩, ⟨_, hm⟩, ⟨_, hx, hout⟩, ⟨_, hk⟩⟩
  · intro h
    obtain ⟨⟨p, hp⟩, ⟨sys, hsys⟩, ⟨m, hm⟩, ⟨x, hx, hout⟩, ⟨k, hk⟩⟩ := h
    exact ⟨_, ⟨p, sys, m, x, k⟩, rfl, hp, hsys, hm, hx, hout, hk⟩

/-- A call of a tool yields what its fields yield. -/
theorem toolCallSpec_yields_iff {s : NodeSpec} :
    (toolCallSpec config place).Yields s ↔ ∃ tool arguments outputKey,
      s = .toolCall ⟨tool, arguments.getD [], outputKey⟩ ∧ (configText .toolCall config "tool" place).Yields tool ∧
      (optionalField config "arguments" place fun value place =>
        (mapping value place).andThen fun entries => configEntries entries place).Yields arguments ∧
      (optionalText config "output_key" place).Yields outputKey := by
  simp only [Yields, toolCallSpec, hasError_append, Bool.or_eq_false_iff, Option.bind_eq_bind, Option.pure_def,
    Option.bind_eq_some_iff, Option.some.injEq]
  constructor
  · intro h
    obtain ⟨⟨tool, ht, args, ha, k, hk, rfl⟩, ⟨ht', ha'⟩, hk'⟩ := h
    exact ⟨tool, args, k, rfl, ⟨ht, ht'⟩, ⟨ha, ha'⟩, hk, hk'⟩
  · intro h
    obtain ⟨tool, args, k, rfl, ⟨ht, ht'⟩, ⟨ha, ha'⟩, hk, hk'⟩ := h
    exact ⟨⟨tool, ht, args, ha, k, hk, rfl⟩, ⟨ht', ha'⟩, hk'⟩

theorem toolCallSpec_accepts_iff : (toolCallSpec config place).Accepts ↔ IsConfig .toolCall config := by
  have hargs : (optionalField config "arguments" place fun value place =>
      (mapping value place).andThen fun entries => configEntries entries place).Accepts ↔ _ := optionalField_accepts_iff
  simp only [object_accepts_iff] at hargs
  rw [IsConfig, ← configText_accepts_iff .toolCall place, ← optionalText_accepts_iff place, Grammar.Optional, ← hargs]
  simp only [Accepts, toolCallSpec_yields_iff]
  constructor
  · intro h
    obtain ⟨_, tool, args, k, -, ht, ha, hk⟩ := h
    exact ⟨⟨_, ht⟩, ⟨_, ha⟩, ⟨_, hk⟩⟩
  · intro h
    obtain ⟨⟨tool, ht⟩, ⟨args, ha⟩, ⟨k, hk⟩⟩ := h
    exact ⟨_, tool, args, k, rfl, ht, ha, hk⟩

/-! ## Branching nodes -/

/-- If no label has exactly one like it before it, no label has any: of the first one repeated there would be just one. -/
theorem nodup_take_of_count_ne_one {labels : List String} (h : ∀ k a, labels[k]? = some a → (labels.take k).count a ≠ 1)
    {k : Nat} (hk : k ≤ labels.length) : (labels.take k).Nodup := by
  induction k with
  | zero => simp
  | succ k ih =>
    have hprev := ih (by omega)
    have hne := h k labels[k] (List.getElem?_eq_getElem (by omega))
    have hcount := List.nodup_iff_count_le_one.mp hprev labels[k]
    have hnot : labels[k] ∉ labels.take k := by
      rw [← List.count_eq_zero]
      omega
    rw [List.take_succ_eq_append_getElem (by omega), List.nodup_append]
    refine ⟨hprev, List.nodup_singleton _, ?_⟩
    rintro a ha b hb rfl
    rw [List.mem_singleton] at hb
    exact hnot (hb ▸ ha)

/-- No label is found repeated exactly if all are different. -/
theorem repeatedLabels_eq_nil_iff {labels : List String} : repeatedLabels labels = [] ↔ labels.Nodup := by
  have hcounts : repeatedLabels labels = [] ↔ ∀ k a, labels[k]? = some a → (labels.take k).count a ≠ 1 := by
    rw [repeatedLabels, List.filterMap_eq_nil_iff]
    simp only [ite_eq_right_iff, reduceCtorEq, imp_false, Prod.forall, List.mem_zipIdx_iff_getElem?, ne_eq]
    exact forall_comm
  rw [hcounts]
  constructor
  · intro h
    have hall := nodup_take_of_count_ne_one h (Nat.le_refl _)
    rwa [List.take_length] at hall
  · intro hnd k a hk hcount
    have hmem : a ∈ labels.take k := List.count_pos_iff.mp (by omega)
    obtain ⟨j, hj, rfl⟩ := List.mem_take_iff_getElem.mp hmem
    have hlt := (List.getElem?_eq_some_iff.mp hk).1
    have heq := (List.getElem?_inj hlt hnd).mp (hk.trans (List.getElem?_eq_getElem (by omega)).symm)
    omega

/-- The labels of a branching node are at least two texts, no two alike. -/
theorem branchLabels_yields_iff {labels : List String} :
    (branchLabels t place).Yields labels ↔
      t = .seq (labels.map .str) ∧ (∀ s ∈ labels, isBlankText s = false) ∧ 2 ≤ labels.length ∧ labels.Nodup := by
  simp only [branchLabels, andThen_yields_iff, textList_yields_iff]
  constructor
  · intro hx
    obtain ⟨labels', ⟨rfl, hblank⟩, h⟩ := hx
    by_cases hlen : labels'.length < 2
    · rw [if_pos hlen] at h
      exact absurd h not_bad_yields
    · rw [if_neg hlen] at h
      by_cases hrep : (repeatedLabels labels').isEmpty = true
      · rw [if_pos hrep, good_yields_iff] at h
        subst h
        exact ⟨rfl, hblank, by omega, repeatedLabels_eq_nil_iff.mp (List.isEmpty_iff.mp hrep)⟩
      · rw [if_neg hrep] at h
        exact absurd h not_bad_yields
  · intro hx
    obtain ⟨rfl, hblank, hlen, hnd⟩ := hx
    refine ⟨labels, ⟨rfl, hblank⟩, ?_⟩
    rw [if_neg (by omega), if_pos (List.isEmpty_iff.mpr (repeatedLabels_eq_nil_iff.mpr hnd)), good_yields_iff]

theorem branchLabels_accepts_iff (place : Place) : (branchLabels t place).Accepts ↔ IsLabels t := by
  have hinj : Function.Injective Tree.str := fun a b h => Tree.str.inj h
  simp only [Accepts, branchLabels_yields_iff, IsLabels, forall_isText_iff]
  constructor
  · intro hx
    obtain ⟨labels, rfl, hblank, hlen, hnd⟩ := hx
    exact ⟨_, rfl, ⟨labels, rfl, hblank⟩, by rwa [List.length_map], hnd.map hinj⟩
  · intro hx
    obtain ⟨_, rfl, ⟨labels, rfl, hblank⟩, hlen, hnd⟩ := hx
    rw [List.length_map] at hlen
    exact ⟨labels, rfl, hblank, hlen, hnd.of_map _⟩

/-- A branching node yields its state key and its labels. -/
theorem branchSpec_yields_iff {s : NodeSpec} :
    (branchSpec config place).Yields s ↔ ∃ b, s = .conditionalBranch b ∧
      (configText .conditionalBranch config "on" place).Yields b.on ∧
      ∃ t, Tree.field? "branches" config = some t ∧ (branchLabels t (place.key "branches")).Yields b.branches := by
  simp only [Yields, branchSpec, hasError_append, Bool.or_eq_false_iff, Option.bind_eq_bind, Option.pure_def,
    Option.bind_eq_some_iff, Option.some.injEq]
  cases Tree.field? "branches" config with
  | none => simp [missingConfig, bad]
  | some t =>
    simp only [Option.some.injEq, exists_eq_left']
    constructor
    · intro h
      obtain ⟨⟨on, ho, labels, hl, rfl⟩, ho', hl'⟩ := h
      exact ⟨⟨on, labels⟩, rfl, ⟨ho, ho'⟩, hl, hl'⟩
    · intro h
      obtain ⟨b, rfl, ⟨ho, ho'⟩, hl, hl'⟩ := h
      exact ⟨⟨_, ho, _, hl, rfl⟩, ho', hl'⟩

theorem branchSpec_accepts_iff : (branchSpec config place).Accepts ↔ IsConfig .conditionalBranch config := by
  rw [IsConfig, ← configText_accepts_iff .conditionalBranch place, Required]
  simp only [← branchLabels_accepts_iff (place.key "branches")]
  simp only [Accepts, branchSpec_yields_iff]
  constructor
  · intro h
    obtain ⟨_, b, -, ho, t, ht, hl⟩ := h
    exact ⟨⟨_, ho⟩, t, ht, _, hl⟩
  · intro h
    obtain ⟨⟨on, ho⟩, t, ht, labels, hl⟩ := h
    exact ⟨_, ⟨on, labels⟩, rfl, ho, t, ht, hl⟩

/-! ## Transforming nodes and end nodes -/

theorem transformSpec_accepts_iff : (transformSpec config place).Accepts ↔ IsConfig .transform config := by
  rw [transformSpec, IsConfig, Required]
  cases Tree.field? "assign" config with
  | none => simp [missingConfig]
  | some t =>
    simp only [Option.some.injEq, exists_eq_left', ← object_accepts_iff (place.key "assign"),
      andThen_accepts_iff, mapping_yields_iff, ne_eq]
    constructor
    · intro hx
      obtain ⟨fields, rfl, h⟩ := hx
      cases fields with
      | nil => exact absurd h not_bad_accepts
      | cons e fields => exact ⟨⟨_, rfl, map_accepts_iff.mp h⟩, by simp⟩
    · intro hx
      obtain ⟨⟨fields, rfl, h⟩, hne⟩ := hx
      refine ⟨fields, rfl, ?_⟩
      cases fields with
      | nil => exact absurd rfl hne
      | cons e fields => exact map_accepts_iff.mpr h

theorem finishSpec_accepts_iff : (finishSpec config place).Accepts ↔ IsConfig .finish config := by
  rw [finishSpec, map_accepts_iff, optionalField_accepts_iff, IsConfig, Grammar.Optional]
  simp only [textList_accepts_iff]

/-! ## All kinds -/

/-- The configuration of a node is accepted exactly if its keys are texts and it is what its kind asks for. -/
theorem spec_accepts_iff (place : Place) {kind : NodeKind} :
    (spec kind config place).Accepts ↔ TextKeys config ∧ IsConfig kind config := by
  unfold spec
  rw [after_accepts_iff, keyIssues_iff .unusedConfig rfl]
  refine and_congr_right fun _ => ?_
  cases kind with
  | start => exact startSpec_accepts_iff
  | llmCall => exact llmCallSpec_accepts_iff
  | toolCall => exact toolCallSpec_accepts_iff
  | conditionalBranch => exact branchSpec_accepts_iff
  | transform => exact transformSpec_accepts_iff
  | finish => exact finishSpec_accepts_iff

/-- The configuration of a node is of the kind that was asked for. -/
theorem kind_of_spec_yields {kind : NodeKind} {s : NodeSpec} (h : (spec kind config place).Yields s) : s.kind = kind := by
  unfold spec at h
  rw [after_yields_iff] at h
  obtain ⟨-, h⟩ := h
  cases kind with
  | start =>
    simp only [startSpec] at h
    split at h
    · rw [good_yields_iff] at h
      rw [h]
      rfl
    · split at h
      · rw [good_yields_iff] at h
        rw [h]
        rfl
      · obtain ⟨fields, -, h⟩ := andThen_yields_iff.mp h
        obtain ⟨inputs, -, rfl⟩ := map_yields_iff.mp h
        rfl
  | llmCall =>
    obtain ⟨call, rfl, -⟩ := llmCallSpec_yields_iff.mp h
    rfl
  | toolCall =>
    obtain ⟨tool, args, k, rfl, -⟩ := toolCallSpec_yields_iff.mp h
    rfl
  | conditionalBranch =>
    obtain ⟨b, rfl, -⟩ := branchSpec_yields_iff.mp h
    rfl
  | transform =>
    simp only [transformSpec] at h
    split at h
    · exact absurd h not_bad_yields
    · obtain ⟨fields, -, h⟩ := andThen_yields_iff.mp h
      split at h
      · exact absurd h not_bad_yields
      · obtain ⟨assign, -, rfl⟩ := map_yields_iff.mp h
        rfl
  | finish =>
    obtain ⟨outputs, -, rfl⟩ := map_yields_iff.mp h
    rfl

/-- A branching node that was read has two labels or more, and none twice. -/
theorem labels_of_spec_yields {kind : NodeKind} {b : Branching}
    (h : (spec kind config place).Yields (.conditionalBranch b)) : 2 ≤ b.branches.length ∧ b.branches.Nodup := by
  have hk := kind_of_spec_yields h
  subst hk
  unfold spec at h
  rw [after_yields_iff] at h
  obtain ⟨b', hb, -, t, -, hlabels⟩ := branchSpec_yields_iff.mp h.2
  rw [NodeSpec.conditionalBranch.injEq] at hb
  rw [hb]
  exact (branchLabels_yields_iff.mp hlabels).2.2

end Schema

end Workflow
