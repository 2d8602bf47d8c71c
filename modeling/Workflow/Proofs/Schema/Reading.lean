import Mathlib.Data.List.Forall2
import Workflow.Schema.Reading

/-!
# What a reading yields

A reading yields a value if it has the value and none of its issues is an error; warnings do not count. A reading is reported if
it never lacks a value without an error. Both are stated for the ways to put readings together, then for the readings of single
fields.
-/

namespace Workflow

/-! ## Errors among issues -/

attribute [simp] IssueCode.severity

/-- Whether an issue is an error is settled by its code. -/
@[simp] theorem isError_mk (code : IssueCode) (place : Place) (message : String) :
    (⟨code, place, message⟩ : Issue).isError = (code.severity == .error) := rfl

@[simp] theorem hasError_nil : hasError [] = false := rfl

@[simp] theorem hasError_singleton (i : Issue) : hasError [i] = i.isError := by
  rw [hasError, List.any_cons, List.any_nil, Bool.or_false]

@[simp] theorem hasError_append (a b : List Issue) : hasError (a ++ b) = (hasError a || hasError b) :=
  List.any_append

/-- Issues that are gathered item by item hold no error exactly if those of no item do. -/
theorem hasError_flatMap_eq_false_iff {α : Type} {f : α → List Issue} {l : List α} :
    hasError (l.flatMap f) = false ↔ ∀ a ∈ l, hasError (f a) = false := by
  rw [hasError, List.any_flatMap, List.any_eq_false]
  simp only [Bool.not_eq_true, hasError]

namespace Reading

variable {α β : Type}

/-- A reading yields a value: it has the value, and none of its issues is an error. -/
def Yields (r : Reading α) (a : α) : Prop := r.value = some a ∧ hasError r.issues = false

/-- A reading yields some value. -/
def Accepts (r : Reading α) : Prop := ∃ a, r.Yields a

/-- If a reading has no value, one of its issues is an error. -/
def Reported (r : Reading α) : Prop := r.value = none → hasError r.issues = true

/-! ## Readings put together -/

/-- What a reading yields is its value. -/
theorem Yields.value_eq {r : Reading α} {a : α} (h : r.Yields a) : r.value = some a := h.1

/-- A reading that is reported and finds no error has a value. -/
theorem Reported.accepts_iff {r : Reading α} (h : r.Reported) : r.Accepts ↔ hasError r.issues = false := by
  constructor
  · intro hx
    obtain ⟨a, -, hno⟩ := hx
    exact hno
  · intro hno
    cases hv : r.value with
    | none => exact absurd (h hv) (by rw [hno]; exact Bool.false_ne_true)
    | some a => exact ⟨a, hv, hno⟩

/-- A reading is reported exactly if it yields a value wherever it finds no error. -/
theorem reported_iff {r : Reading α} : r.Reported ↔ (hasError r.issues = false → ∃ a, r.Yields a) := by
  constructor
  · intro h
    exact h.accepts_iff.mpr
  · intro h hv
    cases hno : hasError r.issues with
    | true => rfl
    | false =>
      obtain ⟨a, ha, -⟩ := h hno
      rw [hv] at ha
      cases ha

@[simp] theorem good_yields_iff {a b : α} : (good a).Yields b ↔ b = a := by
  rw [Yields, good, Option.some.injEq, hasError_nil, eq_comm]
  exact and_iff_left rfl

@[simp] theorem good_accepts (a : α) : (good a).Accepts := ⟨a, good_yields_iff.mpr rfl⟩

theorem reported_good (a : α) : (good a).Reported := fun h => absurd h (Option.some_ne_none a)

@[simp] theorem not_bad_yields {code : IssueCode} {place : Place} {message : String} {a : α} :
    ¬(bad code place message).Yields a := fun h => absurd h.1.symm (Option.some_ne_none a)

@[simp] theorem not_bad_accepts {code : IssueCode} {place : Place} {message : String} :
    ¬(bad code place message : Reading α).Accepts := fun ⟨_, h⟩ => not_bad_yields h

/-- A reading that failed with an error is reported. -/
theorem reported_bad {code : IssueCode} (h : code.severity = .error) (place : Place) (message : String) :
    (bad code place message : Reading α).Reported := by
  intro _
  rw [bad, hasError_singleton, isError_mk, h]
  rfl

@[simp] theorem map_yields_iff {f : α → β} {r : Reading α} {b : β} :
    (r.map f).Yields b ↔ ∃ a, r.Yields a ∧ f a = b := by
  rw [Yields, map, Option.map_eq_some_iff]
  constructor
  · intro h
    obtain ⟨⟨a, ha, hab⟩, hno⟩ := h
    exact ⟨a, ⟨ha, hno⟩, hab⟩
  · intro h
    obtain ⟨a, ⟨ha, hno⟩, hab⟩ := h
    exact ⟨⟨a, ha, hab⟩, hno⟩

@[simp] theorem map_accepts_iff {f : α → β} {r : Reading α} : (r.map f).Accepts ↔ r.Accepts := by
  simp only [Accepts, map_yields_iff]
  exact ⟨fun ⟨_, a, ha, _⟩ => ⟨a, ha⟩, fun ⟨a, ha⟩ => ⟨f a, a, ha, rfl⟩⟩

theorem Reported.map {r : Reading α} (h : r.Reported) (f : α → β) : (r.map f).Reported :=
  fun hv => h (Option.map_eq_none_iff.mp hv)

@[simp] theorem after_yields_iff {found : List Issue} {r : Reading α} {a : α} :
    (r.after found).Yields a ↔ hasError found = false ∧ r.Yields a := by
  rw [Yields, after, hasError_append, Bool.or_eq_false_iff, Yields]
  exact and_left_comm

@[simp] theorem after_accepts_iff {found : List Issue} {r : Reading α} :
    (r.after found).Accepts ↔ hasError found = false ∧ r.Accepts := by
  simp only [Accepts, after_yields_iff, exists_and_left]

theorem Reported.after {r : Reading α} (h : r.Reported) (found : List Issue) : (r.after found).Reported := by
  intro hv
  rw [Reading.after, hasError_append, h hv, Bool.or_true]

@[simp] theorem andThen_yields_iff {r : Reading α} {next : α → Reading β} {b : β} :
    (r.andThen next).Yields b ↔ ∃ a, r.Yields a ∧ (next a).Yields b := by
  rw [andThen]
  cases hv : r.value with
  | none =>
    simp only [Yields, hv, reduceCtorEq, false_and, exists_false]
  | some a =>
    rw [after_yields_iff]
    constructor
    · intro h
      obtain ⟨hno, hb⟩ := h
      exact ⟨a, ⟨hv, hno⟩, hb⟩
    · intro h
      obtain ⟨a', ⟨ha, hno⟩, hb⟩ := h
      rw [hv, Option.some.injEq] at ha
      exact ⟨hno, ha ▸ hb⟩

@[simp] theorem andThen_accepts_iff {r : Reading α} {next : α → Reading β} :
    (r.andThen next).Accepts ↔ ∃ a, r.Yields a ∧ (next a).Accepts := by
  simp only [Accepts, andThen_yields_iff]
  exact ⟨fun ⟨b, a, ha, hb⟩ => ⟨a, ha, b, hb⟩, fun ⟨a, ha, b, hb⟩ => ⟨b, a, ha, hb⟩⟩

theorem Reported.andThen {r : Reading α} (h : r.Reported) {next : α → Reading β} (hnext : ∀ a, (next a).Reported) :
    (r.andThen next).Reported := by
  rw [Reading.andThen]
  cases hv : r.value with
  | none => exact fun _ => h hv
  | some a => exact (hnext a).after r.issues

/-- Readings of a list yield the values that each of them yields. -/
theorem all_yields_iff {rs : List (Reading α)} {as : List α} : (all rs).Yields as ↔ List.Forall₂ Yields rs as := by
  induction rs generalizing as with
  | nil => rw [all, good_yields_iff, List.forall₂_nil_left_iff]
  | cons r rs ih =>
    have hall : (all (r :: rs)).Yields as ↔ ∃ a rest, r.Yields a ∧ (all rs).Yields rest ∧ as = a :: rest := by
      simp only [all, Yields, hasError_append, Bool.or_eq_false_iff, Option.bind_eq_bind, Option.pure_def,
        Option.bind_eq_some_iff, Option.some.injEq]
      constructor
      · intro h
        obtain ⟨⟨a, ha, rest, hrest, rfl⟩, hno, hnorest⟩ := h
        exact ⟨a, rest, ⟨ha, hno⟩, ⟨hrest, hnorest⟩, rfl⟩
      · intro h
        obtain ⟨a, rest, ⟨ha, hno⟩, ⟨hrest, hnorest⟩, rfl⟩ := h
        exact ⟨⟨a, ha, rest, hrest, rfl⟩, hno, hnorest⟩
    rw [hall, List.forall₂_cons_left_iff]
    simp only [ih]

/-- Readings of a list are accepted exactly if each of them is. -/
theorem all_accepts_iff {rs : List (Reading α)} : (all rs).Accepts ↔ ∀ r ∈ rs, r.Accepts := by
  simp only [Accepts, all_yields_iff]
  induction rs with
  | nil => simp
  | cons r rs ih =>
    simp only [List.forall₂_cons_left_iff, List.forall_mem_cons, ← ih]
    constructor
    · intro h
      obtain ⟨as, a, rest, ha, hrest, -⟩ := h
      exact ⟨⟨a, ha⟩, rest, hrest⟩
    · intro h
      obtain ⟨⟨a, ha⟩, rest, hrest⟩ := h
      exact ⟨_, a, rest, ha, hrest, rfl⟩

theorem reported_all {rs : List (Reading α)} (h : ∀ r ∈ rs, r.Reported) : (all rs).Reported := by
  induction rs with
  | nil => exact reported_good []
  | cons r rs ih =>
    intro hv
    rw [all, hasError_append, Bool.or_eq_true]
    simp only [all, Option.bind_eq_bind, Option.pure_def, Option.bind_eq_none_iff, reduceCtorEq, imp_false] at hv
    cases hr : r.value with
    | none => exact Or.inl (h r List.mem_cons_self hr)
    | some a =>
      refine Or.inr (ih (fun r' hr' => h r' (List.mem_cons_of_mem _ hr')) ?_)
      exact Option.eq_none_iff_forall_ne_some.mpr fun rest hrest => hv a hr rest hrest

end Reading

/-- A relation that leaves the positions of the items aside. -/
theorem forall₂_zipIdx_iff {α β : Type} {R : α → β → Prop} {as : List α} {bs : List β} :
    List.Forall₂ (fun x b => R x.1 b) as.zipIdx bs ↔ List.Forall₂ R as bs := by
  have h := List.forall₂_map_left_iff (f := Prod.fst) (R := R) (l := as.zipIdx) (u := bs)
  rw [List.zipIdx_map_fst] at h
  exact h.symm

namespace Schema

open Reading

variable {α : Type} {t : Tree} {place : Place} {entries : List (Tree × Tree)} {key : String}

/-! ## Single values -/

@[simp] theorem mapping_yields_iff {fields : List (Tree × Tree)} :
    (mapping t place).Yields fields ↔ t = .map fields := by
  cases t <;> simp [mapping, eq_comm]

theorem reported_mapping (t : Tree) (place : Place) : (mapping t place).Reported := by
  cases t <;> first | exact reported_good _ | exact reported_bad rfl _ _

@[simp] theorem textValue_yields_iff {s : String} :
    (textValue t place).Yields s ↔ t = .str s ∧ isBlankText s = false := by
  cases t with
  | str s' =>
    rw [textValue]
    by_cases hb : isBlankText s' = true
    · rw [if_pos hb]
      simp only [not_bad_yields, Tree.str.injEq, false_iff]
      intro h
      obtain ⟨rfl, hno⟩ := h
      rw [hb] at hno
      cases hno
    · rw [if_neg hb, good_yields_iff, Tree.str.injEq]
      constructor
      · rintro rfl
        exact ⟨rfl, Bool.not_eq_true _ ▸ hb⟩
      · intro h
        obtain ⟨rfl, -⟩ := h
        rfl
  | _ => simp [textValue]

theorem reported_textValue (t : Tree) (place : Place) : (textValue t place).Reported := by
  unfold textValue
  split
  · split
    · exact reported_bad rfl _ _
    · exact reported_good _
  · exact reported_bad rfl _ _

@[simp] theorem numberValue_yields_iff {x : Double} :
    (numberValue t place).Yields x ↔ ∃ n, t = .num n ∧ n.toDouble = x := by
  cases t <;> simp [numberValue, eq_comm]

theorem reported_numberValue (t : Tree) (place : Place) : (numberValue t place).Reported := by
  cases t <;> first | exact reported_good _ | exact reported_bad rfl _ _

/-! ## Fields -/

/-- A required field yields what its reading yields there. -/
@[simp] theorem requiredField_yields_iff {read : Tree → Place → Reading α} {a : α} :
    (requiredField entries key place read).Yields a ↔
      ∃ t, Tree.field? key entries = some t ∧ (read t (place.key key)).Yields a := by
  rw [requiredField]
  cases Tree.field? key entries <;> simp

/-- A required field is accepted exactly if it is there and accepted by its reading. -/
@[simp] theorem requiredField_accepts_iff {read : Tree → Place → Reading α} :
    (requiredField entries key place read).Accepts ↔
      ∃ t, Tree.field? key entries = some t ∧ (read t (place.key key)).Accepts := by
  simp only [Accepts, requiredField_yields_iff]
  exact ⟨fun ⟨a, t, ht, ha⟩ => ⟨t, ht, a, ha⟩, fun ⟨t, ht, a, ha⟩ => ⟨a, t, ht, ha⟩⟩

theorem reported_requiredField {read : Tree → Place → Reading α} (h : ∀ t p, (read t p).Reported) :
    (requiredField entries key place read).Reported := by
  rw [requiredField]
  split
  · exact reported_bad rfl _ _
  · exact h _ _

/-- An optional field yields nothing where it is missing or null, and else what its reading yields there. -/
theorem optionalField_yields_iff {read : Tree → Place → Reading α} {o : Option α} :
    (optionalField entries key place read).Yields o ↔
      ((Tree.field? key entries = none ∨ Tree.field? key entries = some .null) ∧ o = none) ∨
        ∃ t a, Tree.field? key entries = some t ∧ t ≠ .null ∧ (read t (place.key key)).Yields a ∧ o = some a := by
  rw [optionalField]
  cases hf : Tree.field? key entries with
  | none => simp
  | some t =>
    cases t <;> simp [eq_comm]

/-- An optional field is accepted exactly if it is missing, null or accepted by its reading. -/
theorem optionalField_accepts_iff {read : Tree → Place → Reading α} :
    (optionalField entries key place read).Accepts ↔
      ∀ t, Tree.field? key entries = some t → t = .null ∨ (read t (place.key key)).Accepts := by
  simp only [Accepts, optionalField_yields_iff]
  constructor
  · rintro ⟨o, ⟨hmissing, -⟩ | ⟨t, a, ht, -, ha, -⟩⟩ t' ht'
    · rw [ht'] at hmissing
      exact Or.inl (by simpa using hmissing)
    · rw [ht, Option.some.injEq] at ht'
      exact Or.inr ⟨a, ht' ▸ ha⟩
  · intro h
    cases hf : Tree.field? key entries with
    | none => exact ⟨none, Or.inl ⟨Or.inl rfl, rfl⟩⟩
    | some t =>
      by_cases hn : t = .null
      · exact ⟨none, Or.inl ⟨Or.inr (by rw [hn]), rfl⟩⟩
      · obtain ⟨a, ha⟩ := (h t hf).resolve_left hn
        exact ⟨some a, Or.inr ⟨t, a, rfl, hn, ha, rfl⟩⟩

theorem reported_optionalField {read : Tree → Place → Reading α} (h : ∀ t p, (read t p).Reported) :
    (optionalField entries key place read).Reported := by
  rw [optionalField]
  split
  · exact reported_good _
  · exact reported_good _
  · exact (h _ _).map some

/-- A required sequence yields what its reading yields of the items. -/
@[simp] theorem requiredSequence_yields_iff {read : List Tree → Place → Reading α} {a : α} :
    (requiredSequence entries key place read).Yields a ↔
      ∃ ts, Tree.field? key entries = some (.seq ts) ∧ (read ts (place.key key)).Yields a := by
  rw [requiredSequence, requiredField_yields_iff]
  constructor
  · intro h
    obtain ⟨t, ht, ha⟩ := h
    split at ha
    · exact ⟨_, ht, ha⟩
    · exact absurd ha not_bad_yields
  · intro h
    obtain ⟨ts, ht, ha⟩ := h
    exact ⟨.seq ts, ht, ha⟩

/-- A required sequence is accepted exactly if it is there and its items are accepted by its reading. -/
@[simp] theorem requiredSequence_accepts_iff {read : List Tree → Place → Reading α} :
    (requiredSequence entries key place read).Accepts ↔
      ∃ ts, Tree.field? key entries = some (.seq ts) ∧ (read ts (place.key key)).Accepts := by
  simp only [Accepts, requiredSequence_yields_iff]
  exact ⟨fun ⟨a, ts, ht, ha⟩ => ⟨ts, ht, a, ha⟩, fun ⟨ts, ht, a, ha⟩ => ⟨a, ts, ht, ha⟩⟩

theorem reported_requiredSequence {read : List Tree → Place → Reading α} (h : ∀ ts p, (read ts p).Reported) :
    (requiredSequence entries key place read).Reported := by
  refine reported_requiredField fun t p => ?_
  split
  · exact h _ _
  · exact reported_bad rfl _ _

/-! ## Sequences -/

/-- The items of a sequence yield the values that each yields at its position. -/
theorem items_yields_iff {ts : List Tree} {read : Nat → Tree → Place → Reading α} {as : List α} :
    (items ts place read).Yields as ↔
      List.Forall₂ (fun x a => (read x.2 x.1 (place.item x.2)).Yields a) ts.zipIdx as := by
  rw [items, all_yields_iff, List.forall₂_map_left_iff]

/-- Each value that the items of a sequence yield is that of some item. -/
theorem exists_of_mem_items {ts : List Tree} {read : Nat → Tree → Place → Reading α} {as : List α}
    (h : (items ts place read).Yields as) {a : α} (ha : a ∈ as) :
    ∃ i t, ts[i]? = some t ∧ (read i t (place.item i)).Yields a := by
  obtain ⟨hlen, hget⟩ := List.forall₂_iff_get.mp (items_yields_iff.mp h)
  obtain ⟨i, hi, rfl⟩ := List.mem_iff_getElem.mp ha
  have hz : i < ts.zipIdx.length := by omega
  have hlt : i < ts.length := by rwa [List.length_zipIdx] at hz
  have hyields := hget i hz hi
  simp only [List.get_eq_getElem, List.getElem_zipIdx, Nat.zero_add] at hyields
  exact ⟨i, ts[i], List.getElem?_eq_getElem hlt, hyields⟩

/-- The items of a sequence are accepted exactly if each is at its position. -/
theorem items_accepts_iff {ts : List Tree} {read : Nat → Tree → Place → Reading α} :
    (items ts place read).Accepts ↔ ∀ i t, ts[i]? = some t → (read i t (place.item i)).Accepts := by
  rw [items, all_accepts_iff, List.forall_mem_map]
  simp only [Prod.forall, List.mem_zipIdx_iff_getElem?]
  exact forall_comm

theorem reported_items {ts : List Tree} {read : Nat → Tree → Place → Reading α} (h : ∀ i t p, (read i t p).Reported) :
    (items ts place read).Reported := by
  refine reported_all fun r hr => ?_
  obtain ⟨x, -, rfl⟩ := List.mem_map.mp hr
  exact h _ _ _

/-- A list of texts yields the texts of a sequence none of which is blank. -/
theorem textList_yields_iff {texts : List String} :
    (textList t place).Yields texts ↔ t = .seq (texts.map .str) ∧ ∀ s ∈ texts, isBlankText s = false := by
  cases t with
  | seq ts =>
    simp only [textList, items_yields_iff, textValue_yields_iff, Tree.seq.injEq]
    rw [forall₂_zipIdx_iff (R := fun t s => t = Tree.str s ∧ isBlankText s = false)]
    induction ts generalizing texts with
    | nil => cases texts <;> simp
    | cons t ts ih =>
      cases texts with
      | nil => simp
      | cons s texts =>
        rw [List.forall₂_cons, ih, List.map_cons, List.cons.injEq, List.forall_mem_cons]
        exact and_and_and_comm
  | _ => simp [textList]

theorem reported_textList (t : Tree) (place : Place) : (textList t place).Reported := by
  unfold textList
  split
  · exact reported_items fun _ => reported_textValue
  · exact reported_bad rfl _ _

/-! ## Keys -/

/-- The keys of a mapping are without error exactly if all are texts; unknown ones are warned of. -/
theorem hasError_keyIssues_eq_false_iff {allowed : List String} {code : IssueCode} {what : String}
    (h : code.severity = .warning) :
    hasError (keyIssues entries allowed place code what) = false ↔ ∀ e ∈ entries, ∃ k, e.1.text? = some k := by
  rw [keyIssues, hasError_flatMap_eq_false_iff]
  refine forall₂_congr fun e _ => ?_
  rw [keyIssue]
  cases e.1.text? with
  | none => simp
  | some k =>
    refine iff_of_true ?_ ⟨k, rfl⟩
    by_cases hk : k ∈ allowed
    · simp [hk]
    · simp only [hk, if_false, hasError_singleton, isError_mk, h]
      rfl

end Schema

end Workflow
