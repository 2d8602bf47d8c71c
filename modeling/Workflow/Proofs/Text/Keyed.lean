import Mathlib.Data.List.Dedup
import Mathlib.Data.Option.Basic
import Mathlib.Data.String.Basic
import Workflow.Text.Keyed

/-!
# Looking up entries under text keys

What is found under a key after a value has been put, and what entries come to that are put one by one: the keys ascend, so there is
one for each text (`length_ofList`), and under each the last of the values is found (`get?_ofList`).
-/

namespace Workflow

/-- The value of the last entry whose key is read as a name. -/
def lastUnder {κ α : Type} (read : κ → Option String) (name : String) : List (κ × α) → Option α
  | [] => none
  | (k, a) :: rest => (lastUnder read name rest).or (if read k = some name then some a else none)

namespace Keyed

variable {α : Type} {map : Keyed α} {key : String} {value : α}

/-! ## Putting a value -/

/-- What is found among entries is the first of them or comes after it. -/
theorem get?_cons (k key : String) (value : α) (rest : Keyed α) :
    get? ((key, value) :: rest) k = if k = key then some value else rest.get? k := by
  rw [get?, List.find?_cons]
  by_cases hk : k = key
  · rw [if_pos hk, hk]
    simp only [beq_self_eq_true, Option.map_some]
  · rw [if_neg hk, beq_eq_false_iff_ne.mpr (Ne.symm hk)]
    rfl

/-- A value that is put under a key is found there, and nothing else changes. -/
theorem get?_put (map : Keyed α) (key k : String) (value : α) :
    (put key value map).get? k = if k = key then some value else map.get? k := by
  induction map with
  | nil => exact get?_cons k key value []
  | cons entry rest ih =>
    obtain ⟨k', v⟩ := entry
    rw [put]
    split
    · exact get?_cons k key value _
    · split
      · next heq => rw [get?_cons, get?_cons, heq]; split <;> rfl
      · next hne =>
        rw [get?_cons, get?_cons, ih]
        by_cases hk : k = k'
        · have hkey : k ≠ key := fun hkey => hne (hkey.symm.trans hk)
          rw [if_pos hk, if_neg hkey, if_pos hk]
        · rw [if_neg hk, if_neg hk]

/-- What is found under a key is there. -/
theorem mem_of_get? (h : map.get? key = some value) : (key, value) ∈ map := by
  obtain ⟨⟨k, v⟩, hfound, rfl⟩ := Option.map_eq_some_iff.mp h
  have hkey := List.find?_some hfound
  rw [beq_iff_eq] at hkey
  exact hkey ▸ List.mem_of_find?_eq_some hfound

/-- Under keys that are all different, each value is found. -/
theorem get?_of_mem (hkeys : (map.map Prod.fst).Nodup) (h : (key, value) ∈ map) : map.get? key = some value := by
  induction map with
  | nil => exact absurd h List.not_mem_nil
  | cons first rest ih =>
    rw [List.map_cons, List.nodup_cons] at hkeys
    rw [get?, List.find?_cons]
    rcases List.mem_cons.mp h with rfl | h
    · rw [beq_self_eq_true]
      rfl
    · have hne : first.1 ≠ key := fun hx => hkeys.1 (hx.symm ▸ List.mem_map_of_mem (f := Prod.fst) h)
      rw [beq_eq_false_iff_ne.mpr hne]
      exact ih hkeys.2 h

/-- What is there after a value has been put was there, or is that value. -/
theorem mem_of_mem_put {entry : String × α} (h : entry ∈ put key value map) : entry = (key, value) ∨ entry ∈ map := by
  induction map with
  | nil => exact Or.inl (List.mem_singleton.mp h)
  | cons first rest ih =>
    obtain ⟨k, v⟩ := first
    rw [put] at h
    split at h
    · exact List.mem_cons.mp h
    · split at h
      · exact (List.mem_cons.mp h).imp_right (List.mem_cons_of_mem _)
      · rcases List.mem_cons.mp h with rfl | h
        · exact Or.inr List.mem_cons_self
        · exact (ih h).imp_right (List.mem_cons_of_mem _)

/-! ## Ascending keys -/

/-- The keys ascend. -/
def Ascending (map : Keyed α) : Prop := (map.map Prod.fst).Pairwise (· < ·)

/-- The first key comes before the others. -/
theorem ascending_cons_iff {k : String} {v : α} {rest : Keyed α} :
    Ascending ((k, v) :: rest) ↔ (∀ e ∈ rest, k < e.1) ∧ Ascending rest := by
  rw [Ascending, List.map_cons, List.pairwise_cons, List.forall_mem_map]
  rfl

/-- Keys that ascend still do after a value has been put. -/
theorem Ascending.put (h : Ascending map) (key : String) (value : α) : Ascending (map.put key value) := by
  induction map with
  | nil => exact List.pairwise_singleton _ _
  | cons first rest ih =>
    obtain ⟨k, v⟩ := first
    obtain ⟨hfirst, hrest⟩ := ascending_cons_iff.mp h
    rw [Keyed.put]
    split
    · next hlt =>
      exact ascending_cons_iff.mpr ⟨List.forall_mem_cons.mpr ⟨hlt, fun e he => lt_trans hlt (hfirst e he)⟩, h⟩
    · next hnot =>
      split
      · next heq => exact ascending_cons_iff.mpr ⟨heq ▸ hfirst, hrest⟩
      · next hne =>
        have hlt : k < key := lt_of_le_of_ne (not_lt.mp hnot) (Ne.symm hne)
        refine ascending_cons_iff.mpr ⟨fun e he => ?_, ih hrest⟩
        rcases mem_of_mem_put he with rfl | he
        · exact hlt
        · exact hfirst e he

/-- Keys that ascend are all different. -/
theorem Ascending.nodup (h : Ascending map) : (map.map Prod.fst).Nodup := h.imp ne_of_lt

/-! ## Entries put one by one -/

/-- Under a key the last of several entries is found. -/
theorem get?_ofList (entries : List (String × α)) (name : String) :
    (ofList entries).get? name = lastUnder some name entries := by
  have hfold : ∀ map : Keyed α, (entries.foldl (fun map e => map.put e.1 e.2) map).get? name =
      (lastUnder some name entries).or (map.get? name) := by
    induction entries with
    | nil => exact fun map => rfl
    | cons e rest ih =>
      intro map
      rw [List.foldl_cons, ih, get?_put, lastUnder, Option.or_assoc]
      by_cases hname : name = e.1
      · rw [if_pos hname, if_pos (congrArg some hname.symm)]
        rfl
      · rw [if_neg hname, if_neg fun h => hname (Option.some.inj h).symm, Option.none_or]
  exact (hfold []).trans Option.or_none

/-- Entries that are put one by one ascend. -/
theorem ascending_ofList (entries : List (String × α)) : Ascending (ofList entries) := by
  have hfold : ∀ map : Keyed α, Ascending map → Ascending (entries.foldl (fun map e => map.put e.1 e.2) map) := by
    induction entries with
    | nil => exact fun map h => h
    | cons e rest ih => exact fun map h => ih _ (h.put e.1 e.2)
  exact hfold [] List.Pairwise.nil

/-- A key is there exactly if something is found under it. -/
theorem mem_keys_iff (map : Keyed α) (key : String) : key ∈ map.map Prod.fst ↔ map.get? key ≠ none := by
  constructor
  · intro hmem hnone
    obtain ⟨e, he, rfl⟩ := List.mem_map.mp hmem
    rw [get?, Option.map_eq_none_iff, List.find?_eq_none] at hnone
    exact hnone e he (beq_self_eq_true e.1)
  · intro hfound
    obtain ⟨value, hvalue⟩ := Option.ne_none_iff_exists'.mp hfound
    exact List.mem_map.mpr ⟨_, mem_of_get? hvalue, rfl⟩

/-- Entries with ascending keys are the same where the same is found under each key. -/
theorem Ascending.ext {map' : Keyed α} (h : Ascending map) (h' : Ascending map') (hget : ∀ key, map.get? key = map'.get? key) :
    map = map' := by
  have hmem {m : Keyed α} (hm : Ascending m) (e : String × α) : e ∈ m ↔ m.get? e.1 = some e.2 :=
    ⟨get?_of_mem hm.nodup, mem_of_get?⟩
  have hperm : map.Perm map' := by
    refine (List.perm_ext_iff_of_nodup h.nodup.of_map h'.nodup.of_map).mpr fun e => ?_
    rw [hmem h, hmem h', hget]
  refine hperm.eq_of_pairwise (fun a b _ _ hab hba => ?_) (List.pairwise_map.mp h) (List.pairwise_map.mp h')
  exact absurd hba (lt_asymm hab)

/-- A name has a last entry exactly if it is a key. -/
theorem lastUnder_ne_none_iff (entries : List (String × α)) (name : String) :
    lastUnder some name entries ≠ none ↔ name ∈ entries.map Prod.fst := by
  induction entries with
  | nil => simp [lastUnder]
  | cons e rest ih =>
    rw [lastUnder, List.map_cons, List.mem_cons, ← ih]
    cases lastUnder some name rest with
    | some a => simp
    | none =>
      by_cases hname : name = e.1
      · simp [hname]
      · simp [hname, Ne.symm hname]

/-- The keys of entries that are put one by one are theirs. -/
theorem mem_keys_ofList (entries : List (String × α)) (name : String) : name ∈ (ofList entries).keys ↔ name ∈ entries.map Prod.fst := by
  rw [keys, mem_keys_iff, get?_ofList, lastUnder_ne_none_iff]

/-- Where keys are all different, the last entry under a name is the one that is found. -/
theorem lastUnder_eq_get? {entries : Keyed α} (h : (entries.map Prod.fst).Nodup) (name : String) :
    lastUnder some name entries = entries.get? name := by
  induction entries with
  | nil => rfl
  | cons e rest ih =>
    rw [List.map_cons, List.nodup_cons] at h
    rw [lastUnder, ih h.2, get?_cons]
    by_cases hname : name = e.1
    · have hnone : get? rest e.1 = none := not_not.mp (mt (mem_keys_iff rest e.1).mpr h.1)
      rw [hname, hnone, if_pos rfl, if_pos rfl, Option.none_or]
    · rw [if_neg fun heq => hname (Option.some.inj heq).symm, if_neg hname, Option.or_none]

/-- Entries whose keys ascend are put one by one as they are. -/
theorem Ascending.ofList_eq (h : Ascending map) : ofList map = map :=
  (ascending_ofList map).ext h fun key => by rw [get?_ofList, lastUnder_eq_get? h.nodup]

/-- Entries that are put one by one are as many as they have different keys. -/
theorem length_ofList (entries : List (String × α)) :
    (ofList entries).length = (entries.map Prod.fst).dedup.length := by
  have hperm : ((ofList entries).map Prod.fst).Perm (entries.map Prod.fst).dedup := by
    refine (List.perm_ext_iff_of_nodup (ascending_ofList entries).nodup (List.nodup_dedup _)).mpr fun name => ?_
    rw [mem_keys_iff, get?_ofList, lastUnder_ne_none_iff, List.mem_dedup]
  rw [← hperm.length_eq, List.length_map]

end Keyed

end Workflow
