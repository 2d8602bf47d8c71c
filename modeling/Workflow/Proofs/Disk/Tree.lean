import Mathlib
import Workflow.Disk
import Workflow.Proofs.Text.Keyed

/-!
# Places on a disk

What is found at a place of a disk after an entry at another place, or at the same one, has been replaced. Of an entry that is
passed on the way only the kind matters (`Stand`), and a replacement changes the kinds of nothing but what is at its place or
below it (`stand?_replace_of_not_prefix`).
-/

namespace Workflow

/-! ## Entries under keys -/

namespace Keyed

variable {α : Type}

/-- Nothing is found under a key that is erased, and nothing else changes. -/
theorem get?_erase (map : Keyed α) (key k : String) :
    (erase map key).get? k = if k = key then none else map.get? k := by
  rw [erase, get?, get?, List.find?_filter]
  by_cases hk : k = key
  · rw [if_pos hk, hk, Option.map_eq_none_iff, List.find?_eq_none]
    intro entry _
    cases hentry : entry.1 == key <;> simp [bne, hentry]
  · rw [if_neg hk]
    congr 2
    funext entry
    by_cases hentry : entry.1 = k
    · simp [hentry, hk]
    · simp [hentry]

end Keyed

/-- What an entry is, without what is below it. -/
inductive Stand
  | file (contents : ByteArray)
  | link (target : String)
  | dir
  deriving DecidableEq

namespace Entry

/-- What an entry is. -/
def stand : Entry → Stand
  | .file contents => .file contents
  | .link target => .link target
  | .dir _ => .dir

/-- What stands at a place below an entry. -/
def stand? (e : Entry) (spot : Spot) : Option Stand := (e.find? spot).map stand

/-! ## Finding -/

/-- An entry is found at the place itself. -/
theorem find?_nil (e : Entry) : e.find? [] = some e := by
  cases e <;> rfl

/-- A place below a place. -/
theorem find?_append (e : Entry) (s t : Spot) : e.find? (s ++ t) = (e.find? s).bind (·.find? t) := by
  induction s generalizing e with
  | nil => rw [List.nil_append, find?_nil, Option.bind_some]
  | cons name s ih =>
    rw [List.cons_append]
    cases e with
    | dir children =>
      rw [find?, find?]
      cases Keyed.get? children name with
      | none => rfl
      | some child => exact ih child
    | file contents => rfl
    | link target => rfl

/-- Nothing stands below what is no directory. -/
theorem stand?_append_eq_none {e : Entry} {s t : Spot} (h : e.stand? s ≠ some .dir) (ht : t ≠ []) :
    e.stand? (s ++ t) = none := by
  obtain ⟨name, rest, rfl⟩ := List.exists_cons_of_ne_nil ht
  rw [stand?, find?_append]
  rw [stand?] at h
  cases hs : e.find? s with
  | none => rfl
  | some found =>
    rw [hs] at h
    cases found with
    | dir children => exact absurd rfl h
    | file contents => rfl
    | link target => rfl

/-- What is found above something is a directory. -/
theorem stand?_of_append {e : Entry} {s t : Spot} (h : e.stand? (s ++ t) ≠ none) (ht : t ≠ []) : e.stand? s = some .dir := by
  by_contra hdir
  exact h (stand?_append_eq_none hdir ht)

/-- Nothing is found where nothing stands. -/
theorem stand?_eq_none_iff {e : Entry} {s : Spot} : e.stand? s = none ↔ e.find? s = none := Option.map_eq_none_iff

/-! ## Replacing -/

/-- A replacement further down is one in the directory on the way. -/
theorem replace_cons {children : List (String × Entry)} {name : String} {s : Spot} (hs : s ≠ []) (new : Option Entry) :
    (dir children).replace (name :: s) new =
      match Keyed.get? children name with
      | some child => dir (Keyed.put name (child.replace s new) children)
      | none => dir children := by
  cases s with
  | nil => exact absurd rfl hs
  | cons second rest => rfl

/-- What is found below a replaced entry is what the new one holds, if the directory that it is in is there. -/
theorem find?_replace_append {e : Entry} {s : Spot} (h : e.stand? s = some .dir) (name : String) (new : Option Entry)
    (t : Spot) :
    (e.replace (s ++ [name]) new).find? (s ++ [name] ++ t) = new.bind (·.find? t) := by
  induction s generalizing e with
  | nil =>
    cases e with
    | dir children =>
      rw [List.nil_append]
      cases new with
      | none =>
        rw [replace, List.singleton_append, find?, Keyed.get?_erase, if_pos rfl]
      | some new => rw [replace, List.singleton_append, find?, Keyed.get?_put, if_pos rfl]
    | file contents => cases h
    | link target => cases h
  | cons first s ih =>
    cases e with
    | dir children =>
      rw [stand?, find?] at h
      cases hchild : Keyed.get? children first with
      | none =>
        rw [hchild] at h
        cases h
      | some child =>
        rw [hchild, Option.bind_some] at h
        rw [List.cons_append, List.cons_append, replace_cons (List.append_ne_nil_of_right_ne_nil s (List.cons_ne_nil name [])),
          hchild]
        simp only [find?, Keyed.get?_put, if_true, Option.bind_some]
        exact ih h
    | file contents => cases h
    | link target => cases h

/-- A replacement below a directory leaves it one, and changes nothing in it but what the first name of the place leads to. -/
theorem exists_replace_eq_dir (children : List (String × Entry)) (first : String) (s : Spot) (new : Option Entry) :
    ∃ changed, (dir children).replace (first :: s) new = dir changed ∧
      ∀ name ≠ first, Keyed.get? changed name = Keyed.get? children name := by
  by_cases hs : s = []
  · subst hs
    cases new with
    | none => exact ⟨_, rfl, fun name hname => by rw [Keyed.get?_erase, if_neg hname]⟩
    | some new => exact ⟨_, rfl, fun name hname => by rw [Keyed.get?_put, if_neg hname]⟩
  · rw [replace_cons hs]
    cases Keyed.get? children first with
    | none => exact ⟨_, rfl, fun _ _ => rfl⟩
    | some child => exact ⟨_, rfl, fun name hname => by rw [Keyed.get?_put, if_neg hname]⟩

/-- A replacement does not change what is found apart from it: neither below nor above. -/
theorem find?_replace_of_apart {e : Entry} {s t : Spot} (hst : ¬s <+: t) (hts : ¬t <+: s) (new : Option Entry) :
    (e.replace s new).find? t = e.find? t := by
  induction s generalizing e t with
  | nil => exact absurd List.nil_prefix hst
  | cons first s ih =>
    cases t with
    | nil => exact absurd List.nil_prefix hts
    | cons name t =>
      cases e with
      | dir children =>
        by_cases hname : name = first
        · subst hname
          rw [List.prefix_cons_inj] at hst hts
          have hs : s ≠ [] := fun hs => hst (hs ▸ List.nil_prefix)
          rw [replace_cons hs]
          cases hchild : Keyed.get? children name with
          | none => rfl
          | some child =>
            simp only [find?, Keyed.get?_put, if_true, hchild, Option.bind_some]
            exact ih hst hts
        · obtain ⟨changed, hchanged, hsame⟩ := exists_replace_eq_dir children first s new
          rw [hchanged, find?, find?, hsame name hname]
      | file contents => cases s <;> rfl
      | link target => cases s <;> rfl

/-- A replacement does not change what stands at a place that is neither replaced nor below. -/
theorem stand?_replace_of_not_prefix {e : Entry} {s t : Spot} (hst : ¬s <+: t) (new : Option Entry) :
    (e.replace s new).stand? t = e.stand? t := by
  by_cases hts : t <+: s
  · -- The entry at `t` is on the way to the replaced one; it stays what it is.
    induction s generalizing e t with
    | nil => exact absurd List.nil_prefix hst
    | cons first s ih =>
      cases e with
      | dir children =>
        cases t with
        | nil =>
          obtain ⟨changed, hchanged, -⟩ := exists_replace_eq_dir children first s new
          rw [hchanged]
          rfl
        | cons name t =>
          obtain ⟨rfl, hrest⟩ := List.cons_prefix_cons.mp hts
          rw [List.prefix_cons_inj] at hst
          have hs : s ≠ [] := fun hs => hst (hs ▸ List.nil_prefix)
          rw [replace_cons hs]
          cases hchild : Keyed.get? children name with
          | none => rfl
          | some child =>
            simp only [stand?, find?, Keyed.get?_put, if_true, hchild, Option.bind_some]
            exact ih hst hrest
      | file contents => cases s <;> rfl
      | link target => cases s <;> rfl
  · rw [stand?, stand?, find?_replace_of_apart hst hts]

/-- An entry that is put where nothing was, with nothing below it, is all that is found anew. -/
theorem find?_replace_empty {e : Entry} {s t : Spot} {name : String} (hdir : e.stand? s = some .dir)
    (hnone : e.stand? (s ++ [name]) = none) (ht : ¬t <+: s ++ [name]) :
    (e.replace (s ++ [name]) (some .empty)).find? t = e.find? t := by
  by_cases hst : s ++ [name] <+: t
  · obtain ⟨rest, rfl⟩ := hst
    cases rest with
    | nil => exact absurd (List.append_nil _ ▸ List.prefix_rfl) ht
    | cons next rest =>
      rw [find?_replace_append hdir, find?_append, stand?_eq_none_iff.mp hnone]
      rfl
  · exact find?_replace_of_apart hst ht _

end Entry

end Workflow
