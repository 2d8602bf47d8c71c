import Mathlib
import Workflow.Proofs.Disk.Tree

/-!
# What an entry is made of

Everything that an entry has at places below itself (`Entry.Has`), shadowed or not. Replacements bring in nothing but what the new
entry has, and removals nothing at all; so that an entry has only things of a certain kind (`Entry.Only`) is kept by both.
-/

namespace Workflow

namespace Entry

variable {e e' : Entry} {s t inside : Spot} {stand : Stand} {new : Option Entry}

/-- An entry has something at a place below itself. -/
inductive Has : Entry → Spot → Stand → Prop
  | here (e : Entry) : Has e [] e.stand
  | into {children : List (String × Entry)} {name : String} {child : Entry} {s : Spot} {stand : Stand}
      (hmem : (name, child) ∈ children) (h : Has child s stand) : Has (.dir children) (name :: s) stand

/-- What a found entry has, the entry above has. -/
theorem has_append (hfind : e.find? s = some e') (h : e'.Has t stand) : e.Has (s ++ t) stand := by
  induction s generalizing e with
  | nil =>
    rw [find?_nil, Option.some.injEq] at hfind
    exact hfind ▸ h
  | cons name s ih =>
    cases e with
    | dir children =>
      rw [find?] at hfind
      obtain ⟨child, hchild, hfind⟩ := Option.bind_eq_some_iff.mp hfind
      exact .into (Keyed.mem_of_get? hchild) (ih hfind)
    | file contents => cases hfind
    | link target => cases hfind

/-- What stands at a place is there. -/
theorem has_of_stand? (h : e.stand? s = some stand) : e.Has s stand := by
  obtain ⟨found, hfind, rfl⟩ := Option.map_eq_some_iff.mp h
  have hhas := has_append hfind (.here found)
  rwa [List.append_nil] at hhas

/-- No two children of a directory have the same name. -/
def Distinct (e : Entry) : Prop := ∀ s children, e.find? s = some (.dir children) → (children.map Prod.fst).Nodup

/-- Where no two children have the same name, nothing is shadowed: an entry has what stands in it. -/
theorem has_iff_of_distinct (hdistinct : e.Distinct) : e.Has s stand ↔ e.stand? s = some stand := by
  refine ⟨fun h => ?_, has_of_stand?⟩
  induction h with
  | here e => rw [stand?, find?_nil, Option.map_some]
  | @into children name child s stand hmem _ ih =>
    have hchild : Keyed.get? children name = some child := Keyed.get?_of_mem (hdistinct [] children (find?_nil _)) hmem
    have hfind : ∀ t, (Entry.dir children).find? (name :: t) = child.find? t := fun t => by rw [find?, hchild, Option.bind_some]
    rw [stand?, hfind]
    exact ih fun t grandchildren hfound => hdistinct (name :: t) grandchildren ((hfind t).trans hfound)

/-- What is left after a removal was there. -/
theorem has_of_shed (hshed : e.shed = some e') (h : e'.Has s stand) : e.Has s stand := by
  induction h generalizing e with
  | here e' =>
    cases e with
    | dir children =>
      cases children with
      | nil => cases hshed
      | cons first rest =>
        obtain ⟨name, child⟩ := first
        rw [shed] at hshed
        split at hshed <;> exact Option.some.inj hshed ▸ .here (.dir ((name, child) :: rest))
    | file contents => cases hshed
    | link target => cases hshed
  | into hmem h ih =>
    cases e with
    | dir children =>
      cases children with
      | nil => cases hshed
      | cons first rest =>
        obtain ⟨name, child⟩ := first
        rw [shed] at hshed
        split at hshed
        · obtain rfl := Entry.dir.inj (Option.some.inj hshed)
          exact .into (List.mem_cons_of_mem _ hmem) h
        · next left hleft =>
          obtain rfl := Entry.dir.inj (Option.some.inj hshed)
          rcases List.mem_cons.mp hmem with heq | hmem
          · obtain ⟨rfl, rfl⟩ := Prod.mk.inj heq
            exact .into List.mem_cons_self (ih hleft)
          · exact .into (List.mem_cons_of_mem _ hmem) h
    | file contents => cases hshed
    | link target => cases hshed

/-- What there is after a replacement was there, or belongs to the new entry. -/
theorem has_of_replace (h : (e.replace s new).Has t stand) :
    e.Has t stand ∨ ∃ rest added, t = s ++ rest ∧ new = some added ∧ added.Has rest stand := by
  induction s generalizing e t with
  | nil =>
    cases new with
    | none => exact Or.inl (by cases e <;> exact h)
    | some added => exact Or.inr ⟨t, added, rfl, rfl, by cases e <;> exact h⟩
  | cons name s ih =>
    cases e with
    | file contents => exact Or.inl (by cases s <;> exact h)
    | link target => exact Or.inl (by cases s <;> exact h)
    | dir children =>
      by_cases hs : s = []
      · subst hs
        cases new with
        | none =>
          cases h with
          | here => exact Or.inl (.here (.dir children))
          | into hmem h => exact Or.inl (.into (List.mem_filter.mp hmem).1 h)
        | some added =>
          cases h with
          | here => exact Or.inl (.here (.dir children))
          | into hmem h =>
            rcases Keyed.mem_of_mem_put hmem with heq | hmem
            · obtain ⟨rfl, rfl⟩ := Prod.mk.inj heq
              exact Or.inr ⟨_, _, rfl, rfl, h⟩
            · exact Or.inl (.into hmem h)
      · rw [replace_cons hs] at h
        cases hchild : Keyed.get? children name with
        | none =>
          rw [hchild] at h
          exact Or.inl h
        | some child =>
          rw [hchild] at h
          cases h with
          | here => exact Or.inl (.here (.dir children))
          | into hmem h =>
            rcases Keyed.mem_of_mem_put hmem with heq | hmem
            · obtain ⟨rfl, rfl⟩ := Prod.mk.inj heq
              rcases ih h with hold | ⟨rest, added, rfl, hnew, hadded⟩
              · exact Or.inl (.into (Keyed.mem_of_get? hchild) hold)
              · exact Or.inr ⟨rest, added, rfl, hnew, hadded⟩
            · exact Or.inl (.into hmem h)

/-! ## Entries of a kind -/

/-- An entry, if there is one, has only things that are allowed where they are. -/
def Only (allowed : Spot → Stand → Prop) (e : Option Entry) : Prop :=
  ∀ found, e = some found → ∀ s stand, found.Has s stand → allowed s stand

variable {allowed allowed' : Spot → Stand → Prop}

/-- No entry has anything. -/
theorem only_none : Only allowed none := fun _ h => by cases h

/-- The same entry has the same things. -/
theorem Only.of_eq {found found' : Option Entry} (h : Only allowed found) (heq : found' = found) : Only allowed found' := heq ▸ h

/-- Less is allowed where more is. -/
theorem Only.mono {found : Option Entry} (h : Only allowed found) (hallowed : ∀ s stand, allowed s stand → allowed' s stand) :
    Only allowed' found :=
  fun e he s stand hhas => hallowed s stand (h e he s stand hhas)

/-- An entry of which something has been removed has only what is allowed. -/
theorem Only.shed (h : Only allowed (some e)) : Only allowed e.shed :=
  fun _ hshed s stand hhas => h e rfl s stand (has_of_shed hshed hhas)

/-- An entry of which something has been replaced has only what is allowed, if the new entry has. -/
theorem Only.replace (h : Only allowed (some e)) (hnew : Only (fun t => allowed (inside ++ t)) new) :
    Only allowed (some (e.replace inside new)) := by
  intro found hfound s stand hhas
  obtain rfl := Option.some.inj hfound
  rcases has_of_replace hhas with hold | ⟨rest, added, rfl, hadded, hrest⟩
  · exact h e rfl s stand hold
  · exact hnew added hadded rest stand hrest

/-- What is found below an entry has only what is allowed there. -/
theorem Only.below (h : Only allowed (some e)) (s : Spot) : Only (fun t => allowed (s ++ t)) (e.find? s) :=
  fun _ hfound t stand hhas => h e rfl (s ++ t) stand (has_append hfound hhas)

/-- An entry that stands alone has only itself. -/
theorem only_leaf (hleaf : ∀ t stand, e.Has t stand → t = []) (h : allowed [] e.stand) : Only allowed (some e) := by
  rintro found hfound s stand hhas
  obtain rfl := Option.some.inj hfound
  obtain rfl := hleaf s stand hhas
  cases hhas
  exact h

end Entry

end Workflow
