import Mathlib
import Workflow.Proofs.Disk.Content
import Workflow.Proofs.Disk.Operations

/-!
# Counting entries

How many entries an operation adds to a disk or takes from it. What is counted are disks in order (`Entry.Ordered`): the names in
each directory ascend, so what is put under a name takes the place of what was there. Every operation leaves a disk in order. Making
a directory and writing a file add one entry at most, a move adds none, and a removal takes at least one away (`removeOne_count`).
-/

namespace Workflow

/-! ## Entries under ascending keys -/

namespace Keyed

variable {α : Type} {map : Keyed α} {key : String} {old : α}

/-- Keys that ascend still do after one has been erased. -/
theorem Ascending.erase (h : Ascending map) (key : String) : Ascending (map.erase key) :=
  h.sublist (List.filter_sublist.map Prod.fst)

/-- Where a value is found under a key, a new one takes its place, and erasing the key takes it out. -/
theorem split_of_get? (h : Ascending map) (hold : map.get? key = some old) :
    ∃ before after, map = before ++ (key, old) :: after ∧ map.erase key = before ++ after ∧
      ∀ value, map.put key value = before ++ (key, value) :: after := by
  induction map with
  | nil => cases hold
  | cons first rest ih =>
    obtain ⟨k, v⟩ := first
    obtain ⟨hfirst, hrest⟩ := ascending_cons_iff.mp h
    rw [get?, List.find?_cons] at hold
    by_cases hk : k = key
    · subst hk
      rw [beq_self_eq_true, Option.map_some, Option.some.injEq] at hold
      subst hold
      refine ⟨[], rest, rfl, ?_, fun value => ?_⟩
      · rw [Keyed.erase, List.filter_cons_of_neg (by simp), List.nil_append, List.filter_eq_self]
        intro e he
        have hne : e.1 ≠ k := (hfirst e he).ne'
        simpa using hne
      · rw [Keyed.put, if_neg (lt_irrefl k), if_pos rfl]
        rfl
    · rw [beq_eq_false_iff_ne.mpr hk] at hold
      have hlt : k < key := hfirst _ (mem_of_get? hold)
      obtain ⟨before, after, hmap, herase, hput⟩ := ih hrest hold
      refine ⟨(k, v) :: before, after, by rw [hmap]; rfl, ?_, fun value => ?_⟩
      · rw [Keyed.erase, List.filter_cons_of_pos (by simpa using hk)]
        exact congrArg ((k, v) :: ·) herase
      · rw [Keyed.put, if_neg (not_lt.mpr hlt.le), if_neg (Ne.symm hk), hput]
        rfl

/-- Where nothing is found under a key, a value is put in between. -/
theorem split_of_missing (hnone : map.get? key = none) (value : α) :
    ∃ before after, map = before ++ after ∧ map.put key value = before ++ (key, value) :: after := by
  induction map with
  | nil => exact ⟨[], [], rfl, rfl⟩
  | cons first rest ih =>
    obtain ⟨k, v⟩ := first
    rw [get?, List.find?_cons] at hnone
    by_cases hk : k = key
    · rw [hk, beq_self_eq_true] at hnone
      cases hnone
    · rw [beq_eq_false_iff_ne.mpr hk] at hnone
      rw [Keyed.put]
      split
      · exact ⟨[], _, rfl, rfl⟩
      · obtain ⟨before, after, hmap, hput⟩ := ih hnone
        exact ⟨(k, v) :: before, after, by rw [hmap]; rfl, by rw [if_neg (Ne.symm hk), hput]; rfl⟩

end Keyed

namespace Entry

variable {e e' old : Entry} {s : Spot} {new : Option Entry} {children : List (String × Entry)} {name : String}

/-! ## Disks in order -/

mutual

/-- In each directory the names ascend. -/
def Ordered : Entry → Prop
  | .file _ => True
  | .link _ => True
  | .dir children => Keyed.Ascending children ∧ OrderedAll children

/-- Each entry of a directory is in order. -/
def OrderedAll : List (String × Entry) → Prop
  | [] => True
  | (_, e) :: rest => e.Ordered ∧ OrderedAll rest

end

/-- The entries of a directory are in order if each of them is. -/
theorem orderedAll_iff : OrderedAll children ↔ ∀ child ∈ children, child.2.Ordered := by
  induction children with
  | nil => exact iff_of_true trivial fun child hx => absurd hx List.not_mem_nil
  | cons first rest ih =>
    obtain ⟨name, e⟩ := first
    rw [OrderedAll, ih, List.forall_mem_cons]

/-- A directory is in order if its names ascend and its entries are in order. -/
theorem ordered_dir_iff : (dir children).Ordered ↔ Keyed.Ascending children ∧ ∀ child ∈ children, child.2.Ordered := by
  rw [Ordered, orderedAll_iff]

/-- An entry of a directory in order is in order. -/
theorem Ordered.child (h : (dir children).Ordered) {child : Entry} (hchild : Keyed.get? children name = some child) :
    child.Ordered :=
  (ordered_dir_iff.mp h).2 _ (Keyed.mem_of_get? hchild)

/-- What is found in an entry in order is in order. -/
theorem Ordered.find? (h : e.Ordered) (hfind : e.find? s = some old) : old.Ordered := by
  induction s generalizing e with
  | nil =>
    rw [find?_nil, Option.some.injEq] at hfind
    exact hfind ▸ h
  | cons name s ih =>
    cases e with
    | dir children =>
      rw [Entry.find?] at hfind
      obtain ⟨child, hchild, hfind⟩ := Option.bind_eq_some_iff.mp hfind
      exact ih (h.child hchild) hfind
    | file contents => cases hfind
    | link target => cases hfind

/-- A directory in order still is after an entry has been put that is in order. -/
theorem Ordered.put (h : (dir children).Ordered) (name : String) (hnew : e.Ordered) :
    (dir (Keyed.put name e children)).Ordered := by
  obtain ⟨hnames, hchildren⟩ := ordered_dir_iff.mp h
  refine ordered_dir_iff.mpr ⟨hnames.put name e, fun child hchild => ?_⟩
  rcases Keyed.mem_of_mem_put hchild with rfl | hchild
  · exact hnew
  · exact hchildren child hchild

/-- An entry in order still is after a replacement by an entry in order. -/
theorem Ordered.replace (h : e.Ordered) (s : Spot) (hnew : ∀ n ∈ new, n.Ordered) : (e.replace s new).Ordered := by
  induction s generalizing e with
  | nil =>
    cases new with
    | none => cases e <;> exact h
    | some n => cases e <;> exact hnew n rfl
  | cons name s ih =>
    cases e with
    | file contents => cases s <;> exact h
    | link target => cases s <;> exact h
    | dir children =>
      by_cases hs : s = []
      · subst hs
        cases new with
        | none =>
          obtain ⟨hnames, hchildren⟩ := ordered_dir_iff.mp h
          exact ordered_dir_iff.mpr ⟨hnames.erase name, fun child hchild => hchildren child (List.mem_filter.mp hchild).1⟩
        | some n => exact h.put name (hnew n rfl)
      · rw [replace_cons hs]
        cases hchild : Keyed.get? children name with
        | none => exact h
        | some child => exact h.put name (ih (h.child hchild))

/-- An entry in order still is after a removal. -/
theorem Ordered.shed (h : e.Ordered) (hshed : e.shed = some e') : e'.Ordered := by
  induction e using Entry.shed.induct generalizing e' with
  | case1 => cases hshed
  | case2 => cases hshed
  | case3 => cases hshed
  | case4 name first rest hgone =>
    rw [Entry.shed, hgone] at hshed
    obtain ⟨hnames, hchildren⟩ := ordered_dir_iff.mp h
    cases hshed
    exact ordered_dir_iff.mpr
      ⟨(Keyed.ascending_cons_iff.mp hnames).2, fun child hchild => hchildren child (List.mem_cons_of_mem _ hchild)⟩
  | case5 name first rest left hleft ih =>
    rw [Entry.shed, hleft] at hshed
    obtain ⟨hnames, hchildren⟩ := ordered_dir_iff.mp h
    obtain ⟨hfirst, hrest⟩ := List.forall_mem_cons.mp hchildren
    cases hshed
    exact ordered_dir_iff.mpr ⟨Keyed.ascending_cons_iff.mpr (Keyed.ascending_cons_iff.mp hnames),
      List.forall_mem_cons.mpr ⟨ih hfirst hleft, hrest⟩⟩

/-! ## Counting -/

/-- An entry counts itself. -/
theorem count_pos (e : Entry) : 0 < e.count := by
  cases e with
  | dir children =>
    rw [count]
    omega
  | file contents => exact Nat.one_pos
  | link target => exact Nat.one_pos

/-- Entries of a directory are counted one by one. -/
theorem countAll_append (a b : List (String × Entry)) : countAll (a ++ b) = countAll a + countAll b := by
  induction a with
  | nil => rw [List.nil_append, countAll, Nat.zero_add]
  | cons first rest ih =>
    obtain ⟨name, e⟩ := first
    rw [List.cons_append, countAll, countAll, ih, Nat.add_assoc]

/-- A replacement below an entry of a directory is one of that entry. -/
theorem replace_child {child : Entry} (hchild : Keyed.get? children name = some child) (s : Spot) (n : Entry) :
    (dir children).replace (name :: s) (some n) = dir (Keyed.put name (child.replace s (some n)) children) := by
  by_cases hs : s = []
  · subst hs
    cases child <;> rfl
  · rw [replace_cons hs, hchild]

/-- The new entry is counted in place of the old one. -/
theorem Ordered.count_replace (h : e.Ordered) (hfind : e.find? s = some old) (n : Entry) :
    (e.replace s (some n)).count + old.count = e.count + n.count := by
  induction s generalizing e with
  | nil =>
    rw [find?_nil, Option.some.injEq] at hfind
    subst hfind
    have hall : e.replace [] (some n) = n := by cases e <;> rfl
    rw [hall, Nat.add_comm]
  | cons name s ih =>
    cases e with
    | dir children =>
      rw [Entry.find?] at hfind
      obtain ⟨child, hchild, hfind⟩ := Option.bind_eq_some_iff.mp hfind
      have hcount := ih (h.child hchild) hfind
      obtain ⟨before, after, hbefore, -, hput⟩ := Keyed.split_of_get? (ordered_dir_iff.mp h).1 hchild
      rw [replace_child hchild, hput, hbefore, count, count, countAll_append, countAll_append, countAll, countAll]
      omega
    | file contents => cases hfind
    | link target => cases hfind

/-- An entry that is taken away is not counted any more. -/
theorem Ordered.count_replace_none (h : e.Ordered) (hs : s ≠ []) (hfind : e.find? s = some old) :
    (e.replace s none).count + old.count = e.count := by
  induction s generalizing e with
  | nil => exact absurd rfl hs
  | cons name s ih =>
    cases e with
    | dir children =>
      rw [Entry.find?] at hfind
      obtain ⟨child, hchild, hfind⟩ := Option.bind_eq_some_iff.mp hfind
      obtain ⟨before, after, hbefore, herase, hput⟩ := Keyed.split_of_get? (ordered_dir_iff.mp h).1 hchild
      by_cases hs : s = []
      · subst hs
        rw [find?_nil, Option.some.injEq] at hfind
        subst hfind
        rw [Entry.replace, herase, hbefore, count, count, countAll_append, countAll_append, countAll]
        omega
      · have hcount := ih (h.child hchild) hs hfind
        rw [replace_cons hs, hchild]
        simp only
        rw [hput, hbefore, count, count, countAll_append, countAll_append, countAll, countAll]
        omega
    | file contents => cases hfind
    | link target => cases hfind

/-- A replacement adds no more than the new entry. -/
theorem Ordered.count_replace_le (h : e.Ordered) (s : Spot) (n : Entry) : (e.replace s (some n)).count ≤ e.count + n.count := by
  induction s generalizing e with
  | nil =>
    have hall : e.replace [] (some n) = n := by cases e <;> rfl
    rw [hall]
    exact Nat.le_add_left _ _
  | cons name s ih =>
    cases e with
    | file contents => cases s <;> exact Nat.le_add_right _ _
    | link target => cases s <;> exact Nat.le_add_right _ _
    | dir children =>
      cases hchild : Keyed.get? children name with
      | some child =>
        have hcount := ih (h.child hchild)
        obtain ⟨before, after, hbefore, -, hput⟩ := Keyed.split_of_get? (ordered_dir_iff.mp h).1 hchild
        rw [replace_child hchild, hput, hbefore, count, count, countAll_append, countAll_append, countAll, countAll]
        omega
      | none =>
        by_cases hs : s = []
        · subst hs
          obtain ⟨before, after, hbefore, hput⟩ := Keyed.split_of_missing hchild n
          rw [Entry.replace, hput, hbefore, count, count, countAll_append, countAll_append, countAll]
          omega
        · rw [replace_cons hs, hchild]
          exact Nat.le_add_right _ _

/-- A removal that leaves something takes something away. -/
theorem count_shed (hshed : e.shed = some e') : e'.count < e.count := by
  induction e using Entry.shed.induct generalizing e' with
  | case1 => cases hshed
  | case2 => cases hshed
  | case3 => cases hshed
  | case4 name first rest hgone =>
    rw [shed, hgone] at hshed
    cases hshed
    have hpos := count_pos first
    rw [count, count, countAll]
    omega
  | case5 name first rest left hleft ih =>
    rw [shed, hleft] at hshed
    cases hshed
    have hless := ih hleft
    rw [count, count, countAll, countAll]
    omega

end Entry

namespace Disk

variable {d d' : Disk} {names : List String} {name : String} {p : Path}

/-! ## Operations -/

/-- Ensuring a directory leaves a disk in order and adds one entry at most. -/
theorem ensureDir_count (h : d.Ordered) (hop : ensureDir d p = .ok d') : d'.Ordered ∧ d'.count ≤ d.count + 1 := by
  rcases ensureDir_cases hop with hmade | ⟨rfl, -⟩
  · obtain ⟨-, s, -, -, rfl⟩ := makeDir_eq_ok hmade
    have hempty : Entry.empty.Ordered := Entry.ordered_dir_iff.mpr ⟨.nil, fun child hx => absurd hx List.not_mem_nil⟩
    exact ⟨h.replace s fun n hn => Option.some.inj hn ▸ hempty, h.count_replace_le s .empty⟩
  · exact ⟨h, Nat.le_succ _⟩

/-- Writing a file leaves a disk in order and adds one entry at most. -/
theorem write_count {contents : ByteArray} (h : d.Ordered) (hop : write d p contents = .ok d') :
    d'.Ordered ∧ d'.count ≤ d.count + 1 := by
  obtain ⟨s, -, -, rfl⟩ := exists_of_write_eq_ok hop
  exact ⟨h.replace s fun n hn => Option.some.inj hn ▸ trivial, h.count_replace_le s (.file contents)⟩

/-- A removal leaves a disk in order and takes at least one entry away, if the path ends with a name. -/
theorem removeOne_count (h : d.Ordered) (hname : IsName name) (hop : removeOne d (names ++ [name]) = .ok d') :
    d'.Ordered ∧ d'.count < d.count := by
  obtain ⟨s, e, hs, hfind, rfl⟩ := removeOne_eq_ok hop
  obtain ⟨parent, rfl⟩ := exists_parent_of_follow hname (follow_of_resolve hs)
  have hpos := e.count_pos
  refine ⟨h.replace _ fun n hn => (h.find? hfind).shed hn, ?_⟩
  cases hshed : e.shed with
  | none =>
    have hcount := h.count_replace_none (List.append_ne_nil_of_right_ne_nil parent (List.cons_ne_nil name [])) hfind
    omega
  | some left =>
    have hcount := h.count_replace hfind left
    have hless := Entry.count_shed hshed
    omega

/-- A move leaves a disk in order and adds no entry. -/
theorem rename_count {source target : Path} (h : d.Ordered) (hop : rename d source target = .ok d') :
    d'.Ordered ∧ d'.count ≤ d.count := by
  obtain ⟨⟨start, e⟩, hentry, hrest⟩ := bind_eq_ok_iff.mp hop
  obtain ⟨goal, -, hmoved⟩ := bind_eq_ok_iff.mp hrest
  obtain ⟨-, hfind⟩ := entryAt_eq_ok_iff.mp hentry
  split at hmoved
  · obtain rfl := Except.ok.inj hmoved
    exact ⟨h, Nat.le_refl _⟩
  · split at hmoved
    · cases hmoved
    · next hprefix =>
      split at hmoved
      · cases hmoved
      · obtain ⟨-, -, hd⟩ := bind_eq_ok_iff.mp hmoved
        obtain rfl := Except.ok.inj hd
        -- The top is above every place, so it is not what is moved.
        have hstart : start ≠ [] := by
          rintro rfl
          exact hprefix (List.isPrefixOf_iff_prefix.mpr List.nil_prefix)
        have hgone : Entry.Ordered (d.replace start none) := h.replace start fun n hn => by cases hn
        have hcount := h.count_replace_none hstart hfind
        have hput := hgone.count_replace_le goal e
        exact ⟨hgone.replace goal fun n hn => Option.some.inj hn ▸ h.find? hfind, by omega⟩

end Disk

end Workflow
