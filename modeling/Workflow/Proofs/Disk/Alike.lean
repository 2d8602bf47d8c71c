import Mathlib
import Workflow.Proofs.Disk.Growth

/-!
# Operations that act alike

An operation acts alike on two disks if it fails for the same reason on both or makes the same replacements (`Alike`). It does so
where the same stands on the way of its path and at its end; what there is elsewhere does not matter.
-/

namespace Workflow

/-! ## Replacements further down -/

namespace Entry

/-- A replacement below an entry is one in what is found there. -/
theorem find?_replace_inside (e : Entry) (s : Spot) {inside : Spot} (hinside : inside ≠ []) (new : Option Entry) :
    (e.replace (s ++ inside) new).find? s = (e.find? s).map (·.replace inside new) := by
  induction s generalizing e with
  | nil => rw [List.nil_append, find?_nil, find?_nil, Option.map_some]
  | cons first s ih =>
    cases e with
    | dir children =>
      rw [List.cons_append, replace_cons (List.append_ne_nil_of_right_ne_nil s hinside), find?]
      cases hchild : Keyed.get? children first with
      | none => simp only [find?, hchild, Option.bind_none, Option.map_none]
      | some child => simp only [find?, Keyed.get?_put, if_true, Option.bind_some, ih]
    | file contents => cases s <;> cases inside <;> rfl
    | link target => cases s <;> cases inside <;> rfl

/-- What is found at an entry of a directory after a replacement there or below depends on nothing but what was found there. -/
theorem find?_replace_entry {e : Entry} {base : Spot} (hbase : e.stand? base = some .dir) (name : String) (inside : Spot)
    (new : Option Entry) :
    (e.replace (base ++ [name] ++ inside) new).find? (base ++ [name]) =
      if inside = [] then new else (e.find? (base ++ [name])).map (·.replace inside new) := by
  by_cases hinside : inside = []
  · subst hinside
    have hfound := find?_replace_append hbase name new []
    rw [List.append_nil] at hfound
    rw [List.append_nil, if_pos rfl, hfound]
    cases new with
    | none => rfl
    | some new => exact find?_nil new
  · rw [if_neg hinside, find?_replace_inside e _ hinside]

end Entry

namespace Disk

variable {d d' : Disk} {goal : Spot} {places : List Spot} {allowed : Spot → Prop} {p : Path}

/-! ## Replacements one after another -/

/-- A disk after replacements, one after another. -/
def edited (d : Disk) (edits : List (Spot × Option Entry)) : Disk :=
  edits.foldl (fun d edit => d.replace edit.1 edit.2) d

/-- What holds of a disk and is not touched by any of some replacements holds after them. -/
theorem edited_induction {holds : Disk → Prop} {edits : List (Spot × Option Entry)} (h : holds d)
    (hreplace : ∀ d, holds d → ∀ edit ∈ edits, holds (d.replace edit.1 edit.2)) : holds (d.edited edits) := by
  induction edits generalizing d with
  | nil => exact h
  | cons edit edits ih =>
    exact ih (hreplace d h edit List.mem_cons_self) fun d h edit hedit => hreplace d h edit (List.mem_cons_of_mem _ hedit)

/-- What is not below any of some replacements stays. -/
theorem stand?_edited {edits : List (Spot × Option Entry)} {s : Spot} (h : ∀ edit ∈ edits, ¬edit.1 <+: s) :
    (d.edited edits).stand? s = d.stand? s := by
  induction edits generalizing d with
  | nil => rfl
  | cons edit edits ih =>
    obtain ⟨hedit, hedits⟩ := List.forall_mem_cons.mp h
    exact (ih hedits).trans (Entry.stand?_replace_of_not_prefix hedit edit.2)

/-! ## Operations on two disks -/

/-- Outcomes of an operation on two disks: it fails for the same reason on both, or makes the same replacements, all at allowed
places. -/
inductive Alike (allowed : Spot → Prop) (d d' : Disk) : Except FileError Disk → Except FileError Disk → Prop
  | failed (e : FileError) : Alike allowed d d' (.error e) (.error e)
  | done (edits : List (Spot × Option Entry)) (h : ∀ edit ∈ edits, allowed edit.1) :
      Alike allowed d d' (.ok (d.edited edits)) (.ok (d'.edited edits))

/-- Nothing is replaced. -/
theorem Alike.same : Alike allowed d d' (.ok d) (.ok d') :=
  .done [] fun _ hx => absurd hx List.not_mem_nil

/-- One entry is replaced. -/
theorem Alike.replaced {s : Spot} (hs : allowed s) (new : Option Entry) :
    Alike allowed d d' (.ok (d.replace s new)) (.ok (d'.replace s new)) :=
  .done [(s, new)] (List.forall_mem_singleton.mpr hs)

/-- Ensuring a directory acts alike where the same stands on the way of its path, if what is missing there may be made. -/
theorem Trail.alike_ensureDir (h : Trail d [] p places goal) (htop : d.stand? [] = some .dir)
    (hsame : ∀ s, s = [] ∨ s ∈ places → d'.stand? s = d.stand? s) (hallowed : ∀ s ∈ places, d.stand? s = none → allowed s) :
    Alike allowed d d' (ensureDir d p) (ensureDir d' p) := by
  rcases h.ensureDir_congr htop hsame with ⟨e, hfails, hfails'⟩ | ⟨hthere, hthere'⟩ | ⟨s, hs, hnone, hmade, hmade'⟩
  · rw [hfails, hfails']
    exact .failed e
  · rw [hthere, hthere']
    exact .same
  · rw [hmade, hmade']
    exact .replaced (hallowed s hs hnone) _

/-- Writing a file depends on nothing but what stands where its path leads. -/
theorem write_eq (p : Path) (contents : ByteArray) :
    write d p contents =
      if endsWithSlash p then checkText p >>= fun _ => follow d false mostLinks [] (bare p) >>= fun _ => .error .isDirectory
      else resolve d true p >>= fun s =>
        if d.stand? s = some .dir then .error .isDirectory else .ok (d.replace s (some (.file contents))) := by
  rw [write]
  congr 2
  funext s
  rw [Entry.stand?]
  cases hs : d.find? s with
  | none => rfl
  | some e => cases e <;> rfl

/-- Writing a file acts alike where the same stands on the way of its path. -/
theorem Trail.alike_write (h : Trail d [] p places goal) (htop : d.stand? [] = some .dir)
    (hsame : ∀ s, s = [] ∨ s ∈ places → d'.stand? s = d.stand? s) (hallowed : allowed goal) (contents : ByteArray) :
    Alike allowed d d' (write d p contents) (write d' p contents) := by
  have hway : ∀ s ∈ places, d'.stand? s = d.stand? s := fun s hs => hsame s (Or.inr hs)
  rw [write_eq, write_eq]
  by_cases hslash : endsWithSlash p = true
  · obtain ⟨idle, hp, hidle⟩ := Path.exists_bare_append p
    have hbare : Trail d [] (bare p) places goal := by
      rw [hp] at h
      exact h.cut hidle
    rw [if_pos hslash, if_pos hslash, hbare.follow_congr hway]
    cases checkText p with
    | error e => exact .failed e
    | ok => cases follow d false mostLinks [] (bare p) <;> exact .failed _
  · rw [if_neg hslash, if_neg hslash, h.resolve_congr hway]
    cases hs : resolve d true p with
    | error e => exact .failed e
    | ok s =>
      have hgoal := ((h.of_follow_eq_ok htop (follow_of_resolve hs)).1).resolve_right fun hx => by cases hx.1
      have hmem := h.mem_of_follow htop (follow_of_resolve hs)
      subst hgoal
      simp only [bind, Except.bind, hsame s hmem]
      by_cases hdir : d.stand? s = some .dir
      · rw [if_pos hdir, if_pos hdir]
        exact .failed _
      · rw [if_neg hdir, if_neg hdir]
        exact .replaced hallowed _

/-- The same is found under a path that is resolved alike, where the same is found at its place. -/
theorem entryAt_congr (hresolve : resolve d' false p = resolve d false p)
    (hfind : ∀ s, resolve d false p = .ok s → d'.find? s = d.find? s) : entryAt d' false p = entryAt d false p := by
  rw [entryAt, entryAt, hresolve]
  cases hs : resolve d false p with
  | error e => rfl
  | ok s => simp only [bind, Except.bind, hfind s hs]

/-- A removal acts alike where the same is found. -/
theorem alike_removeOne (hresolve : resolve d' false p = resolve d false p)
    (hfind : ∀ s, resolve d false p = .ok s → allowed s ∧ d'.find? s = d.find? s) :
    Alike allowed d d' (removeOne d p) (removeOne d' p) := by
  rw [removeOne, removeOne, entryAt_congr hresolve fun s hs => (hfind s hs).2]
  cases hentry : entryAt d false p with
  | error e => exact .failed e
  | ok found => exact .replaced (hfind _ (entryAt_eq_ok_iff.mp hentry).1).1 _

/-- A look acts alike where the same is found. -/
theorem alike_look (hresolve : resolve d' false p = resolve d false p)
    (hfind : ∀ s, resolve d false p = .ok s → d'.find? s = d.find? s) : Alike allowed d d' (look d p) (look d' p) := by
  rw [look, look, entryAt_congr hresolve hfind]
  cases entryAt d false p with
  | error e => exact .failed e
  | ok found => exact .same

/-- A move acts alike where the same is found at both its ends. -/
theorem alike_rename {target : Path} (hresolve : resolve d' false p = resolve d false p)
    (hfind : ∀ s, resolve d false p = .ok s → allowed s ∧ d'.find? s = d.find? s)
    (htarget : resolve d' false target = resolve d false target)
    (hfind' : ∀ s, resolve d false target = .ok s → allowed s ∧ d'.find? s = d.find? s) :
    Alike allowed d d' (rename d p target) (rename d' p target) := by
  rw [rename, rename, entryAt_congr hresolve fun s hs => (hfind s hs).2, htarget]
  cases hentry : entryAt d false p with
  | error e => exact .failed e
  | ok found =>
    cases hs : resolve d false target with
    | error e => exact .failed e
    | ok finish =>
      have hstart := (hfind _ (entryAt_eq_ok_iff.mp hentry).1).1
      obtain ⟨hfinish, hsame⟩ := hfind' _ hs
      simp only [bind, Except.bind, hsame]
      split
      · exact .same
      · split
        · exact .failed _
        · split
          · exact .failed _
          · cases takesPlace found.2 (d.find? finish) with
            | error e => exact .failed e
            | ok =>
              exact .done [(found.1, none), (finish, some found.2)]
                (List.forall_mem_cons.mpr ⟨hstart, List.forall_mem_singleton.mpr hfinish⟩)

end Disk

end Workflow
