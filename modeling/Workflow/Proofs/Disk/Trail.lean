import Mathlib
import Workflow.Disk.Access
import Workflow.Proofs.Disk.Tree

/-!
# Where a path leads

The way of a path over a disk, step by step: through directories, to the directory above, through links. A `Trail` goes on where
an entry is missing, as if there were a directory, so it is there before the directories of a path are made; a path `Leads` only
where it can be followed. Whatever comes after a path that leads somewhere is followed from there (`Leads.follow_append`).
-/

namespace Workflow

/-- A part of a path that names an entry of the directory at hand. -/
def IsName (part : String) : Prop := Path.isIdle part = false ∧ part ≠ ".."

/-- A name has a character. -/
theorem IsName.ne_empty {part : String} (h : IsName part) : part ≠ "" := by
  rintro rfl
  cases h.1

namespace Disk

variable {d : Disk} {follows : Bool} {links : Nat} {spot : Spot} {name : String} {rest : List String}

/-- Where a link that stands in a directory leads on from. -/
def linkStart (spot : Spot) (target : String) : Spot := if (Path.ofText target).isAbsolute then [] else spot

/-! ## One step of a path -/

/-- A path is followed from walk to walk. -/
theorem follow_eq (names : List String) :
    follow d follows links spot names =
      match walk d follows spot names with
      | .error e => .error e
      | .ok (.place place) => .ok place
      | .ok (.detour dir target rest) =>
        match links with
        | 0 => .error .tooManyLinks
        | links + 1 => follow d follows links (linkStart dir target) (Path.ofText target ++ rest) := by
  rw [follow.eq_def]
  cases hwalk : walk d follows spot names with
  | error e => simp only [hwalk]
  | ok stop =>
    cases stop with
    | place place => simp only [hwalk]
    | detour dir target rest =>
      simp only [hwalk]
      cases links <;> rfl

/-- Walks that end alike are followed alike. -/
theorem follow_congr {spot' : Spot} {names names' : List String} (h : walk d follows spot names = walk d follows spot' names') :
    follow d follows links spot names = follow d follows links spot' names' := by
  rw [follow_eq, h, ← follow_eq]

/-- An idle part leads nowhere. -/
theorem follow_idle (h : Path.isIdle name = true) :
    follow d follows links spot (name :: rest) = follow d follows links spot rest := by
  have hwalk : walk d follows spot (name :: rest) = walk d follows spot rest := by rw [walk, if_pos h]
  exact follow_congr hwalk

/-- Two points lead to the directory above. -/
theorem follow_up : follow d follows links spot (".." :: rest) = follow d follows links spot.dropLast rest := by
  have hidle : ¬Path.isIdle ".." = true := by decide
  have hwalk : walk d follows spot (".." :: rest) = walk d follows spot.dropLast rest := by rw [walk, if_neg hidle, if_pos rfl]
  exact follow_congr hwalk

/-- Nothing is left of a path at its end. -/
theorem follow_nil : follow d follows links spot [] = .ok spot := by
  rw [follow_eq, walk]

/-- What a name leads to, by what stands under it. A link is followed, as long as links may be followed, unless it is at the end
and is asked for itself. -/
theorem follow_name (h : IsName name) :
    follow d follows links spot (name :: rest) =
      if longestName < name.utf8ByteSize then .error .nameTooLong
      else
        match d.stand? (spot ++ [name]) with
        | some .dir => follow d follows links (spot ++ [name]) rest
        | some (.link target) =>
          if rest.isEmpty && !follows then .ok (spot ++ [name])
          else
            match links with
            | 0 => .error .tooManyLinks
            | links + 1 => follow d follows links (linkStart spot target) (Path.ofText target ++ rest)
        | some (.file _) => if rest.isEmpty then .ok (spot ++ [name]) else .error .notDirectory
        | none => if rest.isEmpty then .ok (spot ++ [name]) else .error .noEntry := by
  rw [follow_eq, walk, if_neg (by rw [h.1]; exact Bool.false_ne_true), if_neg h.2, Entry.stand?]
  by_cases hlong : longestName < name.utf8ByteSize
  · rw [if_pos hlong, if_pos hlong]
  · rw [if_neg hlong, if_neg hlong]
    cases hfind : d.find? (spot ++ [name]) with
    | none =>
      simp only [hfind, Option.map_none]
      cases rest.isEmpty <;> rfl
    | some e =>
      cases e with
      | dir children =>
        simp only [hfind, Option.map_some, Entry.stand]
        rw [follow_eq]
      | file contents =>
        simp only [hfind, Option.map_some, Entry.stand]
        cases rest.isEmpty <;> rfl
      | link target =>
        simp only [hfind, Option.map_some, Entry.stand]
        cases rest.isEmpty && !follows <;> rfl

/-- A name leads into a directory. -/
theorem follow_dir (h : IsName name) (hshort : ¬longestName < name.utf8ByteSize) (hdir : d.stand? (spot ++ [name]) = some .dir) :
    follow d follows links spot (name :: rest) = follow d follows links (spot ++ [name]) rest := by
  rw [follow_name h, if_neg hshort, hdir]

/-- A name leads along a link, if more comes after it or links at the end are followed. -/
theorem follow_link {target : String} (h : IsName name) (hshort : ¬longestName < name.utf8ByteSize)
    (hlink : d.stand? (spot ++ [name]) = some (.link target)) (hgoes : rest ≠ [] ∨ follows = true) :
    follow d follows (links + 1) spot (name :: rest) =
      follow d follows links (linkStart spot target) (Path.ofText target ++ rest) := by
  have hnot : (rest.isEmpty && !follows) = false := by
    rcases hgoes with hmore | rfl
    · rw [List.isEmpty_eq_false_iff.mpr hmore, Bool.false_and]
    · rw [Bool.not_true, Bool.and_false]
  rw [follow_name h, if_neg hshort, hlink]
  simp only [hnot, Bool.false_eq_true, if_false]

/-- A missing name leads nowhere, if more comes after it. -/
theorem follow_missing (h : IsName name) (hshort : ¬longestName < name.utf8ByteSize) (hnone : d.stand? (spot ++ [name]) = none)
    (hmore : rest ≠ []) : follow d follows links spot (name :: rest) = .error .noEntry := by
  rw [follow_name h, if_neg hshort, hnone, List.isEmpty_eq_false_iff.mpr hmore]
  rfl

/-- A last name that is asked for itself leads to the entry of that name. -/
theorem follow_entry (h : IsName name) : follow d false links spot [name] =
    if longestName < name.utf8ByteSize then .error .nameTooLong else .ok (spot ++ [name]) := by
  rw [follow_name h]
  split
  · rfl
  · cases hstand : d.stand? (spot ++ [name]) with
    | none => rfl
    | some stand => cases stand <;> first | rfl | exact follow_nil

/-- Where a name leads that is followed to the end: to the entry of that name, if it is the last one, into a directory, or along a
link, unless that is the last one and is asked for itself. -/
theorem follow_name_eq_ok (h : IsName name) {s : Spot} (hs : follow d follows links spot (name :: rest) = .ok s) :
    ¬longestName < name.utf8ByteSize ∧
      ((rest = [] ∧ s = spot ++ [name] ∧ d.stand? s ≠ some .dir ∧ (follows = false ∨ ∀ target, d.stand? s ≠ some (.link target))) ∨
        (d.stand? (spot ++ [name]) = some .dir ∧ follow d follows links (spot ++ [name]) rest = .ok s) ∨
        ∃ target links', d.stand? (spot ++ [name]) = some (.link target) ∧ (rest ≠ [] ∨ follows = true) ∧ links = links' + 1 ∧
          follow d follows links' (linkStart spot target) (Path.ofText target ++ rest) = .ok s) := by
  rw [follow_name h] at hs
  split at hs
  · cases hs
  · next hshort =>
    refine ⟨hshort, ?_⟩
    cases hstand : d.stand? (spot ++ [name]) with
    | none =>
      simp only [hstand] at hs
      split at hs
      · next hrest =>
        obtain rfl := Except.ok.inj hs
        exact Or.inl ⟨List.isEmpty_iff.mp hrest, rfl, by rw [hstand]; exact nofun, Or.inr fun target => by rw [hstand]; exact nofun⟩
      · cases hs
    | some stand =>
      cases stand with
      | dir =>
        simp only [hstand] at hs
        exact Or.inr (Or.inl ⟨rfl, hs⟩)
      | file contents =>
        simp only [hstand] at hs
        split at hs
        · next hrest =>
          obtain rfl := Except.ok.inj hs
          exact Or.inl ⟨List.isEmpty_iff.mp hrest, rfl, by rw [hstand]; exact nofun, Or.inr fun target => by rw [hstand]; exact nofun⟩
        · cases hs
      | link target =>
        simp only [hstand] at hs
        split at hs
        · next hasked =>
          rw [Bool.and_eq_true, Bool.not_eq_true'] at hasked
          obtain rfl := Except.ok.inj hs
          exact Or.inl ⟨List.isEmpty_iff.mp hasked.1, rfl, by rw [hstand]; exact nofun, Or.inl hasked.2⟩
        · next hasked =>
          have hgoes : rest ≠ [] ∨ follows = true := by
            rwa [Bool.and_eq_true, List.isEmpty_iff, Bool.not_eq_true', not_and_or, Bool.not_eq_false] at hasked
          cases links with
          | zero => cases hs
          | succ links => exact Or.inr (Or.inr ⟨target, links, rfl, hgoes, rfl, hs⟩)

/-- A directory above a directory. -/
theorem stand?_dropLast (h : d.stand? spot = some .dir) : d.stand? spot.dropLast = some .dir := by
  rcases List.eq_nil_or_concat spot with rfl | ⟨parent, name, rfl⟩
  · exact h
  · rw [List.concat_eq_append] at h ⊢
    rw [List.dropLast_concat]
    exact Entry.stand?_of_append (by rw [h]; exact Option.some_ne_none _) (List.cons_ne_nil _ _)

/-! ## Trails -/

/-- The way of a path from a place on, with the places that it comes through and the one that it ends at. A link is followed; where
nothing or a file stands, the way goes on as if there were a directory. -/
inductive Trail (d : Disk) : Spot → List String → List Spot → Spot → Prop
  | done (spot : Spot) : Trail d spot [] [] spot
  | idle {spot goal : Spot} {name : String} {rest : List String} {places : List Spot} (h : Path.isIdle name = true)
      (next : Trail d spot rest places goal) : Trail d spot (name :: rest) places goal
  | up {spot goal : Spot} {rest : List String} {places : List Spot} (next : Trail d spot.dropLast rest places goal) :
      Trail d spot (".." :: rest) places goal
  | down {spot goal : Spot} {name : String} {rest : List String} {places : List Spot} (h : IsName name)
      (hplain : ∀ target, d.stand? (spot ++ [name]) ≠ some (.link target)) (next : Trail d (spot ++ [name]) rest places goal) :
      Trail d spot (name :: rest) ((spot ++ [name]) :: places) goal
  | link {spot goal : Spot} {name : String} {rest : List String} {places : List Spot} {target : String} (h : IsName name)
      (hlink : d.stand? (spot ++ [name]) = some (.link target))
      (next : Trail d (linkStart spot target) (Path.ofText target ++ rest) places goal) :
      Trail d spot (name :: rest) ((spot ++ [name]) :: places) goal

/-- A path that can be followed, through directories and links alone, with how many links may be followed before and after. -/
inductive Leads (d : Disk) : Nat → Spot → List String → List Spot → Nat → Spot → Prop
  | done (links : Nat) (spot : Spot) : Leads d links spot [] [] links spot
  | idle {links left : Nat} {spot goal : Spot} {name : String} {rest : List String} {places : List Spot}
      (h : Path.isIdle name = true) (next : Leads d links spot rest places left goal) :
      Leads d links spot (name :: rest) places left goal
  | up {links left : Nat} {spot goal : Spot} {rest : List String} {places : List Spot}
      (next : Leads d links spot.dropLast rest places left goal) : Leads d links spot (".." :: rest) places left goal
  | down {links left : Nat} {spot goal : Spot} {name : String} {rest : List String} {places : List Spot} (h : IsName name)
      (hshort : ¬longestName < name.utf8ByteSize) (hdir : d.stand? (spot ++ [name]) = some .dir)
      (next : Leads d links (spot ++ [name]) rest places left goal) :
      Leads d links spot (name :: rest) ((spot ++ [name]) :: places) left goal
  | link {links left : Nat} {spot goal : Spot} {name : String} {rest : List String} {places : List Spot} {target : String}
      (h : IsName name) (hshort : ¬longestName < name.utf8ByteSize) (hlink : d.stand? (spot ++ [name]) = some (.link target))
      (next : Leads d links (linkStart spot target) (Path.ofText target ++ rest) places left goal) :
      Leads d (links + 1) spot (name :: rest) ((spot ++ [name]) :: places) left goal

variable {goal : Spot} {names : List String} {places : List Spot}

/-- The trail of a path without its last parts, and the trail of these. -/
theorem Trail.split {before after : List String} (h : Trail d spot (before ++ after) places goal) :
    ∃ first mid second, Trail d spot before first mid ∧ Trail d mid after second goal ∧ places = first ++ second := by
  generalize hwhole : before ++ after = whole at h
  induction h generalizing before with
  | done spot =>
    obtain ⟨rfl, rfl⟩ := List.append_eq_nil_iff.mp hwhole
    exact ⟨[], spot, [], .done spot, .done spot, rfl⟩
  | @idle spot goal name rest places hidle next ih =>
    cases before with
    | nil =>
      subst hwhole
      exact ⟨[], spot, places, .done spot, .idle hidle next, rfl⟩
    | cons part before =>
      obtain ⟨rfl, hrest⟩ := List.cons_eq_cons.mp hwhole
      obtain ⟨first, mid, second, hfirst, hsecond, rfl⟩ := ih hrest
      exact ⟨first, mid, second, .idle hidle hfirst, hsecond, rfl⟩
  | @up spot goal rest places next ih =>
    cases before with
    | nil =>
      subst hwhole
      exact ⟨[], spot, places, .done spot, .up next, rfl⟩
    | cons part before =>
      obtain ⟨rfl, hrest⟩ := List.cons_eq_cons.mp hwhole
      obtain ⟨first, mid, second, hfirst, hsecond, rfl⟩ := ih hrest
      exact ⟨first, mid, second, .up hfirst, hsecond, rfl⟩
  | @down spot goal name rest places hname hplain next ih =>
    cases before with
    | nil =>
      subst hwhole
      exact ⟨[], spot, _, .done spot, .down hname hplain next, rfl⟩
    | cons part before =>
      obtain ⟨rfl, hrest⟩ := List.cons_eq_cons.mp hwhole
      obtain ⟨first, mid, second, hfirst, hsecond, rfl⟩ := ih hrest
      exact ⟨_, mid, second, .down hname hplain hfirst, hsecond, rfl⟩
  | @link spot goal name rest places target hname hlink next ih =>
    cases before with
    | nil =>
      subst hwhole
      exact ⟨[], spot, _, .done spot, .link hname hlink next, rfl⟩
    | cons part before =>
      obtain ⟨rfl, hrest⟩ := List.cons_eq_cons.mp hwhole
      have htarget : (Path.ofText target ++ before) ++ after = Path.ofText target ++ rest := by
        rw [List.append_assoc]
        exact congrArg (Path.ofText target ++ ·) hrest
      obtain ⟨first, mid, second, hfirst, hsecond, rfl⟩ := ih htarget
      exact ⟨_, mid, second, .link hname hlink hfirst, hsecond, rfl⟩

/-- A trail goes on where another one ends. -/
theorem Trail.append {mid : Spot} {after : List String} {others : List Spot} (h : Trail d spot names places mid)
    (h' : Trail d mid after others goal) : Trail d spot (names ++ after) (places ++ others) goal := by
  induction h with
  | done => exact h'
  | idle hidle _ ih => exact .idle hidle (ih h')
  | up _ ih => exact .up (ih h')
  | down hname hplain _ ih => exact .down hname hplain (ih h')
  | link hname hlink _ ih =>
    have hnext := ih h'
    rw [List.append_assoc] at hnext
    exact .link hname hlink hnext

/-- A path has one trail. -/
theorem Trail.unique {places' : List Spot} {goal' : Spot} (h : Trail d spot names places goal)
    (h' : Trail d spot names places' goal') : places = places' ∧ goal = goal' := by
  induction h generalizing places' with
  | done spot =>
    cases h'
    exact ⟨rfl, rfl⟩
  | idle hidle _ ih =>
    cases h' with
    | idle _ next => exact ih next
    | up => exact absurd hidle (by decide)
    | down hname => exact absurd hidle (by rw [hname.1]; exact Bool.false_ne_true)
    | link hname => exact absurd hidle (by rw [hname.1]; exact Bool.false_ne_true)
  | up _ ih =>
    cases h' with
    | idle hidle => exact absurd hidle (by decide)
    | up next => exact ih next
    | down hname => exact absurd rfl hname.2
    | link hname => exact absurd rfl hname.2
  | down hname hplain _ ih =>
    cases h' with
    | idle hidle => exact absurd hidle (by rw [hname.1]; exact Bool.false_ne_true)
    | up => exact absurd rfl hname.2
    | down _ _ next =>
      obtain ⟨rfl, rfl⟩ := ih next
      exact ⟨rfl, rfl⟩
    | link _ hlink => exact absurd hlink (hplain _)
  | link hname hlink _ ih =>
    cases h' with
    | idle hidle => exact absurd hidle (by rw [hname.1]; exact Bool.false_ne_true)
    | up => exact absurd rfl hname.2
    | down _ hplain => exact absurd hlink (hplain _)
    | link _ hlink' next =>
      obtain rfl := Stand.link.inj (Option.some.inj (hlink.symm.trans hlink'))
      obtain ⟨rfl, rfl⟩ := ih next
      exact ⟨rfl, rfl⟩

/-- A trail stays as long as the links on it do. -/
theorem Trail.congr {d' : Disk} (h : Trail d spot names places goal)
    (hsame : ∀ p ∈ places, ∀ target, d'.stand? p = some (.link target) ↔ d.stand? p = some (.link target)) :
    Trail d' spot names places goal := by
  induction h with
  | done spot => exact .done spot
  | idle hidle _ ih => exact .idle hidle (ih hsame)
  | up _ ih => exact .up (ih hsame)
  | down hname hplain _ ih =>
    rw [List.forall_mem_cons] at hsame
    exact .down hname (fun target hlink => hplain target ((hsame.1 target).mp hlink)) (ih hsame.2)
  | link hname hlink _ ih =>
    rw [List.forall_mem_cons] at hsame
    exact .link hname ((hsame.1 _).mpr hlink) (ih hsame.2)

/-- A trail comes through every place above one that it comes through. -/
theorem Trail.mem_of_prefix (h : Trail d spot names places goal) :
    (∀ p ∈ places, ∀ q, q <+: p → q <+: spot ∨ q ∈ places) ∧ ∀ q, q <+: goal → q <+: spot ∨ q ∈ places := by
  have hdown : ∀ {spot : Spot} {name : String} {q : Spot} {places : List Spot}, q <+: spot ++ [name] ∨ q ∈ places →
      q <+: spot ∨ q ∈ (spot ++ [name]) :: places := by
    intro spot name q places hq
    rcases hq with hq | hq
    · rcases List.prefix_concat_iff.mp hq with rfl | hq
      · exact Or.inr List.mem_cons_self
      · exact Or.inl hq
    · exact Or.inr (List.mem_cons_of_mem _ hq)
  induction h with
  | done spot => exact ⟨fun p hp => absurd hp List.not_mem_nil, fun q hq => Or.inl hq⟩
  | idle _ _ ih => exact ih
  | up _ ih =>
    refine ⟨fun p hp q hq => ?_, fun q hq => ?_⟩
    · exact (ih.1 p hp q hq).imp_left fun hq => hq.trans (List.dropLast_prefix _)
    · exact (ih.2 q hq).imp_left fun hq => hq.trans (List.dropLast_prefix _)
  | down _ _ _ ih =>
    refine ⟨List.forall_mem_cons.mpr ⟨fun q hq => hdown (Or.inl hq), fun p hp q hq => hdown (ih.1 p hp q hq)⟩, fun q hq => ?_⟩
    exact hdown (ih.2 q hq)
  | @link spot goal name rest places target _ _ _ ih =>
    have hstart : ∀ q, q <+: linkStart spot target → q <+: spot := by
      intro q hq
      rw [linkStart] at hq
      split at hq
      · rw [List.prefix_nil.mp hq]
        exact List.nil_prefix
      · exact hq
    refine ⟨List.forall_mem_cons.mpr ⟨fun q hq => hdown (Or.inl hq), fun p hp q hq => ?_⟩, fun q hq => ?_⟩
    · exact (ih.1 p hp q hq).imp (hstart q) (List.mem_cons_of_mem _)
    · exact (ih.2 q hq).imp (hstart q) (List.mem_cons_of_mem _)

/-! ## Paths that lead somewhere -/

variable {left : Nat}

/-- What comes after a path that leads somewhere is followed from there. -/
theorem Leads.follow_append (h : Leads d links spot names places left goal) {inside : List String}
    (hinside : inside ≠ [] ∨ follows = true) :
    follow d follows links spot (names ++ inside) = follow d follows left goal inside := by
  induction h with
  | done => rfl
  | idle hidle _ ih => rw [List.cons_append, follow_idle hidle, ih]
  | up _ ih => rw [List.cons_append, follow_up, ih]
  | down hname hshort hdir _ ih => rw [List.cons_append, follow_dir hname hshort hdir, ih]
  | @link links left spot goal name rest places target hname hshort hlink _ ih =>
    have hgoes : rest ++ inside ≠ [] ∨ follows = true := hinside.imp_left (List.append_ne_nil_of_right_ne_nil rest)
    rw [List.cons_append, follow_link hname hshort hlink hgoes, ← List.append_assoc, ih]

/-- A path leads somewhere as long as what stands on its way does. -/
theorem Leads.congr {d' : Disk} (h : Leads d links spot names places left goal) (hsame : ∀ p ∈ places, d'.stand? p = d.stand? p) :
    Leads d' links spot names places left goal := by
  induction h with
  | done links spot => exact .done links spot
  | idle hidle _ ih => exact .idle hidle (ih hsame)
  | up _ ih => exact .up (ih hsame)
  | down hname hshort hdir _ ih =>
    rw [List.forall_mem_cons] at hsame
    exact .down hname hshort (hsame.1.trans hdir) (ih hsame.2)
  | link hname hshort hlink _ ih =>
    rw [List.forall_mem_cons] at hsame
    exact .link hname hshort (hsame.1.trans hlink) (ih hsame.2)

/-- Nothing is missing on the way of a path that leads somewhere. -/
theorem Leads.stand?_ne_none (h : Leads d links spot names places left goal) : ∀ p ∈ places, d.stand? p ≠ none := by
  induction h with
  | done => exact fun p hp => absurd hp List.not_mem_nil
  | idle _ _ ih => exact ih
  | up _ ih => exact ih
  | down _ _ hdir _ ih => exact List.forall_mem_cons.mpr ⟨by rw [hdir]; exact Option.some_ne_none _, ih⟩
  | link _ _ hlink _ ih => exact List.forall_mem_cons.mpr ⟨by rw [hlink]; exact Option.some_ne_none _, ih⟩

/-- The top is a directory if anything is. -/
theorem stand?_top (h : d.stand? spot = some .dir) : d.stand? [] = some .dir := by
  by_cases hspot : spot = []
  · rwa [hspot] at h
  · rw [← List.nil_append spot] at h
    exact Entry.stand?_of_append (by rw [h]; exact Option.some_ne_none _) hspot

/-- Where a link leads on from is a directory. -/
theorem stand?_linkStart (h : d.stand? spot = some .dir) (target : String) : d.stand? (linkStart spot target) = some .dir := by
  rw [linkStart]
  split
  · exact stand?_top h
  · exact h

/-- A path that leads somewhere leads from a directory to a directory. -/
theorem Leads.stand?_goal (h : Leads d links spot names places left goal) (hspot : d.stand? spot = some .dir) :
    d.stand? goal = some .dir := by
  induction h with
  | done => exact hspot
  | idle _ _ ih => exact ih hspot
  | up _ ih => exact ih (stand?_dropLast hspot)
  | down _ _ hdir _ ih => exact ih hdir
  | link _ _ _ _ ih => exact ih (stand?_linkStart hspot _)

/-- Where following a path ends, given its trail: at the end of the trail, or at a link at the end that is asked for itself. It is a
directory, or an entry of one that the trail comes through. -/
theorem Trail.of_follow_eq_ok (h : Trail d spot names places goal) (hspot : d.stand? spot = some .dir) {s : Spot}
    (hs : follow d follows links spot names = .ok s) :
    (s = goal ∨ follows = false ∧ ∃ target, d.stand? s = some (.link target)) ∧
      (d.stand? s = some .dir ∨ s ∈ places ∧ ∃ parent name, s = parent ++ [name] ∧ d.stand? parent = some .dir) := by
  induction h generalizing links with
  | done spot =>
    rw [follow_nil, Except.ok.injEq] at hs
    subst hs
    exact ⟨Or.inl rfl, Or.inl hspot⟩
  | idle hidle _ ih =>
    rw [follow_idle hidle] at hs
    exact ih hspot hs
  | up _ ih =>
    rw [follow_up] at hs
    exact ih (stand?_dropLast hspot) hs
  | @down spot goal name rest places hname hplain next ih =>
    rcases (follow_name_eq_ok hname hs).2 with ⟨rfl, rfl, -⟩ | ⟨hdir, hnext⟩ | ⟨target, -, hlink, -⟩
    · cases next
      exact ⟨Or.inl rfl, Or.inr ⟨List.mem_cons_self, spot, name, rfl, hspot⟩⟩
    · obtain ⟨hgoal, hplace⟩ := ih hdir hnext
      exact ⟨hgoal, hplace.imp_right (And.imp_left (List.mem_cons_of_mem _))⟩
    · exact absurd hlink (hplain target)
  | @link spot goal name rest places target hname hlink next ih =>
    rcases (follow_name_eq_ok hname hs).2 with ⟨-, rfl, -, hasked⟩ | ⟨hdir, -⟩ | ⟨target', links', hlink', -, -, hnext⟩
    · have hlast : follows = false := hasked.resolve_right fun hplain => hplain target hlink
      exact ⟨Or.inr ⟨hlast, target, hlink⟩, Or.inr ⟨List.mem_cons_self, spot, name, rfl, hspot⟩⟩
    · cases hdir.symm.trans hlink
    · cases hlink'.symm.trans hlink
      obtain ⟨hgoal, hplace⟩ := ih (stand?_linkStart hspot target) hnext
      exact ⟨hgoal, hplace.imp_right (And.imp_left (List.mem_cons_of_mem _))⟩

/-- A path whose trail is known and that is followed to a directory leads there. -/
theorem Trail.leads (h : Trail d spot names places goal) {s : Spot} (hs : follow d follows links spot names = .ok s)
    (hdir : d.stand? s = some .dir) : ∃ left, Leads d links spot names places left goal := by
  induction h generalizing links with
  | done spot => exact ⟨links, .done links spot⟩
  | idle hidle _ ih =>
    rw [follow_idle hidle] at hs
    exact (ih hs).imp fun _ => .idle hidle
  | up _ ih =>
    rw [follow_up] at hs
    exact (ih hs).imp fun _ => .up
  | @down spot goal name rest places hname hplain next ih =>
    obtain ⟨hshort, ⟨-, -, hno, -⟩ | ⟨hstand, hnext⟩ | ⟨target, -, hlink, -⟩⟩ := follow_name_eq_ok hname hs
    · exact absurd hdir hno
    · exact (ih hnext).imp fun _ => .down hname hshort hstand
    · exact absurd hlink (hplain target)
  | @link spot goal name rest places target hname hlink next ih =>
    obtain ⟨hshort, ⟨-, -, hno, -⟩ | ⟨hstand, -⟩ | ⟨target', links', hlink', -, rfl, hnext⟩⟩ := follow_name_eq_ok hname hs
    · exact absurd hdir hno
    · cases hstand.symm.trans hlink
    · cases hlink'.symm.trans hlink
      exact (ih hnext).imp fun _ => .link hname hshort hlink

/-- The beginning of a path that is followed to its end leads somewhere, if something comes after it. -/
theorem Trail.leads_of_follow_append (h : Trail d spot names places goal) {after : List String} {s : Spot} (hafter : after ≠ [])
    (hs : follow d follows links spot (names ++ after) = .ok s) : ∃ left, Leads d links spot names places left goal := by
  induction h generalizing links with
  | done spot => exact ⟨links, .done links spot⟩
  | idle hidle _ ih =>
    rw [List.cons_append, follow_idle hidle] at hs
    exact (ih hs).imp fun _ => .idle hidle
  | up _ ih =>
    rw [List.cons_append, follow_up] at hs
    exact (ih hs).imp fun _ => .up
  | @down spot goal name rest places hname hplain next ih =>
    rw [List.cons_append] at hs
    obtain ⟨hshort, ⟨hempty, -⟩ | ⟨hdir, hnext⟩ | ⟨target, -, hlink, -⟩⟩ := follow_name_eq_ok hname hs
    · exact absurd hempty (List.append_ne_nil_of_right_ne_nil rest hafter)
    · exact (ih hnext).imp fun _ => .down hname hshort hdir
    · exact absurd hlink (hplain target)
  | @link spot goal name rest places target hname hlink next ih =>
    rw [List.cons_append] at hs
    obtain ⟨hshort, ⟨hempty, -⟩ | ⟨hdir, -⟩ | ⟨target', links', hlink', -, rfl, hnext⟩⟩ := follow_name_eq_ok hname hs
    · exact absurd hempty (List.append_ne_nil_of_right_ne_nil rest hafter)
    · cases hdir.symm.trans hlink
    · cases hlink'.symm.trans hlink
      rw [← List.append_assoc] at hnext
      exact (ih hnext).imp fun _ => .link hname hshort hlink

/-- A path that is followed to a missing entry is followed there too once it has been made. -/
theorem Trail.follow_of_made {d' : Disk} (h : Trail d spot names places goal) {s : Spot}
    (hs : follow d follows links spot names = .ok s) (hnone : d.stand? s = none) (hmade : d'.stand? s = some .dir)
    (hsame : ∀ t ≠ s, d'.stand? t = d.stand? t) : follow d' follows links spot names = .ok s := by
  induction h generalizing links with
  | done spot => rw [follow_nil] at hs ⊢; exact hs
  | idle hidle _ ih =>
    rw [follow_idle hidle] at hs ⊢
    exact ih hs
  | up _ ih =>
    rw [follow_up] at hs ⊢
    exact ih hs
  | @down spot goal name rest places hname hplain next ih =>
    obtain ⟨hshort, ⟨rfl, rfl, -⟩ | ⟨hdir, hnext⟩ | ⟨target, -, hlink, -⟩⟩ := follow_name_eq_ok hname hs
    · rw [follow_dir hname hshort hmade, follow_nil]
    · have hplace : spot ++ [name] ≠ s := fun heq => by cases hdir.symm.trans (heq ▸ hnone)
      rw [follow_dir hname hshort ((hsame _ hplace).trans hdir)]
      exact ih hnext
    · exact absurd hlink (hplain target)
  | @link spot goal name rest places target hname hlink next ih =>
    obtain ⟨hshort, ⟨-, rfl, -⟩ | ⟨hdir, -⟩ | ⟨target', links', hlink', hgoes, rfl, hnext⟩⟩ := follow_name_eq_ok hname hs
    · cases hnone.symm.trans hlink
    · cases hdir.symm.trans hlink
    · cases hlink'.symm.trans hlink
      have hplace : spot ++ [name] ≠ s := fun heq => by cases hlink.symm.trans (heq ▸ hnone)
      rw [follow_link hname hshort ((hsame _ hplace).trans hlink) hgoes]
      exact ih hnext

/-- A path that is followed to its end has a trail, as has its beginning. A link at the end that is asked for itself may lead
nowhere. -/
theorem exists_trail_of_follow {before after : List String} {s : Spot}
    (hs : follow d follows links spot (before ++ after) = .ok s)
    (hend : after ≠ [] ∨ follows = true ∨ ∀ target, d.stand? s ≠ some (.link target)) :
    ∃ places goal, Trail d spot before places goal := by
  -- The parts of a path become fewer, but for a link, and of these the number is bounded.
  induction links using Nat.strong_induction_on generalizing spot before with
  | _ links ihLinks =>
    induction before generalizing spot with
    | nil => exact ⟨[], spot, .done spot⟩
    | cons name rest ih =>
      rw [List.cons_append] at hs
      by_cases hidle : Path.isIdle name = true
      · rw [follow_idle hidle] at hs
        obtain ⟨places, goal, htrail⟩ := ih hs
        exact ⟨places, goal, .idle hidle htrail⟩
      by_cases hup : name = ".."
      · subst hup
        rw [follow_up] at hs
        obtain ⟨places, goal, htrail⟩ := ih hs
        exact ⟨places, goal, .up htrail⟩
      have hname : IsName name := ⟨Bool.eq_false_iff.mpr hidle, hup⟩
      rcases (follow_name_eq_ok hname hs).2 with ⟨hempty, rfl, -, hasked⟩ | ⟨hdir, hnext⟩ | ⟨target, links, hlink, -, rfl, hnext⟩
      · obtain ⟨rfl, rfl⟩ := List.append_eq_nil_iff.mp hempty
        have hplain : ∀ target, d.stand? (spot ++ [name]) ≠ some (.link target) := by
          rcases hend with hend | rfl | hend
          · exact absurd rfl hend
          · exact hasked.resolve_left Bool.noConfusion
          · exact hend
        exact ⟨_, _, .down hname hplain (.done _)⟩
      · obtain ⟨places, goal, htrail⟩ := ih hnext
        exact ⟨_, goal, .down hname (fun target hx => by rw [hdir] at hx; cases hx) htrail⟩
      · rw [← List.append_assoc] at hnext
        obtain ⟨places, goal, htrail⟩ := ihLinks links (Nat.lt_succ_self links) hnext
        exact ⟨_, goal, .link hname hlink htrail⟩

/-- A path that ends with a name is followed to an entry of that name, if that is not followed itself. -/
theorem exists_parent_of_follow {s : Spot} (hname : IsName name) (h : follow d false links spot (names ++ [name]) = .ok s) :
    ∃ parent, s = parent ++ [name] := by
  obtain ⟨places, goal, htrail⟩ := exists_trail_of_follow h (Or.inl (List.cons_ne_nil _ _))
  obtain ⟨left, hleads⟩ := htrail.leads_of_follow_append (List.cons_ne_nil _ _) h
  rw [hleads.follow_append (Or.inl (List.cons_ne_nil _ _)), follow_entry hname] at h
  split at h
  · cases h
  · exact ⟨goal, (Except.ok.inj h).symm⟩

end Disk

end Workflow
