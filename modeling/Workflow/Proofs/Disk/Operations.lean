import Mathlib
import Workflow.Proofs.Disk.Trail

/-!
# What operations do to a disk

Each operation that succeeds is one replacement, and where it takes place is known from the trail of its path. A directory is made
only on the trail of its path (`ensureDir_eq_ok`), and once it is made the path leads to it (`Trail.leads_of_ensureDir`).
-/

namespace Workflow

namespace Path

/-- A path that is written without a character has no part but an empty one. -/
theorem isNone_iff {p : Path} : p.isNone = true ↔ p = [] ∨ p = [""] := by
  rw [isNone, text, String.isEmpty_iff]
  match p with
  | [] => exact iff_of_true rfl (Or.inl rfl)
  | [part] => rw [String.intercalate_singleton]; simp
  | first :: second :: rest =>
    rw [String.intercalate_cons_cons]
    simp

/-- Every part of a path that is written without a character is idle. -/
theorem isIdle_of_isNone {p : Path} (h : p.isNone = true) : ∀ part ∈ p, isIdle part = true := by
  rcases isNone_iff.mp h with rfl | rfl
  · exact fun part hp => absurd hp List.not_mem_nil
  · exact List.forall_mem_singleton.mpr rfl

/-- The parts of a directory that come before the parts of a path inside it. -/
def stem (dir : Path) : Path :=
  if dir.isNone then [] else if dir.getLast? = some "" then dir.dropLast else dir

/-- A path inside a directory. -/
theorem join_eq {dir inside : Path} (h : inside.isAbsolute = false) : dir.join inside = dir.stem ++ inside := by
  rw [join, stem, h, Bool.false_or]
  by_cases hnone : dir.isNone = true
  · rw [if_pos hnone, if_pos hnone, List.nil_append]
  · rw [if_neg hnone, if_neg hnone]
    by_cases hlast : dir.getLast? = some ""
    · rw [if_pos hlast, if_pos (by rw [hlast]; rfl)]
    · rw [if_neg hlast, if_neg (by rwa [beq_iff_eq])]

/-- Only idle parts may come after the stem of a directory. -/
theorem exists_stem_append (dir : Path) : ∃ idle, dir = dir.stem ++ idle ∧ ∀ part ∈ idle, isIdle part = true := by
  rw [stem]
  split
  · next hnone => exact ⟨dir, rfl, isIdle_of_isNone hnone⟩
  · split
    · next hlast =>
      exact ⟨[""], (List.dropLast_append_getLast? "" hlast).symm, List.forall_mem_singleton.mpr rfl⟩
    · exact ⟨[], (List.append_nil _).symm, fun part hp => absurd hp List.not_mem_nil⟩

/-- What is dropped from the end of a list comes after what is kept. -/
theorem exists_append_of_rdropWhile (drops : String → Bool) (parts : List String) :
    ∃ dropped, parts = (parts.reverse.dropWhile drops).reverse ++ dropped ∧ ∀ part ∈ dropped, drops part = true := by
  refine ⟨(parts.reverse.takeWhile drops).reverse, ?_, ?_⟩
  · rw [← List.reverse_append, List.takeWhile_append_dropWhile, List.reverse_reverse]
  · intro part hp
    exact List.mem_takeWhile_imp (List.mem_reverse.mp hp)

/-- Only idle parts come after the bare path. -/
theorem exists_bare_append (p : Path) : ∃ idle, p = Disk.bare p ++ idle ∧ ∀ part ∈ idle, isIdle part = true := by
  have hnone : ∀ part ∈ ([] : List String), isIdle part = true := fun part hp => absurd hp List.not_mem_nil
  cases p with
  | nil => exact ⟨[], rfl, hnone⟩
  | cons first rest =>
    rw [Disk.bare]
    split
    · exact ⟨[], (List.append_nil _).symm, hnone⟩
    · obtain ⟨dropped, hrest, hdropped⟩ := exists_append_of_rdropWhile (· == "") rest
      refine ⟨dropped, congrArg (first :: ·) hrest, fun part hp => ?_⟩
      rw [isIdle, hdropped part hp, Bool.true_or]

/-- Only idle parts are trimmed off. -/
theorem exists_trimEnd_append (p : Path) : ∃ idle, p = p.trimEnd ++ idle ∧ ∀ part ∈ idle, isIdle part = true := by
  cases p with
  | nil => exact ⟨[], rfl, fun part hp => absurd hp List.not_mem_nil⟩
  | cons first rest =>
    obtain ⟨dropped, hrest, hdropped⟩ := exists_append_of_rdropWhile isIdle rest
    exact ⟨dropped, congrArg (first :: ·) hrest, hdropped⟩

/-- What is left of a path when it is trimmed ends with no idle part, unless that is the first one. -/
theorem isIdle_of_trimEnd {p : Path} {first last : String} {middle : List String} (h : p.trimEnd = first :: (middle ++ [last])) :
    isIdle last = false := by
  cases p with
  | nil => cases h
  | cons head rest =>
    have hrest : (rest.reverse.dropWhile isIdle).reverse = middle ++ [last] := (List.cons_eq_cons.mp h).2
    rw [List.reverse_eq_iff, List.reverse_append, List.reverse_singleton, List.singleton_append] at hrest
    have hhead := List.head?_dropWhile_not isIdle rest.reverse
    rw [hrest] at hhead
    exact hhead

/-- The directory that a path stands in is the present one, the top, or the path without its last name. -/
theorem parent?_eq_some {p above : Path} (h : p.parent? = some above) :
    above.isNone = true ∨ above = ["", ""] ∨ ∃ removed, p = above ++ removed ∧ ∃ part ∈ removed, isIdle part = false := by
  obtain ⟨idle, hp, -⟩ := exists_trimEnd_append p
  rw [parent?] at h
  split at h
  · cases h
  · cases h
  · rw [← Option.some.inj h]
    exact Or.inl rfl
  · next first rest hne hne' htrim =>
    simp only [Option.some.injEq] at h
    split at h
    · exact Or.inr (Or.inl h.symm)
    · refine Or.inr (Or.inr ?_)
      obtain ⟨middle, last, hlast⟩ : ∃ middle last, rest = middle ++ [last] := by
        rcases List.eq_nil_or_concat rest with rfl | ⟨middle, last, hrest⟩
        · exact absurd rfl hne'
        · exact ⟨middle, last, hrest.trans List.concat_eq_append⟩
      subst hlast
      obtain ⟨tail, htail, -⟩ := exists_trimEnd_append (first :: middle)
      rw [List.dropLast_concat] at h
      refine ⟨tail ++ ([last] ++ idle), ?_, last, ?_, isIdle_of_trimEnd htrim⟩
      · rw [← h, ← List.append_assoc, ← htail]
        rw [htrim] at hp
        simpa using hp
      · simp

end Path

namespace Disk

variable {d d' : Disk} {links left : Nat} {spot goal : Spot} {names : List String} {places : List Spot}

/-! ## Trails of paths with idle parts -/

/-- Idle parts lead nowhere. -/
theorem Trail.of_idle (h : Trail d spot names places goal) (hidle : ∀ part ∈ names, Path.isIdle part = true) :
    places = [] ∧ goal = spot := by
  induction h with
  | done => exact ⟨rfl, rfl⟩
  | idle _ _ ih => exact ih fun part hp => hidle part (List.mem_cons_of_mem _ hp)
  | up => exact absurd (hidle _ List.mem_cons_self) (by decide)
  | down hname => exact absurd (hidle _ List.mem_cons_self) (by rw [hname.1]; exact Bool.false_ne_true)
  | link hname => exact absurd (hidle _ List.mem_cons_self) (by rw [hname.1]; exact Bool.false_ne_true)

/-- The trail of idle parts. -/
theorem trail_of_idle (hidle : ∀ part ∈ names, Path.isIdle part = true) (spot : Spot) : Trail d spot names [] spot := by
  induction names with
  | nil => exact .done spot
  | cons part names ih =>
    rw [List.forall_mem_cons] at hidle
    exact .idle hidle.1 (ih hidle.2)

/-- A trail is that of the path without idle parts at its end. -/
theorem Trail.cut {idle : List String} (h : Trail d spot (names ++ idle) places goal)
    (hidle : ∀ part ∈ idle, Path.isIdle part = true) : Trail d spot names places goal := by
  obtain ⟨first, mid, second, hfirst, hsecond, rfl⟩ := h.split
  obtain ⟨rfl, rfl⟩ := hsecond.of_idle hidle
  rwa [List.append_nil]

/-- A path that leads somewhere leads there without idle parts at its end. -/
theorem Leads.cut {idle : List String} (h : Leads d links spot (names ++ idle) places left goal)
    (hidle : ∀ part ∈ idle, Path.isIdle part = true) : Leads d links spot names places left goal := by
  generalize hwhole : names ++ idle = whole at h
  induction h generalizing names idle with
  | done links spot =>
    obtain ⟨rfl, rfl⟩ := List.append_eq_nil_iff.mp hwhole
    exact .done links spot
  | idle hpart _ ih =>
    cases names with
    | nil =>
      subst hwhole
      exact ih (fun part hp => hidle part (List.mem_cons_of_mem _ hp)) rfl
    | cons part names =>
      obtain ⟨rfl, hrest⟩ := List.cons_eq_cons.mp hwhole
      exact .idle hpart (ih hidle hrest)
  | up _ ih =>
    cases names with
    | nil =>
      subst hwhole
      exact absurd (hidle _ List.mem_cons_self) (by decide)
    | cons part names =>
      obtain ⟨rfl, hrest⟩ := List.cons_eq_cons.mp hwhole
      exact .up (ih hidle hrest)
  | down hname hshort hdir _ ih =>
    cases names with
    | nil =>
      subst hwhole
      exact absurd (hidle _ List.mem_cons_self) (by rw [hname.1]; exact Bool.false_ne_true)
    | cons part names =>
      obtain ⟨rfl, hrest⟩ := List.cons_eq_cons.mp hwhole
      exact .down hname hshort hdir (ih hidle hrest)
  | @link links left spot goal name rest places target hname hshort hlink _ ih =>
    cases names with
    | nil =>
      subst hwhole
      exact absurd (hidle _ List.mem_cons_self) (by rw [hname.1]; exact Bool.false_ne_true)
    | cons part names =>
      obtain ⟨rfl, hrest⟩ := List.cons_eq_cons.mp hwhole
      refine .link hname hshort hlink (ih hidle ?_)
      rw [List.append_assoc]
      exact congrArg (Path.ofText target ++ ·) hrest

/-- A path that leads somewhere leads there with idle parts at its end. -/
theorem Leads.append_idle {idle : List String} (h : Leads d links spot names places left goal)
    (hidle : ∀ part ∈ idle, Path.isIdle part = true) : Leads d links spot (names ++ idle) places left goal := by
  induction h with
  | done links spot =>
    induction idle with
    | nil => exact .done links spot
    | cons part idle ih =>
      rw [List.forall_mem_cons] at hidle
      exact .idle hidle.1 (ih hidle.2)
  | idle hpart _ ih => exact .idle hpart ih
  | up _ ih => exact .up ih
  | down hname hshort hdir _ ih => exact .down hname hshort hdir ih
  | link hname hshort hlink _ ih =>
    rw [List.append_assoc] at ih
    exact .link hname hshort hlink ih

/-- A path that leads somewhere leads on to a directory there. -/
theorem Leads.append_dir {name : String} (h : Leads d links spot names places left goal) (hname : IsName name)
    (hshort : ¬longestName < name.utf8ByteSize) (hdir : d.stand? (goal ++ [name]) = some .dir) :
    Leads d links spot (names ++ [name]) (places ++ [goal ++ [name]]) left (goal ++ [name]) := by
  induction h with
  | done links spot => exact .down hname hshort hdir (.done links _)
  | idle hpart _ ih => exact .idle hpart (ih hdir)
  | up _ ih => exact .up (ih hdir)
  | down hname' hshort' hdir' _ ih => exact .down hname' hshort' hdir' (ih hdir)
  | link hname' hshort' hlink _ ih =>
    have hnext := ih hdir
    rw [List.append_assoc] at hnext
    exact .link hname' hshort' hlink hnext

/-! ## Finding the place of a path -/

/-- An operation of two parts succeeds if both parts do. -/
theorem bind_eq_ok_iff {α β : Type} {first : Except FileError α} {second : α → Except FileError β} {result : β} :
    (first >>= second) = .ok result ↔ ∃ a, first = .ok a ∧ second a = .ok result := by
  cases first with
  | error e => exact iff_of_false (fun h => by cases h) fun ⟨_, h, _⟩ => by cases h
  | ok a => exact ⟨fun h => ⟨a, rfl, h⟩, fun ⟨_, ha, h⟩ => Except.ok.inj ha ▸ h⟩

/-- The place of a path is found by following it. -/
theorem follow_of_resolve {follows : Bool} {p : Path} {s : Spot} (h : resolve d follows p = .ok s) :
    follow d follows mostLinks [] p = .ok s := by
  obtain ⟨-, -, hs⟩ := bind_eq_ok_iff.mp h
  exact hs

/-- What is asked for by path is what is found where the path is resolved to. -/
theorem entryAt_eq_ok_iff {follows : Bool} {p : Path} {s : Spot} {e : Entry} :
    entryAt d follows p = .ok (s, e) ↔ resolve d follows p = .ok s ∧ d.find? s = some e := by
  rw [entryAt, bind_eq_ok_iff]
  constructor
  · rintro ⟨place, hs, hfound⟩
    split at hfound
    · next found hfind =>
      obtain ⟨rfl, rfl⟩ := Prod.mk.inj (Except.ok.inj hfound)
      exact ⟨hs, hfind⟩
    · cases hfound
  · rintro ⟨hs, hfind⟩
    refine ⟨s, hs, ?_⟩
    rw [hfind]
    rfl

/-- The place of an entry of a directory that a path leads to depends on nothing but names. -/
theorem Leads.resolve_entry (h : Leads d mostLinks [] names places left goal) {name : String} (hname : IsName name) :
    resolve d false (names ++ [name]) = checkText (names ++ [name]) >>= fun _ =>
      if longestName < name.utf8ByteSize then .error .nameTooLong else .ok (goal ++ [name]) := by
  rw [resolve, h.follow_append (Or.inl (List.cons_ne_nil _ _)), follow_entry hname]

/-- An entry of a directory that a path leads to has its place there. -/
theorem Leads.eq_of_resolve_entry (h : Leads d mostLinks [] names places left goal) {name : String} (hname : IsName name) {s : Spot}
    (hs : resolve d false (names ++ [name]) = .ok s) : s = goal ++ [name] := by
  rw [h.resolve_entry hname] at hs
  obtain ⟨-, -, hs⟩ := bind_eq_ok_iff.mp hs
  split at hs
  · cases hs
  · exact (Except.ok.inj hs).symm

/-- An entry of a directory in a directory that a path leads to has its place there. -/
theorem Leads.eq_of_resolve_inside (h : Leads d mostLinks [] names places left goal) {name inner : String} (hname : IsName name)
    (hinner : IsName inner) (hdir : d.stand? (goal ++ [name]) = some .dir) {s : Spot}
    (hs : resolve d false (names ++ [name] ++ [inner]) = .ok s) : s = goal ++ [name] ++ [inner] := by
  have hfollow := follow_of_resolve hs
  rw [List.append_assoc, List.singleton_append, h.follow_append (Or.inl (List.cons_ne_nil _ _))] at hfollow
  exact (h.append_dir hname (follow_name_eq_ok hname hfollow).1 hdir).eq_of_resolve_entry hinner hs

/-- A path through an entry of a directory that a path leads to is followed only if that entry is a directory, links aside. -/
theorem Leads.stand?_of_resolve_inside (h : Leads d mostLinks [] names places left goal) {name inner : String} (hname : IsName name)
    (hplain : ∀ target, d.stand? (goal ++ [name]) ≠ some (.link target)) {s : Spot}
    (hs : resolve d false (names ++ [name] ++ [inner]) = .ok s) : d.stand? (goal ++ [name]) = some .dir := by
  have hfollow := follow_of_resolve hs
  rw [List.append_assoc, List.singleton_append, h.follow_append (Or.inl (List.cons_ne_nil _ _))] at hfollow
  rcases (follow_name_eq_ok hname hfollow).2 with ⟨hempty, -⟩ | ⟨hdir, -⟩ | ⟨target, -, hlink, -⟩
  · exact absurd hempty (List.cons_ne_nil _ _)
  · exact hdir
  · exact absurd hlink (hplain target)

/-- A path with a character is not taken for one that leads nowhere. -/
theorem checkText_ne_noEntry {p : Path} (h : p.isNone = false) : checkText p ≠ .error .noEntry := by
  rw [checkText, h]
  split
  · intro hx
    cases hx
  · rw [if_neg Bool.false_ne_true]
    split <;> exact fun hx => by cases hx

/-- A path that ends with a name has a character. -/
theorem isNone_concat {name : String} (hname : IsName name) : Path.isNone (names ++ [name]) = false := by
  rw [Bool.eq_false_iff, ne_eq, Path.isNone_iff, not_or]
  refine ⟨List.append_ne_nil_of_right_ne_nil _ (List.cons_ne_nil _ _), fun hempty => ?_⟩
  have hmem : name ∈ [""] := hempty ▸ List.mem_append_right _ (List.mem_singleton_self name)
  have hidle := hname.1
  rw [List.mem_singleton.mp hmem] at hidle
  cases hidle

/-- An entry of a directory that a path leads to has a place, be it there or not. -/
theorem Leads.resolve_entry_ne_noEntry (h : Leads d mostLinks [] names places left goal) {name : String} (hname : IsName name) :
    resolve d false (names ++ [name]) ≠ .error .noEntry := by
  have htext : checkText (names ++ [name]) ≠ .error .noEntry := checkText_ne_noEntry (isNone_concat hname)
  rw [h.resolve_entry hname]
  cases hcheck : checkText (names ++ [name]) with
  | error e =>
    rw [hcheck] at htext
    exact fun hs => htext (congrArg Except.error (Except.error.inj hs))
  | ok =>
    change (if longestName < name.utf8ByteSize then Except.error FileError.nameTooLong else .ok (goal ++ [name])) ≠ _
    split <;> exact fun hx => by cases hx

/-- An entry has the same place on all disks on which the path before it leads to the same directory. -/
theorem Leads.resolve_entry_congr {places' : List Spot} {left' : Nat} (h : Leads d mostLinks [] names places left goal)
    (h' : Leads d' mostLinks [] names places' left' goal) {name : String} (hname : IsName name) :
    resolve d' false (names ++ [name]) = resolve d false (names ++ [name]) := by
  rw [h.resolve_entry hname, h'.resolve_entry hname]

/-! ## Directories -/

/-- A path whose trail comes through allowed places only. -/
def Stays (d : Disk) (allowed : Spot → Prop) (p : Path) : Prop :=
  ∃ places goal, Trail d [] p places goal ∧ ∀ s ∈ places, allowed s

/-- The beginning of a path stays where the path does. -/
theorem Stays.of_append {allowed : Spot → Prop} {before after : Path} (h : Stays d allowed (before ++ after)) :
    Stays d allowed before := by
  obtain ⟨places, goal, htrail, hallowed⟩ := h
  obtain ⟨first, mid, second, hfirst, -, rfl⟩ := htrail.split
  exact ⟨first, mid, hfirst, fun s hs => hallowed s (List.mem_append_left _ hs)⟩

/-- The top stays everywhere. -/
theorem stays_top {allowed : Spot → Prop} : Stays d allowed ["", ""] :=
  ⟨[], [], .idle rfl (.idle rfl (.done [])), fun _ hs => absurd hs List.not_mem_nil⟩

/-- The directory that a path stands in stays where the path does. -/
theorem Stays.parent {allowed : Spot → Prop} {p above : Path} (h : Stays d allowed p) (habove : p.parent? = some above)
    (hsome : above.isNone = false) : Stays d allowed above := by
  rcases Path.parent?_eq_some habove with hnone | rfl | ⟨removed, rfl, -⟩
  · rw [hsome] at hnone
    cases hnone
  · exact stays_top
  · exact h.of_append

/-- Making a directory puts an empty one where nothing is. -/
theorem makeDir_eq_ok {p : Path} (h : makeDir d p = .ok d') :
    checkText p = .ok () ∧
      ∃ s, follow d false mostLinks [] (bare p) = .ok s ∧ d.stand? s = none ∧ d' = d.replace s (some .empty) := by
  obtain ⟨⟨⟩, htext, h⟩ := bind_eq_ok_iff.mp h
  refine ⟨htext, ?_⟩
  obtain ⟨s, hs, hmade⟩ := bind_eq_ok_iff.mp h
  split at hmade
  · cases hmade
  · next hnone => exact ⟨s, hs, Entry.stand?_eq_none_iff.mpr hnone, (Except.ok.inj hmade).symm⟩

/-- A directory that is ensured has been made, or was there. -/
theorem ensureDir_cases {p : Path} (h : ensureDir d p = .ok d') : makeDir d p = .ok d' ∨ d' = d ∧ hasDir d p = true := by
  rw [ensureDir] at h
  split at h
  · next hmade => exact Or.inl (hmade.trans h)
  · cases h
  · split at h
    · next hdir => exact Or.inr ⟨(Except.ok.inj h).symm, hdir⟩
    · cases h

/-- A path that has a directory is resolved to one. -/
theorem hasDir_eq_true {p : Path} (h : hasDir d p = true) : ∃ s, resolve d true p = .ok s ∧ d.stand? s = some .dir := by
  rw [hasDir] at h
  split at h
  · next s e hentry =>
    obtain ⟨hs, hfind⟩ := entryAt_eq_ok_iff.mp hentry
    refine ⟨s, hs, ?_⟩
    rw [Entry.stand?, hfind]
    cases e with
    | dir children => rfl
    | file contents => cases h
    | link target => cases h
  · cases h

/-- Ensuring a directory changes nothing but that an empty one may appear, at an allowed place in a directory. -/
theorem ensureDir_eq_ok {allowed : Spot → Prop} {p : Path} (htop : d.stand? [] = some .dir) (hstays : Stays d allowed p)
    (h : ensureDir d p = .ok d') : d' = d ∨ ∃ parent name, allowed (parent ++ [name]) ∧ d.stand? parent = some .dir ∧
      d.stand? (parent ++ [name]) = none ∧ d' = d.replace (parent ++ [name]) (some .empty) := by
  rcases ensureDir_cases h with hmade | ⟨rfl, -⟩
  · obtain ⟨-, s, hs, hnone, rfl⟩ := makeDir_eq_ok hmade
    obtain ⟨idle, hp, -⟩ := Path.exists_bare_append p
    rw [hp] at hstays
    obtain ⟨places, goal, htrail, hallowed⟩ := hstays.of_append
    rcases (htrail.of_follow_eq_ok htop hs).2 with hdir | ⟨hmem, parent, name, rfl, hparent⟩
    · rw [hnone] at hdir
      cases hdir
    · exact Or.inr ⟨parent, name, hallowed _ hmem, hparent, hnone, rfl⟩
  · exact Or.inl rfl

/-- What stands on a disk after an entry with nothing below it has been put into a directory, not in place of a directory. -/
theorem stand?_replace_leaf {parent : Spot} {name : String} {e : Entry} (hleaf : ∀ t ≠ [], e.stand? t = none)
    (hparent : d.stand? parent = some .dir) (hplain : d.stand? (parent ++ [name]) ≠ some .dir) (t : Spot) :
    Entry.stand? (d.replace (parent ++ [name]) (some e)) t = if t = parent ++ [name] then some e.stand else d.stand? t := by
  by_cases hbelow : parent ++ [name] <+: t
  · obtain ⟨inside, rfl⟩ := hbelow
    have hfound := Entry.find?_replace_append hparent name (some e) inside
    have hstand : Entry.stand? (d.replace (parent ++ [name]) (some e)) (parent ++ [name] ++ inside) = e.stand? inside := by
      rw [Entry.stand?, hfound]
      rfl
    rw [hstand]
    by_cases hinside : inside = []
    · rw [hinside, List.append_nil, if_pos rfl, Entry.stand?, Entry.find?_nil]
      rfl
    · have hne : parent ++ [name] ++ inside ≠ parent ++ [name] := fun heq => hinside (List.append_right_eq_self.mp heq)
      rw [if_neg hne, hleaf inside hinside, Entry.stand?_append_eq_none hplain hinside]
  · have hne : t ≠ parent ++ [name] := fun heq => hbelow (heq ▸ List.prefix_rfl)
    rw [if_neg hne, Entry.stand?_replace_of_not_prefix hbelow]

/-- What stands on a disk after an empty directory has appeared. -/
theorem stand?_replace_empty {parent : Spot} {name : String} (hparent : d.stand? parent = some .dir)
    (hnone : d.stand? (parent ++ [name]) = none) (t : Spot) :
    Entry.stand? (d.replace (parent ++ [name]) (some .empty)) t =
      if t = parent ++ [name] then some .dir else d.stand? t := by
  refine stand?_replace_leaf (fun t ht => ?_) hparent (by rw [hnone]; exact fun hx => by cases hx) t
  obtain ⟨name, rest, rfl⟩ := List.exists_cons_of_ne_nil ht
  rfl

/-- Where at most a directory has appeared, and that in some places alone, that stays so when an empty one appears in such a place. -/
theorem gained_replace_empty {initial : Disk} {P : Spot → Prop} {parent s : Spot} {name : String}
    (h : d.stand? s = initial.stand? s ∨ P s ∧ initial.stand? s = none ∧ d.stand? s = some .dir) (hplace : P (parent ++ [name]))
    (hparent : d.stand? parent = some .dir) (hnone : d.stand? (parent ++ [name]) = none) :
    Entry.stand? (d.replace (parent ++ [name]) (some .empty)) s = initial.stand? s ∨
      P s ∧ initial.stand? s = none ∧ Entry.stand? (d.replace (parent ++ [name]) (some .empty)) s = some .dir := by
  rw [stand?_replace_empty hparent hnone]
  by_cases heq : s = parent ++ [name]
  · subst heq
    rw [if_pos rfl]
    rcases h with hsame | ⟨-, -, hdir⟩
    · exact Or.inr ⟨hplace, hsame.symm.trans hnone, rfl⟩
    · rw [hnone] at hdir
      cases hdir
  · rw [if_neg heq]
    exact h

/-- What stands on a disk after a file has been written. -/
theorem stand?_replace_file {parent : Spot} {name : String} (hparent : d.stand? parent = some .dir)
    (hplain : d.stand? (parent ++ [name]) ≠ some .dir) (contents : ByteArray) (t : Spot) :
    Entry.stand? (d.replace (parent ++ [name]) (some (.file contents))) t =
      if t = parent ++ [name] then some (.file contents) else d.stand? t := by
  refine stand?_replace_leaf (fun t ht => ?_) hparent hplain t
  obtain ⟨name, rest, rfl⟩ := List.exists_cons_of_ne_nil ht
  rfl

/-- When an empty directory appears, the links stay. -/
theorem link_iff_of_replace_empty {parent : Spot} {name : String} (hparent : d.stand? parent = some .dir)
    (hnone : d.stand? (parent ++ [name]) = none) (t : Spot) (target : String) :
    Entry.stand? (d.replace (parent ++ [name]) (some .empty)) t = some (.link target) ↔ d.stand? t = some (.link target) := by
  rw [stand?_replace_empty hparent hnone]
  by_cases ht : t = parent ++ [name]
  · rw [if_pos ht, ht, hnone]
    exact iff_of_false (fun hx => by cases hx) (fun hx => by cases hx)
  · rw [if_neg ht]

/-- When an empty directory appears, a path stays where it does. -/
theorem Stays.replace_empty {allowed : Spot → Prop} {p : Path} (h : Stays d allowed p) {parent : Spot} {name : String}
    (hparent : d.stand? parent = some .dir) (hnone : d.stand? (parent ++ [name]) = none) :
    Stays (d.replace (parent ++ [name]) (some .empty)) allowed p := by
  obtain ⟨places, goal, htrail, hallowed⟩ := h
  exact ⟨places, goal, htrail.congr fun s _ target => link_iff_of_replace_empty hparent hnone s target, hallowed⟩

/-- A path whose directory has been ensured leads to it. -/
theorem Trail.leads_of_ensureDir {p : Path} (htrail : Trail d [] p places goal) (htop : d.stand? [] = some .dir)
    (h : ensureDir d p = .ok d') : ∃ left, Leads d' mostLinks [] p places left goal := by
  rcases ensureDir_cases h with hmade | ⟨rfl, hdir⟩
  · obtain ⟨-, s, hs, hnone, rfl⟩ := makeDir_eq_ok hmade
    obtain ⟨idle, hp, hidle⟩ := Path.exists_bare_append p
    rw [hp] at htrail
    have hbare := htrail.cut hidle
    obtain ⟨parent, name, rfl, hparent⟩ : ∃ parent name, s = parent ++ [name] ∧ d.stand? parent = some .dir := by
      rcases (hbare.of_follow_eq_ok htop hs).2 with hdir | ⟨-, hx⟩
      · rw [hnone] at hdir
        cases hdir
      · exact hx
    have hstand := stand?_replace_empty hparent hnone
    have hmade := (hstand (parent ++ [name])).trans (if_pos rfl)
    have hsame : ∀ t ≠ parent ++ [name], Entry.stand? (d.replace (parent ++ [name]) (some .empty)) t = d.stand? t :=
      fun t ht => (hstand t).trans (if_neg ht)
    have hfollow := hbare.follow_of_made hs hnone hmade hsame
    have hmoved := hbare.congr fun q _ target => link_iff_of_replace_empty hparent hnone q target
    obtain ⟨left, hleads⟩ := hmoved.leads hfollow hmade
    rw [hp]
    exact ⟨left, hleads.append_idle hidle⟩
  · obtain ⟨s, hs, hstand⟩ := hasDir_eq_true hdir
    exact htrail.leads (follow_of_resolve hs) hstand

/-- A path whose directory has been ensured has a trail. -/
theorem exists_trail_of_ensureDir {p : Path} (h : ensureDir d p = .ok d') : ∃ places goal, Trail d [] p places goal := by
  rcases ensureDir_cases h with hmade | ⟨rfl, hdir⟩
  · obtain ⟨-, s, hs, hnone, -⟩ := makeDir_eq_ok hmade
    obtain ⟨idle, hp, hidle⟩ := Path.exists_bare_append p
    have hfollow : follow d false mostLinks [] (bare p ++ []) = .ok s := by
      rw [List.append_nil]
      exact hs
    have hplain : ∀ target, d.stand? s ≠ some (.link target) := fun target hx => by
      rw [hnone] at hx
      cases hx
    obtain ⟨places, goal, htrail⟩ := exists_trail_of_follow hfollow (Or.inr (Or.inr hplain))
    rw [hp]
    exact ⟨_, goal, htrail.append (trail_of_idle hidle goal)⟩
  · obtain ⟨s, hs, -⟩ := hasDir_eq_true hdir
    have hfollow : follow d' true mostLinks [] (p ++ []) = .ok s := by
      rw [List.append_nil]
      exact follow_of_resolve hs
    exact exists_trail_of_follow hfollow (Or.inr (Or.inl rfl))

/-! ## Files and removals -/

/-- Writing a file puts it where the path is resolved to, unless that is a directory. -/
theorem exists_of_write_eq_ok {p : Path} {contents : ByteArray} (h : write d p contents = .ok d') :
    ∃ s, resolve d true p = .ok s ∧ d.stand? s ≠ some .dir ∧ d' = d.replace s (some (.file contents)) := by
  rw [write] at h
  split at h
  · obtain ⟨-, -, hparts⟩ := bind_eq_ok_iff.mp h
    obtain ⟨-, -, hnever⟩ := bind_eq_ok_iff.mp hparts
    cases hnever
  · obtain ⟨s, hs, hwritten⟩ := bind_eq_ok_iff.mp h
    split at hwritten
    · cases hwritten
    · next hplain =>
      refine ⟨s, hs, fun hdir => ?_, (Except.ok.inj hwritten).symm⟩
      obtain ⟨e, he, hstand⟩ := Option.map_eq_some_iff.mp hdir
      cases e with
      | dir children => exact hplain children he
      | file contents => cases hstand
      | link target => cases hstand

/-- A file is written where the trail of its path ends, in a directory. -/
theorem write_eq_ok {p : Path} {contents : ByteArray} (htrail : Trail d [] p places goal) (htop : d.stand? [] = some .dir)
    (h : write d p contents = .ok d') : goal ∈ places ∧ d.stand? goal ≠ some .dir ∧
      (∃ parent name, goal = parent ++ [name] ∧ d.stand? parent = some .dir) ∧
      d' = d.replace goal (some (.file contents)) := by
  obtain ⟨s, hs, hplain, hwritten⟩ := exists_of_write_eq_ok h
  obtain ⟨hgoal, hplace⟩ := htrail.of_follow_eq_ok htop (follow_of_resolve hs)
  obtain rfl : s = goal := hgoal.resolve_right fun hx => by cases hx.1
  obtain ⟨hmem, hparent⟩ := hplace.resolve_left hplain
  exact ⟨hmem, hplain, hparent, hwritten⟩

/-- A look changes nothing. -/
theorem look_eq_ok {p : Path} (h : look d p = .ok d') : d' = d := by
  obtain ⟨-, -, hd⟩ := bind_eq_ok_iff.mp h
  exact (Except.ok.inj hd).symm

/-- A removal takes the entry away, or something below it. -/
theorem removeOne_eq_ok {p : Path} (h : removeOne d p = .ok d') :
    ∃ s e, resolve d false p = .ok s ∧ d.find? s = some e ∧ d' = d.replace s e.shed := by
  obtain ⟨⟨s, e⟩, hentry, hd⟩ := bind_eq_ok_iff.mp h
  obtain ⟨hs, hfind⟩ := entryAt_eq_ok_iff.mp hentry
  exact ⟨s, e, hs, hfind, (Except.ok.inj hd).symm⟩

/-- Where a path is resolved, only the removal of an entry that is missing fails. -/
theorem find?_of_removeOne_eq_error {p : Path} {s : Spot} {err : FileError} (hs : resolve d false p = .ok s)
    (h : removeOne d p = .error err) : d.find? s = none := by
  by_contra hfound
  obtain ⟨e, he⟩ := Option.ne_none_iff_exists'.mp hfound
  rw [removeOne, entryAt_eq_ok_iff.mpr ⟨hs, he⟩] at h
  cases h

/-- An entry of a directory that a path leads to is missing if its removal finds none. -/
theorem Leads.find?_of_removeOne (h : Leads d mostLinks [] names places left goal) {name : String} (hname : IsName name)
    (hremove : removeOne d (names ++ [name]) = .error .noEntry) : d.find? (goal ++ [name]) = none := by
  cases hs : resolve d false (names ++ [name]) with
  | error err =>
    have hne := h.resolve_entry_ne_noEntry hname
    rw [removeOne, entryAt, hs] at hremove
    have herr : err = .noEntry := Except.error.inj hremove
    rw [hs, herr] at hne
    exact absurd rfl hne
  | ok s =>
    rw [← h.eq_of_resolve_entry hname hs]
    exact find?_of_removeOne_eq_error hs hremove

/-! ## Moves -/

/-- A move to a place apart takes the entry away from where it was and puts it where it is to be. -/
theorem rename_eq_ok {source target : Path} {start finish : Spot} (hstart : ∀ s, resolve d false source = .ok s → s = start)
    (hfinish : ∀ s, resolve d false target = .ok s → s = finish) (hne : start ≠ finish) (h : rename d source target = .ok d') :
    resolve d false source = .ok start ∧ resolve d false target = .ok finish ∧
      ∃ e, d.find? start = some e ∧ d' = (d.replace start none).replace finish (some e) := by
  obtain ⟨⟨s, e⟩, hentry, hrest⟩ := bind_eq_ok_iff.mp h
  obtain ⟨t, ht, hmoved⟩ := bind_eq_ok_iff.mp hrest
  obtain ⟨hs, hfind⟩ := entryAt_eq_ok_iff.mp hentry
  obtain rfl := hstart s hs
  obtain rfl := hfinish t ht
  rw [if_neg hne] at hmoved
  split at hmoved
  · cases hmoved
  · split at hmoved
    · cases hmoved
    · obtain ⟨-, -, hd⟩ := bind_eq_ok_iff.mp hmoved
      exact ⟨hs, ht, e, hfind, (Except.ok.inj hd).symm⟩

section Moved

variable {start : Spot}

/-- What was moved is found where it was moved to. -/
theorem find?_moved_target (hdir : d.stand? spot = some .dir) (hstart : ¬start <+: spot) (name : String) (e : Entry)
    (inside : Spot) :
    Entry.find? (Entry.replace (d.replace start none) (spot ++ [name]) (some e)) (spot ++ [name] ++ inside) = e.find? inside := by
  have hdir' : Entry.stand? (d.replace start none) spot = some .dir :=
    (Entry.stand?_replace_of_not_prefix hstart none).trans hdir
  exact Entry.find?_replace_append hdir' name (some e) inside

/-- Nothing is found where something was moved away. -/
theorem find?_moved_source {finish : Spot} {name : String} (hdir : d.stand? spot = some .dir) (hapart : ¬finish <+: spot ++ [name])
    (hapart' : ¬spot ++ [name] <+: finish) (e : Entry) :
    Entry.find? (Entry.replace (d.replace (spot ++ [name]) none) finish (some e)) (spot ++ [name]) = none := by
  rw [Entry.find?_replace_of_apart hapart hapart']
  have hgone := Entry.find?_replace_append hdir name none []
  rwa [List.append_nil] at hgone

/-- A move changes nothing apart from where it begins and ends. -/
theorem find?_moved_apart {finish t : Spot} (hstart : ¬start <+: t ∧ ¬t <+: start) (hfinish : ¬finish <+: t ∧ ¬t <+: finish)
    (e : Entry) : Entry.find? (Entry.replace (d.replace start none) finish (some e)) t = d.find? t := by
  rw [Entry.find?_replace_of_apart hfinish.1 hfinish.2, Entry.find?_replace_of_apart hstart.1 hstart.2]

end Moved

/-- A move to a place apart where nothing is succeeds. -/
theorem rename_of_free {source target : Path} {start finish : Spot} {e : Entry} (hstart : resolve d false source = .ok start)
    (hfinish : resolve d false target = .ok finish) (hapart : ¬start <+: finish) (hapart' : ¬finish <+: start)
    (he : d.find? start = some e) (hfree : d.find? finish = none) :
    rename d source target = .ok ((d.replace start none).replace finish (some e)) := by
  have hne : start ≠ finish := fun heq => hapart (heq ▸ List.prefix_rfl)
  have hentry := entryAt_eq_ok_iff.mpr ⟨hstart, he⟩
  have htakes : takesPlace e (d.find? finish) = .ok () := by
    rw [hfree]
    cases e <;> rfl
  rw [rename, hentry, hfinish]
  simp only [bind, Except.bind, pure, Except.pure, if_neg hne, List.isPrefixOf_iff_prefix, if_neg hapart, if_neg hapart', htakes]

end Disk

end Workflow
