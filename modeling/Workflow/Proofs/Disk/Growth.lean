import Mathlib
import Workflow.Proofs.Disk.Operations

/-!
# Disks on which directories appear

What a path leads to on a disk on which some of its missing directories have appeared (`Grows`). A directory that can be made can
still be made there (`ensureDir_of_grows`), and one that can be made together with those above it can be so there as well
(`Makes.of_grows`): whoever makes a directory of the way in between does not get in the way.
-/

namespace Workflow

/-! ## Parents -/

/-- The directory that a path stands in comes before something of the path that its end does not lose. -/
theorem Path.exists_bare_eq {p above removed : Path} (hp : p = above ++ removed) (hremoved : ∃ part ∈ removed, isIdle part = false) :
    ∃ rest, rest ≠ [] ∧ Disk.bare p = above ++ rest := by
  obtain ⟨idle, hbare, hidle⟩ := exists_bare_append p
  obtain ⟨part, hmem, hpart⟩ := hremoved
  have hnot : part ∉ idle := fun hx => by
    rw [hidle part hx] at hpart
    cases hpart
  rcases List.append_eq_append_iff.mp (hbare.symm.trans hp) with ⟨inner, habove, hinner⟩ | ⟨inner, hrest, hinner⟩
  · rw [hinner] at hnot
    exact absurd (List.mem_append_right _ hmem) hnot
  · refine ⟨inner, ?_, hrest⟩
    rintro rfl
    rw [List.nil_append] at hinner
    exact hnot (hinner ▸ hmem)

namespace Disk

variable {d d' d₁ : Disk} {follows : Bool} {links left : Nat} {spot goal : Spot} {names : List String} {places : List Spot}

/-! ## Disks that agree on a way -/

/-- A path is followed alike where the same stands on its way. -/
theorem Trail.follow_congr (h : Trail d spot names places goal) (hsame : ∀ s ∈ places, d'.stand? s = d.stand? s) :
    follow d' follows links spot names = follow d follows links spot names := by
  induction h generalizing links with
  | done => rw [follow_nil, follow_nil]
  | idle hidle _ ih => rw [follow_idle hidle, follow_idle hidle, ih hsame]
  | up _ ih => rw [follow_up, follow_up, ih hsame]
  | @down spot goal name rest places hname hplain _ ih =>
    rw [List.forall_mem_cons] at hsame
    rw [follow_name hname, follow_name hname, hsame.1]
    split
    · rfl
    · cases hstand : d.stand? (spot ++ [name]) with
      | none => rfl
      | some stand =>
        cases stand with
        | dir => exact ih hsame.2
        | link target => exact absurd hstand (hplain target)
        | file contents => rfl
  | @link spot goal name rest places target hname hlink _ ih =>
    rw [List.forall_mem_cons] at hsame
    rw [follow_name hname, follow_name hname, hsame.1, hlink]
    cases links with
    | zero => rfl
    | succ links => simp only [ih hsame.2]

/-- A path is resolved alike where the same stands on its way. -/
theorem Trail.resolve_congr {p : Path} (h : Trail d [] p places goal) (hsame : ∀ s ∈ places, d'.stand? s = d.stand? s) :
    resolve d' follows p = resolve d follows p := by
  rw [resolve, resolve, h.follow_congr hsame]

/-- Following a path from the top ends there, or at a place that its trail comes through. -/
theorem Trail.mem_of_follow (h : Trail d [] names places goal) (htop : d.stand? [] = some .dir) {s : Spot}
    (hs : follow d follows links [] names = .ok s) : s = [] ∨ s ∈ places := by
  obtain ⟨hgoal | ⟨-, target, hlink⟩, hplace⟩ := h.of_follow_eq_ok htop hs
  · exact (h.mem_of_prefix.2 s (hgoal ▸ List.prefix_rfl)).imp_left List.prefix_nil.mp
  · rcases hplace with hdir | hplace
    · rw [hlink] at hdir
      cases hdir
    · exact Or.inr hplace.1

/-- Making a directory depends on nothing but what stands where its path leads. -/
theorem makeDir_eq (p : Path) :
    makeDir d p = checkText p >>= fun _ => follow d false mostLinks [] (bare p) >>= fun s =>
      if d.stand? s = none then .ok (d.replace s (some .empty)) else .error .alreadyThere := by
  rw [makeDir]
  congr 1
  funext _
  congr 1
  funext s
  cases hs : d.find? s with
  | none => rw [if_pos (Entry.stand?_eq_none_iff.mpr hs)]; rfl
  | some e => rw [if_neg fun hx => by rw [Entry.stand?_eq_none_iff, hs] at hx; cases hx]

/-- A path has a directory if and only if it is resolved to one. -/
theorem hasDir_iff {p : Path} : hasDir d p = true ↔ ∃ s, resolve d true p = .ok s ∧ d.stand? s = some .dir := by
  refine ⟨hasDir_eq_true, ?_⟩
  rintro ⟨s, hs, hdir⟩
  obtain ⟨e, he, hstand⟩ := Option.map_eq_some_iff.mp hdir
  rw [hasDir, entryAt_eq_ok_iff.mpr ⟨hs, he⟩]
  cases e with
  | dir children => rfl
  | file contents => cases hstand
  | link target => cases hstand

/-- On disks that agree on the way of a path, making its directory fails alike, or makes it in the same place. -/
theorem Trail.makeDir_congr {p : Path} (h : Trail d [] p places goal) (htop : d.stand? [] = some .dir)
    (hsame : ∀ s, s = [] ∨ s ∈ places → d'.stand? s = d.stand? s) :
    (∃ e, makeDir d p = .error e ∧ makeDir d' p = .error e) ∨
      ∃ s ∈ places, d.stand? s = none ∧ makeDir d p = .ok (d.replace s (some .empty)) ∧
        makeDir d' p = .ok (d'.replace s (some .empty)) := by
  obtain ⟨idle, hp, hidle⟩ := Path.exists_bare_append p
  have hbare : Trail d [] (bare p) places goal := by
    rw [hp] at h
    exact h.cut hidle
  rw [makeDir_eq, makeDir_eq, hbare.follow_congr fun s hs => hsame s (Or.inr hs)]
  cases checkText p with
  | error e => exact Or.inl ⟨e, rfl, rfl⟩
  | ok =>
    cases hs : follow d false mostLinks [] (bare p) with
    | error e => exact Or.inl ⟨e, rfl, rfl⟩
    | ok s =>
      have hmem := hbare.mem_of_follow htop hs
      simp only [bind, Except.bind, hsame s hmem]
      by_cases hnone : d.stand? s = none
      · have hplace : s ∈ places := hmem.resolve_left fun hx => by
          rw [hx, htop] at hnone
          cases hnone
        exact Or.inr ⟨s, hplace, hnone, if_pos hnone, if_pos hnone⟩
      · exact Or.inl ⟨.alreadyThere, if_neg hnone, if_neg hnone⟩

/-- On disks that agree on the way of a path, ensuring its directory fails alike, finds it on both, or makes it in the same place.
-/
theorem Trail.ensureDir_congr {p : Path} (h : Trail d [] p places goal) (htop : d.stand? [] = some .dir)
    (hsame : ∀ s, s = [] ∨ s ∈ places → d'.stand? s = d.stand? s) :
    (∃ e, ensureDir d p = .error e ∧ ensureDir d' p = .error e) ∨ ensureDir d p = .ok d ∧ ensureDir d' p = .ok d' ∨
      ∃ s ∈ places, d.stand? s = none ∧ ensureDir d p = .ok (d.replace s (some .empty)) ∧
        ensureDir d' p = .ok (d'.replace s (some .empty)) := by
  have hhas : hasDir d' p = hasDir d p := by
    rw [Bool.eq_iff_iff, hasDir_iff, hasDir_iff, h.resolve_congr fun s hs => hsame s (Or.inr hs)]
    refine exists_congr fun s => and_congr_right fun hs => ?_
    rw [hsame s (h.mem_of_follow htop (follow_of_resolve hs))]
  rcases h.makeDir_congr htop hsame with ⟨e, hmake, hmake'⟩ | ⟨s, hplace, hnone, hmake, hmake'⟩
  · rw [ensureDir, ensureDir, hmake, hmake', hhas]
    cases e with
    | noEntry => exact Or.inl ⟨.noEntry, rfl, rfl⟩
    | _ =>
      cases hasDir d p with
      | false => exact Or.inl ⟨_, rfl, rfl⟩
      | true => exact Or.inr (Or.inl ⟨rfl, rfl⟩)
  · rw [ensureDir, ensureDir, hmake, hmake']
    exact Or.inr (Or.inr ⟨s, hplace, hnone, rfl, rfl⟩)

/-! ## Directories that appear -/

/-- What stands at some places is what stood there, but for missing directories that have appeared. -/
def Grows (places : List Spot) (d d' : Disk) : Prop :=
  ∀ s ∈ places, d'.stand? s = d.stand? s ∨ d.stand? s = none ∧ d'.stand? s = some .dir

/-- Nothing may change. -/
theorem Grows.refl (places : List Spot) (d : Disk) : Grows places d d := fun _ _ => Or.inl rfl

/-- What stands at a place stays there. -/
theorem Grows.eq_of_ne_none (h : Grows places d d') {s : Spot} (hs : s ∈ places) (hstood : d.stand? s ≠ none) :
    d'.stand? s = d.stand? s :=
  (h s hs).resolve_right fun hx => hstood hx.1

/-- Nothing but directories of a way has changed on a disk: some that were missing there have appeared. -/
structure Extends (places : List Spot) (d d' : Disk) : Prop where
  stand (s : Spot) : d'.stand? s = d.stand? s ∨ s ∈ places ∧ d.stand? s = none ∧ d'.stand? s = some .dir
  find (s : Spot) : (∀ p ∈ places, ¬s <+: p) → d'.find? s = d.find? s

namespace Extends

/-- Nothing may change. -/
theorem refl (places : List Spot) (d : Disk) : Extends places d d := ⟨fun _ => Or.inl rfl, fun _ _ => rfl⟩

/-- Changes may follow each other. -/
theorem trans (h : Extends places d d₁) (h' : Extends places d₁ d') : Extends places d d' := by
  refine ⟨fun s => ?_, fun s hs => (h'.find s hs).trans (h.find s hs)⟩
  rcases h'.stand s with hsame' | ⟨hs, hnone', hdir'⟩
  · rw [hsame']
    exact h.stand s
  · rcases h.stand s with hsame | ⟨-, -, hdir⟩
    · exact Or.inr ⟨hs, hsame ▸ hnone', hdir'⟩
    · rw [hnone'] at hdir
      cases hdir

/-- Directories may appear on a part of the way alone. -/
theorem mono {others : List Spot} (h : Extends places d d') (hsub : places ⊆ others) : Extends others d d' :=
  ⟨fun s => (h.stand s).imp_right (And.imp_left (hsub ·)), fun s hs => h.find s fun p hp => hs p (hsub hp)⟩

/-- An empty directory appears. -/
theorem of_replace_empty {parent : Spot} {name : String} (hplace : parent ++ [name] ∈ places)
    (hparent : d.stand? parent = some .dir) (hnone : d.stand? (parent ++ [name]) = none) :
    Extends places d (d.replace (parent ++ [name]) (some .empty)) := by
  exact ⟨fun _ => gained_replace_empty (Or.inl rfl) hplace hparent hnone,
    fun s hs => Entry.find?_replace_empty hparent hnone (hs _ hplace)⟩

/-- Wherever one looks, nothing but directories appears. -/
theorem grows (h : Extends places d d') (others : List Spot) : Grows others d d' :=
  fun s _ => (h.stand s).imp_right And.right

/-- The top stays a directory. -/
theorem top (h : Extends places d d') (htop : d.stand? [] = some .dir) : d'.stand? [] = some .dir :=
  ((h.stand []).resolve_right fun hx => by rw [htop] at hx; cases hx.2.1).trans htop

end Extends

/-- Directories that have appeared since other ones did, once all of these are there. -/
theorem Grows.after {all : List Spot} (h : Grows all d d') (hbefore : Extends places d d₁) (hthere : ∀ s ∈ places, d'.stand? s ≠ none) :
    Grows all d₁ d' := by
  intro s hs
  rcases hbefore.stand s with hsame | ⟨hplace, hnone, hdir⟩
  · rw [hsame]
    exact h s hs
  · rcases h s hs with hsame' | ⟨-, hdir'⟩
    · exact absurd (hsame'.trans hnone) (hthere s hplace)
    · exact Or.inl (hdir'.trans hdir.symm)

/-- Directories may appear one after another. -/
theorem Grows.extend {all : List Spot} (h : Grows all d d') (hmore : Extends places d' d₁) : Grows all d d₁ := by
  intro s hs
  rcases hmore.stand s with hsame | ⟨-, hnone, hdir⟩
  · rw [hsame]
    exact h s hs
  · rcases h s hs with hsame' | ⟨-, hdir'⟩
    · exact Or.inr ⟨hsame'.symm.trans hnone, hdir⟩
    · rw [hnone] at hdir'
      cases hdir'

/-- A path keeps its trail when directories appear. -/
theorem Grows.trail (h : Grows places d d') (htrail : Trail d spot names places goal) : Trail d' spot names places goal := by
  refine htrail.congr fun s hs target => ?_
  rcases h s hs with hsame | ⟨hnone, hdir⟩
  · rw [hsame]
  · rw [hnone, hdir]
    exact iff_of_false (fun hx => by cases hx) (fun hx => by cases hx)

/-- A path that leads somewhere still does when directories appear. -/
theorem Grows.leads (h : Grows places d d') (hleads : Leads d links spot names places left goal) :
    Leads d' links spot names places left goal :=
  hleads.congr fun s hs => h.eq_of_ne_none hs (hleads.stand?_ne_none s hs)

/-- Ensuring a directory changes nothing but that it may appear. -/
theorem Trail.extends_of_ensureDir {p : Path} (h : Trail d [] p places goal) (htop : d.stand? [] = some .dir)
    (hmade : ensureDir d p = .ok d') : Extends places d d' := by
  rcases ensureDir_eq_ok htop ⟨places, goal, h, fun _ hs => hs⟩ hmade with rfl | ⟨parent, name, hplace, hparent, hnone, rfl⟩
  · exact .refl places _
  · exact .of_replace_empty hplace hparent hnone

/-- A path leads along its trail. -/
theorem Leads.trail (h : Leads d links spot names places left goal) : Trail d spot names places goal := by
  induction h with
  | done links spot => exact .done spot
  | idle hidle _ ih => exact .idle hidle ih
  | up _ ih => exact .up ih
  | down hname _ hdir _ ih => exact .down hname (fun target hlink => by rw [hdir] at hlink; cases hlink) ih
  | link hname _ hlink _ ih => exact .link hname hlink ih

/-- A path that leads somewhere can be followed. -/
theorem Leads.exists_follow (h : Leads d links spot names places left goal) : ∃ s, follow d follows links spot names = .ok s := by
  induction h with
  | done links spot => exact ⟨spot, follow_nil⟩
  | idle hidle _ ih => rwa [follow_idle hidle]
  | up _ ih => rwa [follow_up]
  | down hname hshort hdir _ ih =>
    rw [follow_name hname, if_neg hshort, hdir]
    exact ih
  | @link links left spot goal name rest places target hname hshort hlink _ ih =>
    rw [follow_name hname, if_neg hshort, hlink]
    simp only
    split
    · exact ⟨_, rfl⟩
    · exact ih

/-- Where a path leads there is a directory. -/
theorem Leads.hasDir {p : Path} (h : Leads d mostLinks [] p places left goal) (htop : d.stand? [] = some .dir)
    (htext : checkText p = .ok ()) : hasDir d p = true := by
  have hgoal : follow d true mostLinks [] (p ++ []) = follow d true left goal [] := h.follow_append (Or.inr rfl)
  rw [List.append_nil, follow_nil] at hgoal
  exact hasDir_iff.mpr ⟨goal, bind_eq_ok_iff.mpr ⟨(), htext, hgoal⟩, h.stand?_goal htop⟩

/-- Where a path leads to a directory, that is ensured. -/
theorem Leads.exists_ensureDir {p : Path} (h : Leads d mostLinks [] p places left goal) (htop : d.stand? [] = some .dir)
    (htext : checkText p = .ok ()) : ∃ made, ensureDir d p = .ok made := by
  have hhas := h.hasDir htop htext
  obtain ⟨idle, hp, hidle⟩ := Path.exists_bare_append p
  have hbare : Leads d mostLinks [] (bare p) places left goal := by
    rw [hp] at h
    exact h.cut hidle
  obtain ⟨s, hs⟩ : ∃ s, follow d false mostLinks [] (bare p) = .ok s := hbare.exists_follow
  rw [ensureDir, hhas, makeDir_eq, htext, hs]
  simp only [bind, Except.bind]
  by_cases hnone : d.stand? s = none
  · exact ⟨_, by rw [if_pos hnone]⟩
  · exact ⟨d, by rw [if_neg hnone]; rfl⟩

/-- The text of a path whose directory is ensured is in order. -/
theorem checkText_of_ensureDir {p : Path} (h : ensureDir d p = .ok d') : checkText p = .ok () := by
  rcases ensureDir_cases h with hmade | ⟨-, hdir⟩
  · exact (makeDir_eq_ok hmade).1
  · obtain ⟨s, hs, -⟩ := hasDir_iff.mp hdir
    obtain ⟨⟨⟩, htext, -⟩ := bind_eq_ok_iff.mp hs
    exact htext

/-- A directory that can be ensured can still be when directories have appeared on the way. -/
theorem Trail.ensureDir_of_grows {p : Path} {all : List Spot} (h : Trail d [] p places goal) (hall : places ⊆ all)
    (htop : d.stand? [] = some .dir) (htop' : d'.stand? [] = some .dir) (hgrows : Grows all d d')
    (hmade : ensureDir d p = .ok d₁) : ∃ made, ensureDir d' p = .ok made := by
  have htext := checkText_of_ensureDir hmade
  obtain ⟨left, hleads⟩ := h.leads_of_ensureDir htop hmade
  rcases ensureDir_eq_ok htop ⟨places, goal, h, fun _ hs => hs⟩ hmade with rfl | ⟨parent, name, hplace, hparent, hnone, rfl⟩
  · have hgrows' : Grows places d₁ d' := fun s hs => hgrows s (hall hs)
    exact (hgrows'.leads hleads).exists_ensureDir htop' htext
  · -- All but the last directory is there; the last one has appeared or has not.
    have hstand := stand?_replace_empty hparent hnone
    have hrest : ∀ s ∈ places, s ≠ parent ++ [name] → d'.stand? s = d.stand? s := by
      intro s hs hne
      have hthere := hleads.stand?_ne_none s hs
      rw [hstand, if_neg hne] at hthere
      exact hgrows.eq_of_ne_none (hall hs) hthere
    rcases hgrows _ (hall hplace) with hsame | ⟨-, hdir⟩
    · have hagree : ∀ s, s = [] ∨ s ∈ places → d'.stand? s = d.stand? s := by
        rintro s (rfl | hs)
        · rw [htop, htop']
        · by_cases heq : s = parent ++ [name]
          · rw [heq, hsame]
          · exact hrest s hs heq
      rcases h.ensureDir_congr htop hagree with ⟨e, hfails, -⟩ | ⟨-, hthere⟩ | ⟨s, -, -, -, hthere⟩
      · cases hmade.symm.trans hfails
      · exact ⟨_, hthere⟩
      · exact ⟨_, hthere⟩
    · have hleads' : Leads d' mostLinks [] p places left goal := by
        refine hleads.congr fun s hs => ?_
        rw [hstand]
        by_cases heq : s = parent ++ [name]
        · rw [if_pos heq, heq, hdir]
        · rw [if_neg heq, hrest s hs heq]
      exact hleads'.exists_ensureDir htop' htext

/-- Where some directories of a way are missing, a path that leads on from its end cannot be followed. -/
theorem Leads.or_missing (h : Leads d links spot names places left goal)
    (hsparse : ∀ s ∈ places, d'.stand? s = d.stand? s ∨ d'.stand? s = none) :
    Leads d' links spot names places left goal ∨
      ∀ follows rest, rest ≠ [] → follow d' follows links spot (names ++ rest) = .error .noEntry := by
  induction h with
  | done links spot => exact Or.inl (.done links spot)
  | idle hidle _ ih =>
    exact (ih hsparse).imp (.idle hidle) fun hx follows rest hrest => by
      rw [List.cons_append, follow_idle hidle, hx follows rest hrest]
  | up _ ih =>
    exact (ih hsparse).imp .up fun hx follows rest hrest => by rw [List.cons_append, follow_up, hx follows rest hrest]
  | @down links left spot goal name names places hname hshort hdir _ ih =>
    rw [List.forall_mem_cons] at hsparse
    rcases hsparse.1 with hsame | hnone
    · refine (ih hsparse.2).imp (.down hname hshort (hsame.trans hdir)) fun hx follows rest hrest => ?_
      rw [List.cons_append, follow_dir hname hshort (hsame.trans hdir)]
      exact hx follows rest hrest
    · exact Or.inr fun follows rest hrest => follow_missing hname hshort hnone (List.append_ne_nil_of_right_ne_nil names hrest)
  | @link links left spot goal name names places target hname hshort hlink _ ih =>
    rw [List.forall_mem_cons] at hsparse
    rcases hsparse.1 with hsame | hnone
    · refine (ih hsparse.2).imp (.link hname hshort (hsame.trans hlink)) fun hx follows rest hrest => ?_
      have hgoes : names ++ rest ≠ [] ∨ follows = true := Or.inl (List.append_ne_nil_of_right_ne_nil names hrest)
      rw [List.cons_append, follow_link hname hshort (hsame.trans hlink) hgoes, ← List.append_assoc, hx follows rest hrest]
    · exact Or.inr fun follows rest hrest => follow_missing hname hshort hnone (List.append_ne_nil_of_right_ne_nil names hrest)

/-- Where some directories of the way to the parent of a path are missing, they are missing for the path too. -/
theorem Leads.parent_or_missing {p above : Path} (h : Leads d mostLinks [] above places left goal) (habove : p.parent? = some above)
    (hsome : above.isNone = false) (hsparse : ∀ s ∈ places, d'.stand? s = d.stand? s ∨ d'.stand? s = none) :
    (∃ left, Leads d' mostLinks [] above places left goal) ∨ follow d' false mostLinks [] (bare p) = .error .noEntry := by
  rcases Path.parent?_eq_some habove with hnone | rfl | ⟨removed, hp, hremoved⟩
  · rw [hsome] at hnone
    cases hnone
  · obtain ⟨rfl, -⟩ := h.trail.of_idle (by decide)
    exact Or.inl ⟨left, h.congr fun s hs => absurd hs List.not_mem_nil⟩
  · obtain ⟨rest, hrest, hbare⟩ := Path.exists_bare_eq hp hremoved
    rw [hbare]
    exact (h.or_missing hsparse).imp (fun hleads => ⟨left, hleads⟩) fun hx => hx false rest hrest

/-- A directory is not made where those above it are missing. -/
theorem ensureDir_eq_missing {p : Path} (htext : checkText p = .ok ())
    (hmissing : follow d false mostLinks [] (bare p) = .error .noEntry) : ensureDir d p = .error .noEntry := by
  rw [ensureDir, makeDir_eq, htext, hmissing]
  rfl

/-! ## Directories with those above them -/

/-- A directory can be made with those above it, so many of which are tried before one is there. -/
inductive Makes : Nat → Disk → Path → Disk → Prop
  | direct {n : Nat} {d d' : Disk} {p : Path} (h : ensureDir d p = .ok d') : Makes n d p d'
  | through {n : Nat} {d d₁ d' : Disk} {p above : Path} (hmissing : ensureDir d p = .error .noEntry)
      (habove : p.parent? = some above) (hsome : above.isNone = false) (hmakes : Makes n d above d₁)
      (h : ensureDir d₁ p = .ok d') : Makes (n + 1) d p d'

/-- The way of the directory that a path stands in is the beginning of the way of the path. -/
theorem Trail.parent {p above : Path} (h : Trail d [] p places goal) (habove : p.parent? = some above)
    (hsome : above.isNone = false) : ∃ before mid, Trail d [] above before mid ∧ before ⊆ places := by
  obtain ⟨before, mid, htrail, hsub⟩ : Stays d (· ∈ places) above :=
    Stays.parent ⟨places, goal, h, fun _ hs => hs⟩ habove hsome
  exact ⟨before, mid, htrail, hsub⟩

namespace Makes

variable {n : Nat} {p : Path}

/-- When a directory has been made with those above it, its path leads to it, and nothing else has changed. -/
theorem extends_and_leads (h : Makes n d p d') (htop : d.stand? [] = some .dir) (htrail : Trail d [] p places goal) :
    Extends places d d' ∧ ∃ left, Leads d' mostLinks [] p places left goal := by
  induction h generalizing places goal with
  | direct h => exact ⟨htrail.extends_of_ensureDir htop h, htrail.leads_of_ensureDir htop h⟩
  | through hmissing habove hsome hmakes h ih =>
    obtain ⟨before, mid, habove', hsub⟩ := htrail.parent habove hsome
    have hfirst := ((ih htop habove').1).mono hsub
    have htrail' := (hfirst.grows places).trail htrail
    have htop' := hfirst.top htop
    exact ⟨hfirst.trans (htrail'.extends_of_ensureDir htop' h), htrail'.leads_of_ensureDir htop' h⟩

/-- A directory that can be made with those above it can still be when directories have appeared on the way. -/
theorem of_grows {all : List Spot} (h : Makes n d p d₁) (htop : d.stand? [] = some .dir) (htrail : Trail d [] p places goal)
    (hall : places ⊆ all) (htop' : d'.stand? [] = some .dir) (hgrows : Grows all d d') : ∃ made, Makes n d' p made := by
  induction h generalizing places goal with
  | direct h =>
    obtain ⟨made, hmade⟩ := htrail.ensureDir_of_grows hall htop htop' hgrows h
    exact ⟨made, .direct hmade⟩
  | @through n d d₁ d₂ p above hmissing habove hsome hmakes h ih =>
    obtain ⟨before, mid, hbefore, hsub⟩ := htrail.parent habove hsome
    obtain ⟨hextends, left, hleads⟩ := hmakes.extends_and_leads htop hbefore
    have htop₁ := hextends.top htop
    have htrail₁ := (hextends.grows places).trail htrail
    have hsparse : ∀ s ∈ before, d'.stand? s = d₁.stand? s ∨ d'.stand? s = none := by
      intro s hs
      rcases hextends.stand s with hsame | ⟨-, hnone, hdir⟩
      · have hthere := hleads.stand?_ne_none s hs
        rw [hsame] at hthere ⊢
        exact Or.inl (hgrows.eq_of_ne_none (hall (hsub hs)) hthere)
      · rcases hgrows s (hall (hsub hs)) with hsame | ⟨-, hdir'⟩
        · exact Or.inr (hsame.trans hnone)
        · exact Or.inl (hdir'.trans hdir.symm)
    rcases hleads.parent_or_missing habove hsome hsparse with ⟨left', hleads'⟩ | hmissing'
    · have hgrows' := hgrows.after hextends hleads'.stand?_ne_none
      obtain ⟨made, hmade⟩ := htrail₁.ensureDir_of_grows hall htop₁ htop' hgrows' h
      exact ⟨made, .direct hmade⟩
    · have hbefore' : Trail d' [] above before mid := Grows.trail (fun s hs => hgrows s (hall (hsub hs))) hbefore
      obtain ⟨above', habove'⟩ := ih htop hbefore (List.Subset.trans hsub hall) hgrows
      obtain ⟨hextends', left', hleads'⟩ := habove'.extends_and_leads htop' hbefore'
      have hgrows' := (hgrows.extend hextends').after hextends hleads'.stand?_ne_none
      obtain ⟨made, hmade⟩ := htrail₁.ensureDir_of_grows hall htop₁ (hextends'.top htop') hgrows' h
      have htext := checkText_of_ensureDir h
      exact ⟨made, .through (ensureDir_eq_missing htext hmissing') habove hsome habove' hmade⟩

/-- A directory that can be made with those above it can be made alone when those are there. -/
theorem exists_ensureDir {above : Path} {before : List Spot} {mid : Spot} (h : Makes n d p d₁) (htop : d.stand? [] = some .dir)
    (htrail : Trail d [] p places goal) (habove : p.parent? = some above) (hleads : Leads d mostLinks [] above before left mid) :
    ∃ made, ensureDir d p = .ok made := by
  cases h with
  | direct h => exact ⟨_, h⟩
  | @through n d d₁ d₂ p above' hmissing habove' hsome hmakes h =>
    obtain rfl := Option.some.inj (habove'.symm.trans habove)
    obtain ⟨hextends, -⟩ := hmakes.extends_and_leads htop hleads.trail
    exact ((hextends.grows places).trail htrail).ensureDir_of_grows (List.Subset.refl places) (hextends.top htop) htop
      ((Grows.refl places d).after hextends hleads.stand?_ne_none) h

end Makes

end Disk

end Workflow
