import Mathlib
import Workflow.Proofs.Install.Package
import Workflow.Proofs.Package.Names

/-!
# Where the files of a package lie

The paths of a package's files, part by part. They lead down from the directory of the package and to a place of their own each
(`nodup_paths`), so the package can be written: it is accepted with that directory for its root (`packageRoot_artifacts`).
-/

namespace Workflow

/-! ## Paths -/

namespace Path

/-- A part of a path that leads one step down. -/
structure LeadsDown (part : String) : Prop where
  notIdle : isIdle part = false
  notUp : part ≠ ".."

/-- What begins with another character than a point leads down. -/
theorem leadsDown_of_begins {part : String} {c : Char} {rest : List Char} (h : part.toList = c :: rest) (hc : c ≠ '.') :
    LeadsDown part := by
  have hne : ∀ other : String, other.toList.head? ≠ some c → part ≠ other := by
    intro other hother heq
    rw [← heq, h] at hother
    exact hother rfl
  have hpoint : some '.' ≠ some c := fun heq => hc (Option.some.inj heq).symm
  refine ⟨?_, hne ".." hpoint⟩
  rw [isIdle, Bool.or_eq_false_iff, beq_eq_false_iff_ne, beq_eq_false_iff_ne]
  exact ⟨hne "" (by simp), hne "." hpoint⟩

/-- What begins with a letter leads down. -/
theorem leadsDown_of_beginsWithLetter {part : String} (h : BeginsWithLetter part) : LeadsDown part := by
  obtain ⟨c, rest, hchars, hc⟩ := h
  refine leadsDown_of_begins hchars fun heq => ?_
  rw [heq] at hc
  cases hc

/-- A path whose parts have no slash is read back from its text. -/
theorem ofText_text {p : Path} (hne : p ≠ []) (h : ∀ part ∈ p, '/' ∉ part.toList) : ofText p.text = p := by
  have hread : ∀ q : List String, q ≠ [] → (∀ part ∈ q, '/' ∉ part.toList) →
      partsBetween '/' ("/".intercalate q).toList = q.map String.toList := by
    intro q
    induction q with
    | nil => exact fun hne => absurd rfl hne
    | cons part rest ih =>
      intro _ hparts
      rw [List.forall_mem_cons] at hparts
      cases rest with
      | nil => rw [String.intercalate_singleton, partsBetween_of_not_mem hparts.1, List.map_singleton]
      | cons next rest =>
        rw [String.intercalate_cons_cons, String.toList_append, String.toList_append, List.append_assoc]
        exact (partsBetween_append hparts.1).trans (congrArg _ (ih (List.cons_ne_nil _ _) hparts.2))
  rw [ofText, text, hread p hne h, List.map_map]
  simp only [Function.comp_def, String.ofList_toList, List.map_id']

/-- A path that leads down with every part consists of names. -/
theorem names?_of_leadsDown {p : Path} (h : ∀ part ∈ p, LeadsDown part) : p.names? = some p := by
  have hall : p.filter (!isIdle ·) = p := List.filter_eq_self.mpr fun part hp => by rw [(h part hp).notIdle]; rfl
  have hfirst : ∀ part, isIdle part = true → p.head? ≠ some part := by
    intro part hpart hhead
    have hidle := (h part (List.mem_of_head? hhead)).notIdle
    rw [hpart] at hidle
    cases hidle
  have habsolute : p.isAbsolute = false := by
    rw [isAbsolute, Bool.and_eq_false_iff]
    exact Or.inr (beq_eq_false_iff_ne.mpr (hfirst "" (by decide)))
  have hpoint : (p.head? == some ".") = false := beq_eq_false_iff_ne.mpr (hfirst "." (by decide))
  have hup : p.contains ".." = false :=
    Bool.eq_false_iff.mpr fun hmem => (h ".." (List.contains_iff_mem.mp hmem)).notUp rfl
  rw [names?, hall, habsolute, hpoint, hup]
  rfl

end Path

/-- Files that lie in one directory, below at least one name more, are accepted. -/
theorem packageRoot_of_names {artifacts : List Artifact} {root : String} (hne : artifacts ≠ [])
    (h : ∀ a ∈ artifacts, ∃ second rest, (Path.ofText a.path).names? = some (root :: second :: rest)) :
    packageRoot none artifacts = .ok root := by
  have hknown : ∀ more : List Artifact,
      (∀ a ∈ more, ∃ second rest, (Path.ofText a.path).names? = some (root :: second :: rest)) →
      packageRoot (some root) more = .ok root := by
    intro more
    induction more with
    | nil => exact fun _ => rfl
    | cons a more ih =>
      intro hmore
      rw [List.forall_mem_cons] at hmore
      obtain ⟨⟨second, rest, hnames⟩, hrest⟩ := hmore
      rw [packageRoot, hnames]
      exact (if_pos rfl).trans (ih hrest)
  obtain ⟨a, more, rfl⟩ := List.exists_cons_of_ne_nil hne
  rw [List.forall_mem_cons] at h
  obtain ⟨⟨second, rest, hnames⟩, hrest⟩ := h
  rw [packageRoot, hnames]
  exact hknown more hrest

/-! ## The files of a package -/

namespace Package

/-- The places of a package's files, below the directory of the package, given the slugs of the nodes. -/
def places (slugs : List String) : List Path :=
  [["__init__.py"], ["state.py"], ["runtime.py"], ["nodes", "__init__.py"]] ++ (slugs.map fun slug => ["nodes", slug ++ ".py"]) ++
    [["graph.py"]]

variable {g : Graph} {options : Options}

/-- The parts of the places lead down and have no slash. -/
theorem leadsDown_of_mem_places {slugs : List String} (h : ∀ slug ∈ slugs, IsNameText slug ∧ BeginsWithLetter slug) :
    ∀ place ∈ places slugs, place ≠ [] ∧ ∀ part ∈ place, Path.LeadsDown part ∧ '/' ∉ part.toList := by
  have hfixed : ∀ part ∈ ["__init__.py", "state.py", "runtime.py", "nodes", "graph.py"],
      Path.LeadsDown part ∧ '/' ∉ part.toList := by
    have hall : ∀ part ∈ ["__init__.py", "state.py", "runtime.py", "nodes", "graph.py"],
        (Path.isIdle part = false ∧ part ≠ "..") ∧ '/' ∉ part.toList := by decide
    exact fun part hp => ⟨⟨(hall part hp).1.1, (hall part hp).1.2⟩, (hall part hp).2⟩
  intro place hplace
  rw [places, List.mem_append, List.mem_append, List.mem_singleton, List.mem_map] at hplace
  rcases hplace with (hplace | ⟨slug, hslug, rfl⟩) | rfl
  · have hparts : ∀ place ∈ [["__init__.py"], ["state.py"], ["runtime.py"], ["nodes", "__init__.py"]], place ≠ [] ∧
        ∀ part ∈ place, part ∈ ["__init__.py", "state.py", "runtime.py", "nodes", "graph.py"] := by decide
    exact ⟨(hparts place hplace).1, fun part hp => hfixed part ((hparts place hplace).2 part hp)⟩
  · obtain ⟨htext, hletter⟩ := h slug hslug
    refine ⟨List.cons_ne_nil _ _, List.forall_mem_cons.mpr ⟨hfixed "nodes" (by decide), List.forall_mem_singleton.mpr ?_⟩⟩
    refine ⟨Path.leadsDown_of_beginsWithLetter (hletter.append ".py"), ?_⟩
    rw [String.toList_append, List.mem_append, not_or]
    exact ⟨fun hmem => absurd (htext.2 _ hmem) (by decide), by decide⟩
  · exact ⟨List.cons_ne_nil _ _, List.forall_mem_singleton.mpr (hfixed "graph.py" (by decide))⟩

/-- Distinct slugs other than `__init__` have distinct places. -/
theorem nodup_places {slugs : List String} (h : slugs.Nodup) (hinit : "__init__" ∉ slugs) : (places slugs).Nodup := by
  have hnodes : (slugs.map fun slug => ["nodes", slug ++ ".py"]).Nodup := by
    refine h.map fun a b heq => ?_
    rw [List.cons.injEq, List.cons.injEq, String.append_left_inj] at heq
    exact heq.2.1
  have hlast : ∀ slug : String, ["nodes", slug ++ ".py"] ≠ ["graph.py"] := by
    intro slug heq
    rw [List.cons.injEq] at heq
    exact absurd heq.1 (by decide)
  have hfirst : ∀ place ∈ [["__init__.py"], ["state.py"], ["runtime.py"], ["nodes", "__init__.py"]],
      place ∉ slugs.map fun slug => ["nodes", slug ++ ".py"] := by
    intro place hplace hmem
    obtain ⟨slug, hslug, rfl⟩ := List.mem_map.mp hmem
    have hshape : ∀ place ∈ [["__init__.py"], ["state.py"], ["runtime.py"], ["nodes", "__init__.py"]],
        place.length = 2 → place = ["nodes", "__init__" ++ ".py"] := by decide
    have heq := hshape _ hplace rfl
    rw [List.cons.injEq, List.cons.injEq, String.append_left_inj] at heq
    exact hinit (heq.2.1 ▸ hslug)
  rw [places, List.nodup_append', List.nodup_append']
  refine ⟨⟨by decide, hnodes, fun place hplace hmem => hfirst place hplace hmem⟩, List.nodup_singleton _, ?_⟩
  rw [List.disjoint_singleton, List.mem_append, not_or]
  refine ⟨by decide, fun hmem => ?_⟩
  obtain ⟨slug, -, heq⟩ := List.mem_map.mp hmem
  exact hlast slug heq

/-- No slug is the name of the file that makes a directory a package. -/
theorem init_not_mem_slugs : "__init__" ∉ (Layout.ofGraph g options).slugs := by
  intro hmem
  obtain ⟨c, rest, hchars, hc⟩ := Layout.beginsWithLetter_of_mem_slugs _ hmem
  have hhead : "__init__".toList.head? = some '_' := rfl
  rw [hchars] at hhead
  rw [Option.some.inj hhead] at hc
  cases hc

/-- Slugs are distinct in lower case too. -/
theorem nodup_toLower_slugs : ((Layout.ofGraph g options).slugs.map String.toLower).Nodup := by
  have hsame : ∀ slug ∈ (Layout.ofGraph g options).slugs, slug.toLower = id slug := fun slug hslug =>
    (Layout.isLowerCase_of_mem_slugs slug hslug).toLower_eq
  rw [List.map_congr_left hsame, List.map_id]
  exact Layout.nodup_slugs

/-- The directory of a package, and what is below it to each of its places, lead down and have no slash. -/
theorem leadsDown_of_mem_places_slugs :
    (Path.LeadsDown (Layout.ofGraph g options).module ∧ '/' ∉ (Layout.ofGraph g options).module.toList) ∧
      ∀ place ∈ places (Layout.ofGraph g options).slugs, place ≠ [] ∧ ∀ part ∈ place, Path.LeadsDown part ∧ '/' ∉ part.toList := by
  refine ⟨⟨Path.leadsDown_of_beginsWithLetter Layout.beginsWithLetter_module, fun hmem => ?_⟩,
    leadsDown_of_mem_places fun slug hslug => ⟨?_, Layout.beginsWithLetter_of_mem_slugs slug hslug⟩⟩
  · have htext := (isIdentifier_iff.mp (@Layout.isIdentifier_module g options)).1
    exact absurd (htext.2 _ hmem) (by decide)
  · exact (isIdentifier_iff.mp (Layout.isIdentifier_of_mem_slugs slug hslug)).1

/-- The paths of a package's files lead to its places, below the directory of the package. -/
theorem map_path_artifacts : (artifacts g options).map (fun a => Path.ofText a.path) =
    (places (Layout.ofGraph g options).slugs).map ((Layout.ofGraph g options).module :: ·) := by
  set l := Layout.ofGraph g options with hl
  have hfiles : (artifacts g options).map (·.path) = (places l.slugs).map l.file := by
    rw [places, ← Layout.map_slug_zipIdx, ← hl, artifacts]
    simp only [List.map_append, List.map_cons, List.map_nil, List.map_map]
    rfl
  have hread : ∀ place ∈ places l.slugs, Path.ofText (l.file place) = l.module :: place := by
    intro place hplace
    refine Path.ofText_text (List.cons_ne_nil _ _) (List.forall_mem_cons.mpr ⟨leadsDown_of_mem_places_slugs.1.2, ?_⟩)
    exact fun part hp => ((leadsDown_of_mem_places_slugs.2 place hplace).2 part hp).2
  have hcomp : (artifacts g options).map (fun a => Path.ofText a.path) = ((artifacts g options).map (·.path)).map Path.ofText := by
    rw [List.map_map]
    rfl
  rw [hcomp, hfiles, List.map_map]
  exact List.map_congr_left hread

/-- The files of a package have paths that differ. -/
theorem nodup_paths : ((artifacts g options).map fun a => Path.ofText a.path).Nodup := by
  rw [map_path_artifacts]
  exact (nodup_places Layout.nodup_slugs init_not_mem_slugs).map fun _ _ heq => (List.cons.inj heq).2

/-- The path of a file of a package leads down, from the directory of the package and at least one step more. -/
theorem leadsDown_of_mem_artifacts {a : Artifact} (ha : a ∈ artifacts g options) :
    (∀ part ∈ Path.ofText a.path, Path.LeadsDown part) ∧
      ∃ second rest, Path.ofText a.path = (Layout.ofGraph g options).module :: second :: rest := by
  have hmem := List.mem_map_of_mem (f := fun a => Path.ofText a.path) ha
  rw [map_path_artifacts] at hmem
  obtain ⟨place, hplace, heq⟩ := List.mem_map.mp hmem
  obtain ⟨hne, hparts⟩ := leadsDown_of_mem_places_slugs.2 place hplace
  obtain ⟨second, rest, rfl⟩ := List.exists_cons_of_ne_nil hne
  refine ⟨?_, second, rest, heq.symm⟩
  rw [← heq]
  exact List.forall_mem_cons.mpr ⟨leadsDown_of_mem_places_slugs.1.1, fun part hp => (hparts part hp).1⟩

/-- A package is accepted for writing, with its own directory for the root. -/
theorem packageRoot_artifacts : packageRoot none (artifacts g options) = .ok (Layout.ofGraph g options).module := by
  refine packageRoot_of_names ?_ fun a ha => ?_
  · rw [artifacts]
    exact List.append_ne_nil_of_right_ne_nil _ (List.cons_ne_nil _ _)
  · obtain ⟨hdown, second, rest, heq⟩ := leadsDown_of_mem_artifacts ha
    exact ⟨second, rest, by rw [Path.names?_of_leadsDown hdown, heq]⟩

end Package

end Workflow
