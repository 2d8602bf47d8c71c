import Mathlib
import Workflow.Install
import Workflow.Proofs.Disk.Operations

/-!
# What a package is on a disk

The files of a package as a tree: what stands under each name (`packageStand`), and how the path of a file leads through it
(`exists_trail_of_names`).
-/

namespace Workflow

/-! ## Names -/

/-- The names that lead to a file of a package. -/
def Artifact.names (a : Artifact) : Spot := (Path.ofText a.path).names?.getD []

/-- The names of a path that leads down. -/
theorem Path.names?_eq_some {p : Path} {names : List String} (h : p.names? = some names) :
    p.isAbsolute = false ∧ ".." ∉ p ∧ names = p.filter (!isIdle ·) := by
  rw [names?] at h
  split at h
  · cases h
  · next hnot =>
    rw [Bool.or_eq_true, Bool.or_eq_true, not_or, not_or, Bool.not_eq_true] at hnot
    refine ⟨hnot.1.1, fun hup => hnot.2 ?_, (Option.some.inj h).symm⟩
    rw [List.contains_iff_mem, List.mem_filter]
    exact ⟨hup, by decide⟩

/-- The files of an accepted package lie in its root, below at least one name more. -/
theorem packageRoot_eq_ok {artifacts : List Artifact} {known : Option String} {root : String}
    (h : packageRoot known artifacts = .ok root) : (∀ r, known = some r → r = root) ∧
      ∀ a ∈ artifacts, ∃ second rest, (Path.ofText a.path).names? = some (root :: second :: rest) := by
  induction artifacts generalizing known with
  | nil =>
    refine ⟨fun r hr => ?_, fun a ha => absurd ha List.not_mem_nil⟩
    rw [hr] at h
    exact Except.ok.inj h
  | cons a artifacts ih =>
    rw [packageRoot] at h
    split at h
    · next first second rest hnames =>
      cases known with
      | none =>
        obtain ⟨hroot, hall⟩ := ih h
        obtain rfl := hroot first rfl
        exact ⟨fun r hr => (by cases hr), List.forall_mem_cons.mpr ⟨⟨second, rest, hnames⟩, hall⟩⟩
      | some r =>
        simp only at h
        split at h
        · next heq =>
          obtain ⟨hroot, hall⟩ := ih h
          obtain rfl := hroot r rfl
          subst heq
          exact ⟨hroot, List.forall_mem_cons.mpr ⟨⟨second, rest, hnames⟩, hall⟩⟩
        · cases h
    · cases h

/-- An accepted package has files. -/
theorem artifacts_ne_nil {artifacts : List Artifact} {root : String} (h : packageRoot none artifacts = .ok root) :
    artifacts ≠ [] := by
  intro hnil
  rw [hnil] at h
  cases h

/-- An accepted package is accepted after other files of the same root. -/
theorem packageRoot_of_known {artifacts : List Artifact} {root : String} (h : packageRoot none artifacts = .ok root) :
    packageRoot (some root) artifacts = .ok root := by
  cases artifacts with
  | nil => cases h
  | cons a artifacts =>
    rw [packageRoot] at h ⊢
    split at h
    · next first second rest hnames =>
      obtain rfl := (packageRoot_eq_ok h).1 first rfl
      exact (if_pos rfl).trans h
    · cases h

/-- Accepted packages of the same root are accepted together. -/
theorem packageRoot_append {artifacts more : List Artifact} {known : Option String} {root : String}
    (h : packageRoot known artifacts = .ok root) (hmore : packageRoot none more = .ok root) :
    packageRoot known (artifacts ++ more) = .ok root := by
  induction artifacts generalizing known with
  | nil =>
    cases known with
    | none => exact hmore
    | some r =>
      obtain rfl := Except.ok.inj h
      exact packageRoot_of_known hmore
  | cons a artifacts ih =>
    rw [packageRoot] at h
    rw [List.cons_append, packageRoot]
    split at h
    · next first second rest hnames =>
      cases known with
      | none => exact ih h
      | some r =>
        simp only at h
        split at h
        · next heq => exact (if_pos heq).trans (ih h)
        · cases h
    · cases h

/-! ## The tree of a package -/

/-- The contents of the last file with some names. -/
def lastContents? (artifacts : List Artifact) (names : Spot) : Option ByteArray :=
  (artifacts.reverse.find? (·.names = names)).map (·.contents.toUTF8)

/-- What stands under some names in a package: the last file with these names, or a directory on the way to a file. -/
def packageStand (artifacts : List Artifact) (names : Spot) : Option Stand :=
  match lastContents? artifacts names with
  | some contents => some (.file contents)
  | none => if artifacts.any (names.isPrefixOf ·.names) then some .dir else none

/-- Of files with some names the last one counts. -/
theorem lastContents?_concat (artifacts : List Artifact) (a : Artifact) (names : Spot) :
    lastContents? (artifacts ++ [a]) names =
      if names = a.names then some a.contents.toUTF8 else lastContents? artifacts names := by
  rw [lastContents?, List.reverse_append, List.reverse_singleton, List.singleton_append, List.find?_cons]
  by_cases hnames : names = a.names
  · rw [if_pos hnames, hnames]
    simp
  · rw [if_neg hnames, lastContents?]
    simp [Ne.symm hnames]

/-- A file has contents if it belongs to a package. -/
theorem lastContents?_isSome {artifacts : List Artifact} {a : Artifact} (h : a ∈ artifacts) :
    ∃ contents, lastContents? artifacts a.names = some contents := by
  have hfind : (artifacts.reverse.find? (·.names = a.names)).isSome = true :=
    List.find?_isSome.mpr ⟨a, List.mem_reverse.mpr h, decide_eq_true rfl⟩
  obtain ⟨found, hfound⟩ := Option.isSome_iff_exists.mp hfind
  exact ⟨found.contents.toUTF8, by rw [lastContents?, hfound]; rfl⟩

namespace Disk

/-- Parts that lead down, through no link, lead to their names. -/
theorem exists_trail_of_names {d : Disk} {spot : Spot} {parts : List String} (hup : ".." ∉ parts)
    (hplain : ∀ names, names <+: parts.filter (!Path.isIdle ·) → ∀ target, d.stand? (spot ++ names) ≠ some (.link target)) :
    ∃ places, Trail d spot parts places (spot ++ parts.filter (!Path.isIdle ·)) ∧
      ∀ s ∈ places, ∃ names, s = spot ++ names ∧ names <+: parts.filter (!Path.isIdle ·) := by
  induction parts generalizing spot with
  | nil => exact ⟨[], by rw [List.filter_nil, List.append_nil]; exact .done spot, fun s hs => absurd hs List.not_mem_nil⟩
  | cons part parts ih =>
    rw [List.mem_cons, not_or] at hup
    by_cases hidle : Path.isIdle part = true
    · have hfilter : (part :: parts).filter (!Path.isIdle ·) = parts.filter (!Path.isIdle ·) :=
        List.filter_cons_of_neg (by rw [hidle]; decide)
      rw [hfilter] at hplain ⊢
      obtain ⟨places, htrail, hplaces⟩ := ih hup.2 hplain
      exact ⟨places, .idle hidle htrail, hplaces⟩
    · rw [Bool.not_eq_true] at hidle
      have hfilter : (part :: parts).filter (!Path.isIdle ·) = part :: parts.filter (!Path.isIdle ·) :=
        List.filter_cons_of_pos (by rw [hidle]; rfl)
      rw [hfilter] at hplain ⊢
      have hbelow : ∀ names, names <+: parts.filter (!Path.isIdle ·) → ∀ target,
          d.stand? (spot ++ [part] ++ names) ≠ some (.link target) := by
        intro names hnames target
        rw [List.append_assoc]
        exact hplain _ (List.prefix_cons_inj part |>.mpr hnames) target
      obtain ⟨places, htrail, hplaces⟩ := ih hup.2 hbelow
      rw [List.append_assoc] at htrail
      refine ⟨(spot ++ [part]) :: places, .down ⟨hidle, Ne.symm hup.1⟩ (hplain [part] ?_) htrail, ?_⟩
      · exact List.prefix_cons_inj part |>.mpr List.nil_prefix
      · refine List.forall_mem_cons.mpr ⟨⟨[part], rfl, List.prefix_cons_inj part |>.mpr List.nil_prefix⟩, fun s hs => ?_⟩
        obtain ⟨names, rfl, hnames⟩ := hplaces s hs
        exact ⟨part :: names, by rw [List.append_assoc]; rfl, List.prefix_cons_inj part |>.mpr hnames⟩

end Disk

end Workflow
