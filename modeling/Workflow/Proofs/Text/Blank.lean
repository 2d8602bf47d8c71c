import Mathlib.Data.List.DropRight
import Workflow.Text.Blank

/-!
# Trimmed and blank texts

A text is its own trimmed form exactly if neither its first nor its last character is blank (`trimBlank_eq_self_iff`).
-/

namespace Workflow

/-- Trimming drops the blank characters from the left, then from the right. -/
theorem trimBlankChars_eq (cs : List Char) : trimBlankChars cs = (cs.dropWhile isBlank).rdropWhile isBlank := rfl

/-- Characters are unchanged by trimming exactly if neither the first nor the last of them is blank. -/
theorem trimBlankChars_eq_self_iff {cs : List Char} :
    trimBlankChars cs = cs ↔ (∀ c ∈ cs.head?, isBlank c = false) ∧ ∀ c ∈ cs.getLast?, isBlank c = false := by
  have hhead : cs.dropWhile isBlank = cs ↔ ∀ c ∈ cs.head?, isBlank c = false := by
    cases cs <;> simp [List.dropWhile_eq_self_iff]
  have hlast : cs.rdropWhile isBlank = cs ↔ ∀ c ∈ cs.getLast?, isBlank c = false := by
    rw [List.rdropWhile_eq_self_iff]
    constructor
    · intro h c hc
      obtain ⟨hne, rfl⟩ := List.mem_getLast?_eq_getLast hc
      exact Bool.not_eq_true _ ▸ h hne
    · intro h hne
      rw [h _ (List.getLast?_eq_some_getLast hne)]
      exact Bool.false_ne_true
  rw [trimBlankChars_eq, ← hhead, ← hlast]
  constructor
  · intro h
    have hsuffix := List.dropWhile_suffix (l := cs) isBlank
    have hprefix := List.rdropWhile_prefix isBlank (cs.dropWhile isBlank)
    have hdrop : cs.dropWhile isBlank = cs := by
      refine hsuffix.eq_of_length (Nat.le_antisymm hsuffix.length_le ?_)
      have hlen := hprefix.length_le
      rwa [h] at hlen
    rw [hdrop] at h
    exact ⟨hdrop, h⟩
  · intro hx
    obtain ⟨hdrop, hright⟩ := hx
    rw [hdrop, hright]

/-- A text is unchanged by trimming exactly if neither its first nor its last character is blank. -/
theorem trimBlank_eq_self_iff {s : String} :
    trimBlank s = s ↔ (∀ c ∈ s.toList.head?, isBlank c = false) ∧ ∀ c ∈ s.toList.getLast?, isBlank c = false := by
  rw [← trimBlankChars_eq_self_iff, trimBlank, ← String.toList_inj, String.toList_ofList]

/-- A text is not blank exactly if some character of it is not. -/
theorem isBlankText_eq_false_iff {s : String} : isBlankText s = false ↔ ∃ c ∈ s.toList, isBlank c = false := by
  rw [isBlankText, List.all_eq_false]
  simp only [Bool.not_eq_true]

end Workflow
