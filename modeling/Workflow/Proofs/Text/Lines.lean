import Mathlib
import Workflow.Package.Source
import Workflow.Text.Blank

/-!
# Lines of a text

A text cut at its line feeds and put together again: what the lines of a written source are (`lines_renderLines`).
-/

namespace Workflow

/-- The lines of a text, without their line feeds. -/
def linesOf (text : String) : List (List Char) := partsBetween '\n' text.toList

/-- A text that holds no line feed. -/
def OneLine (s : String) : Prop := '\n' ∉ s.toList

instance : DecidablePred OneLine := fun _ => inferInstanceAs (Decidable (_ ∉ _))

/-! ## Texts joined by a separator -/

/-- What holds of the characters of the parts and of the separator holds of the characters of the parts joined. -/
theorem forall_mem_intercalate {p : Char → Prop} {separator : List Char} {parts : List (List Char)}
    (hseparator : ∀ c ∈ separator, p c) (hparts : ∀ part ∈ parts, ∀ c ∈ part, p c) :
    ∀ c ∈ separator.intercalate parts, p c := by
  induction parts with
  | nil =>
    intro c hc
    rw [List.intercalate_nil] at hc
    cases hc
  | cons part parts ih =>
    intro c hc
    cases parts with
    | nil =>
      rw [List.intercalate_singleton] at hc
      exact hparts part List.mem_cons_self c hc
    | cons next parts =>
      rw [List.intercalate_cons_cons, List.mem_append, List.mem_append] at hc
      rcases hc with (hc | hc) | hc
      · exact hparts part List.mem_cons_self c hc
      · exact hseparator c hc
      · exact ih (fun part hp => hparts part (List.mem_cons_of_mem _ hp)) c hc

/-- A character that the separator does not hold stands in texts joined by it exactly if it stands in one of them. -/
theorem mem_intercalate_iff {separator : List Char} {c : Char} (hc : c ∉ separator) {parts : List (List Char)} :
    c ∈ separator.intercalate parts ↔ ∃ part ∈ parts, c ∈ part := by
  induction parts with
  | nil => simp
  | cons part parts ih =>
    cases parts with
    | nil => simp
    | cons next parts => simp [List.intercalate_cons_cons, hc, ih]

/-- Two texts on one line together are one. -/
theorem OneLine.append {s t : String} (hs : OneLine s) (ht : OneLine t) : OneLine (s ++ t) := by
  rw [OneLine, String.toList_append, List.mem_append, not_or]
  exact ⟨hs, ht⟩

/-- Texts on one line joined by one are on one line. -/
theorem oneLine_intercalate {separator : String} {parts : List String} (hs : OneLine separator)
    (hparts : ∀ part ∈ parts, OneLine part) : OneLine (separator.intercalate parts) := by
  rw [OneLine, String.toList_intercalate]
  intro hmem
  refine forall_mem_intercalate (p := (· ≠ '\n')) (fun c hc hfeed => hs (hfeed ▸ hc)) ?_ _ hmem rfl
  intro part hp c hc hfeed
  obtain ⟨text, ht, rfl⟩ := List.mem_map.mp hp
  exact hparts text ht (hfeed ▸ hc)

/-! ## Parts between separators -/

/-- There is always a part. -/
theorem partsBetween_ne_nil (separator : Char) (cs : List Char) : partsBetween separator cs ≠ [] := by
  cases cs with
  | nil => exact List.cons_ne_nil _ _
  | cons c rest =>
    rw [partsBetween]
    split
    · exact List.cons_ne_nil _ _
    · split <;> exact List.cons_ne_nil _ _

/-- A text without the separator is its only part. -/
theorem partsBetween_of_not_mem {separator : Char} {cs : List Char} (h : separator ∉ cs) :
    partsBetween separator cs = [cs] := by
  induction cs with
  | nil => rfl
  | cons c rest ih =>
    have hc : c ≠ separator := fun hc => h (hc ▸ List.mem_cons_self)
    have hrest : separator ∉ rest := fun hr => h (List.mem_cons_of_mem _ hr)
    simp only [partsBetween, ih hrest, hc, if_false]

/-- No part holds the separator. -/
theorem not_mem_of_mem_partsBetween {separator : Char} {cs : List Char} :
    ∀ part ∈ partsBetween separator cs, separator ∉ part := by
  induction cs with
  | nil =>
    intro part hp
    rw [List.mem_singleton.mp hp]
    exact List.not_mem_nil
  | cons c rest ih =>
    intro part hp
    rw [partsBetween] at hp
    obtain ⟨first, parts, hparts⟩ := List.exists_cons_of_ne_nil (partsBetween_ne_nil separator rest)
    simp only [hparts] at hp ih
    by_cases hc : c = separator
    · rw [if_pos hc] at hp
      rcases List.mem_cons.mp hp with rfl | hp
      · exact List.not_mem_nil
      · exact ih part hp
    · rw [if_neg hc] at hp
      rcases List.mem_cons.mp hp with rfl | hp
      · intro hmem
        rcases List.mem_cons.mp hmem with rfl | hmem
        · exact hc rfl
        · exact ih first List.mem_cons_self hmem
      · exact ih part (List.mem_cons_of_mem _ hp)

/-- A part without the separator, ended by it, comes before the parts of what follows. -/
theorem partsBetween_append {separator : Char} {part cs : List Char} (h : separator ∉ part) :
    partsBetween separator (part ++ separator :: cs) = part :: partsBetween separator cs := by
  induction part with
  | nil =>
    obtain ⟨first, parts, hparts⟩ := List.exists_cons_of_ne_nil (partsBetween_ne_nil separator cs)
    simp only [List.nil_append, partsBetween, hparts, if_true]
  | cons c rest ih =>
    have hc : c ≠ separator := fun hc => h (hc ▸ List.mem_cons_self)
    have hrest : separator ∉ rest := fun hr => h (List.mem_cons_of_mem _ hr)
    simp only [List.cons_append, partsBetween, ih hrest, hc, if_false]

/-- The parts of a text, each ended by the separator, are the text ended by it. -/
theorem flatMap_partsBetween (separator : Char) (cs : List Char) :
    (partsBetween separator cs).flatMap (· ++ [separator]) = cs ++ [separator] := by
  induction cs with
  | nil => rfl
  | cons c cs ih =>
    obtain ⟨first, parts, hparts⟩ := List.exists_cons_of_ne_nil (partsBetween_ne_nil separator cs)
    rw [hparts, List.flatMap_cons] at ih
    simp only [partsBetween, hparts]
    split
    · next hc => rw [List.flatMap_cons, List.flatMap_cons, ih, hc, List.nil_append, List.singleton_append, List.cons_append]
    · rw [List.flatMap_cons, List.cons_append, List.cons_append, ih, List.cons_append]

/-- A character that is not the separator stands in a part of a text exactly if it stands in the text. -/
theorem exists_mem_partsBetween_iff {separator c : Char} (hc : c ≠ separator) {cs : List Char} :
    (∃ part ∈ partsBetween separator cs, c ∈ part) ↔ c ∈ cs := by
  have h : c ∈ (partsBetween separator cs).flatMap (· ++ [separator]) ↔ c ∈ cs ++ [separator] := by
    rw [flatMap_partsBetween]
  simpa [hc] using h

/-! ## Lines of a source -/

/-- Indentation is on one line. -/
theorem oneLine_indentation (depth : Nat) : OneLine (indentation depth) := by
  intro hmem
  rw [indentation, String.toList_join, List.mem_flatMap] at hmem
  obtain ⟨s, hs, hmem⟩ := hmem
  rw [List.eq_of_mem_replicate hs] at hmem
  exact absurd hmem (by decide)

/-- Each line that a line stands for is one. -/
theorem oneLine_of_mem_physical {l : Line} : ∀ s ∈ l.physical, OneLine s := by
  intro s hs
  rw [Line.physical, List.mem_map] at hs
  obtain ⟨part, hp, rfl⟩ := hs
  split
  · decide
  · refine (oneLine_indentation l.depth).append ?_
    rw [OneLine, String.toList_ofList]
    exact not_mem_of_mem_partsBetween part hp

/-- The lines that an outermost line stands for are the lines of its text. -/
theorem toList_physical_top (text : String) : (top text).physical.map String.toList = partsBetween '\n' text.toList := by
  have hpart : ∀ part : List Char, (if part.isEmpty then "" else indentation 0 ++ String.ofList part).toList = part := by
    intro part
    split
    · next hempty =>
      rw [List.isEmpty_iff.mp hempty]
      rfl
    · rw [String.toList_append, String.toList_ofList]
      rfl
  rw [Line.physical, List.map_map, top]
  simp only [Function.comp_def, hpart, List.map_id']

/-- A line whose text is on one line stands for itself, indented unless it is empty. -/
theorem Line.physical_of_oneLine {l : Line} (h : OneLine l.text) :
    l.physical = [if l.text = "" then "" else indentation l.depth ++ l.text] := by
  rw [Line.physical, partsBetween_of_not_mem h]
  simp only [List.map_singleton, String.ofList_toList, List.isEmpty_iff, String.toList_eq_nil_iff]

/-- The lines of the text of a source are the ones that its lines stand for, and an empty one after the last line feed. -/
theorem lines_renderLines (lines : List Line) :
    linesOf (renderLines lines) = (lines.flatMap Line.physical).map String.toList ++ [[]] := by
  have hclean : ∀ s ∈ lines.flatMap Line.physical, OneLine s := by
    intro s hs
    obtain ⟨l, -, hs⟩ := List.mem_flatMap.mp hs
    exact oneLine_of_mem_physical s hs
  rw [linesOf, renderLines, String.toList_join, List.flatMap_map]
  generalize lines.flatMap Line.physical = texts at hclean
  induction texts with
  | nil => rfl
  | cons s texts ih =>
    have hs := hclean s List.mem_cons_self
    have hrest := ih fun t ht => hclean t (List.mem_cons_of_mem _ ht)
    rw [List.flatMap_cons, String.toList_append, List.append_assoc, List.map_cons, List.cons_append, ← hrest]
    exact partsBetween_append hs

/-! ## Folded text -/

/-- The words of a text hold no blank character. -/
theorem isBlank_of_mem_wordsOf {cs : List Char} : ∀ word ∈ wordsOf cs, ∀ c ∈ word, isBlank c = false := by
  induction cs with
  | nil => intro word hw; cases hw
  | cons c rest ih =>
    intro word hw
    rw [wordsOf.eq_def] at hw
    by_cases hc : isBlank c = true
    · simp only [hc, if_true] at hw
      exact ih word hw
    · have hsingle : ∀ d ∈ [c], isBlank d = false := fun d hd => by
        rw [List.mem_singleton.mp hd]
        exact Bool.eq_false_iff.mpr hc
      simp only [hc, if_false, Bool.false_eq_true] at hw
      split at hw
      · rw [List.mem_singleton.mp hw]
        exact hsingle
      · split at hw
        · rcases List.mem_cons.mp hw with rfl | hw
          · exact hsingle
          · exact ih word hw
        · split at hw
          · rw [List.mem_singleton.mp hw]
            exact hsingle
          · next first words hwords =>
            rcases List.mem_cons.mp hw with rfl | hw
            · intro d hd
              rcases List.mem_cons.mp hd with rfl | hd
              · exact Bool.eq_false_iff.mpr hc
              · exact ih first (hwords ▸ List.mem_cons_self) d hd
            · exact ih word (hwords ▸ List.mem_cons_of_mem _ hw)

/-- A text folded onto one line holds no blank character but the space. -/
theorem blank_of_mem_foldBlank {s : String} : ∀ c ∈ (foldBlank s).toList, c = ' ' ∨ isBlank c = false := by
  rw [foldBlank, String.toList_intercalate, List.map_map]
  refine forall_mem_intercalate ?_ ?_
  · intro c hc
    exact Or.inl (List.mem_singleton.mp hc)
  · intro part hp c hc
    obtain ⟨word, hw, rfl⟩ := List.mem_map.mp hp
    rw [Function.comp_apply, String.toList_ofList] at hc
    exact Or.inr (isBlank_of_mem_wordsOf word hw c hc)

/-- The words of a text together are its characters that are not blank. -/
theorem flatten_wordsOf (cs : List Char) : (wordsOf cs).flatten = cs.filter (!isBlank ·) := by
  induction cs with
  | nil => rfl
  | cons c rest ih =>
    rw [wordsOf.eq_def]
    by_cases hc : isBlank c = true
    · simp [hc, ih]
    · cases rest with
      | nil => simp [hc]
      | cons d rest =>
        simp only [hc, Bool.false_eq_true, if_false]
        split
        · simp [hc, ih]
        · split
          · next hnone => rw [hnone] at ih; simp [hc, ← ih]
          · next hwords => rw [hwords] at ih; simp [hc, ← ih]

/-- A character that is no space stands in a folded text exactly if it stands in the text and is not blank. -/
theorem mem_foldBlank_iff {s : String} {c : Char} (hc : c ≠ ' ') :
    c ∈ (foldBlank s).toList ↔ c ∈ s.toList ∧ isBlank c = false := by
  have hseparator : c ∉ " ".toList := by simpa using hc
  have hwords : c ∈ (wordsOf s.toList).flatten ↔ c ∈ s.toList.filter (!isBlank ·) := by rw [flatten_wordsOf]
  rw [foldBlank, String.toList_intercalate, mem_intercalate_iff hseparator]
  simpa using hwords

/-- A folded text is on one line. -/
theorem oneLine_foldBlank (s : String) : OneLine (foldBlank s) := by
  intro hmem
  rcases blank_of_mem_foldBlank _ hmem with hspace | hblank
  · exact absurd hspace (by decide)
  · exact absurd hblank (by decide)

end Workflow
