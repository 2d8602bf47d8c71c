import Mathlib
import Workflow.Package.Assembly
import Workflow.Proofs.Text.Lines

/-!
# Names that hold

Every name of a workflow becomes an identifier, whatever characters it holds (`isIdentifier_identifierOf`), and the identifiers
given out for a list of names are identifiers too and pairwise distinct (`nodup_freshNames`).
-/

namespace Workflow

/-- The characters that a name may hold. -/
def isNameChar (c : Char) : Bool := c == '_' || c.isAlphanum

/-- A `_` may stand in a name. -/
theorem isNameChar_of_mem_underscore : ∀ c ∈ "_".toList, isNameChar c = true :=
  List.forall_mem_singleton.mpr rfl

/-! ## Words -/

/-- A digit is no letter. -/
theorem not_isAlpha_of_isDigit {c : Char} (h : c.isDigit = true) : c.isAlpha = false := by
  simp only [Char.isDigit, Bool.and_eq_true, decide_eq_true_eq, UInt32.le_iff_toNat_le, ge_iff_le, Char.reduceVal,
    UInt32.reduceToNat] at h
  simp only [Char.isAlpha, Char.isUpper, Char.isLower, Bool.or_eq_false_iff, Bool.and_eq_false_iff,
    decide_eq_false_iff_not, UInt32.le_iff_toNat_le, ge_iff_le, Char.reduceVal, UInt32.reduceToNat]
  omega

/-- The words of a name are not empty and hold letters and digits only. -/
theorem isAlphanum_of_mem_nameWords {cs : List Char} : ∀ word ∈ nameWords cs, word ≠ [] ∧ ∀ c ∈ word, c.isAlphanum = true := by
  induction cs with
  | nil => intro word hw; cases hw
  | cons c rest ih =>
    intro word hw
    rw [nameWords.eq_def] at hw
    by_cases hc : c.isAlphanum = true
    · have hsingle : [c] ≠ [] ∧ ∀ d ∈ [c], d.isAlphanum = true :=
        ⟨List.cons_ne_nil _ _, fun d hd => by rwa [List.mem_singleton.mp hd]⟩
      simp only [hc, if_true] at hw
      split at hw
      · rw [List.mem_singleton.mp hw]
        exact hsingle
      · split at hw
        · rcases List.mem_cons.mp hw with rfl | hw
          · exact hsingle
          · exact ih word hw
        · split at hw
          · rw [List.mem_singleton.mp hw]
            exact hsingle
          · next first words hwords =>
            rcases List.mem_cons.mp hw with rfl | hw
            · refine ⟨List.cons_ne_nil _ _, fun d hd => ?_⟩
              rcases List.mem_cons.mp hd with rfl | hd
              · exact hc
              · exact (ih first (hwords ▸ List.mem_cons_self)).2 d hd
            · exact ih word (hwords ▸ List.mem_cons_of_mem _ hw)
    · simp only [hc, if_false, Bool.false_eq_true] at hw
      exact ih word hw

/-- A letter or digit is the first of the first word of a name that begins with it. -/
theorem nameWords_cons {c : Char} (h : c.isAlphanum = true) (rest : List Char) :
    ∃ word words, nameWords (c :: rest) = (c :: word) :: words := by
  cases rest with
  | nil => exact ⟨[], [], by rw [nameWords, if_pos h]⟩
  | cons d rest =>
    rw [nameWords]
    simp only [h, if_true]
    split
    · exact ⟨[], _, rfl⟩
    · split
      · exact ⟨[], [], rfl⟩
      · exact ⟨_, _, rfl⟩

/-- A letter or digit in lower case is a letter or digit. -/
theorem isAlphanum_toLower {c : Char} (h : c.isAlphanum = true) : c.toLower.isAlphanum = true := by
  rw [Char.isAlphanum, Bool.or_eq_true] at h ⊢
  rcases h with halpha | hdigit
  · exact Or.inl (by rw [Char.isAlpha_toLower_eq_isAlpha, halpha])
  · have hupper : ¬c.isUpper = true := by
      have halpha := not_isAlpha_of_isDigit hdigit
      rw [Char.isAlpha, Bool.or_eq_false_iff] at halpha
      exact Bool.eq_false_iff.mp halpha.1
    rw [Char.toLower_eq_of_not_isUpper hupper]
    exact Or.inr hdigit

/-- A letter or digit in upper case is a letter or digit. -/
theorem isAlphanum_toUpper {c : Char} (h : c.isAlphanum = true) : c.toUpper.isAlphanum = true := by
  rw [Char.isAlphanum, Bool.or_eq_true] at h ⊢
  rcases h with halpha | hdigit
  · exact Or.inl (by rw [Char.isAlpha_toUpper_eq_isAlpha, halpha])
  · have hlower : ¬c.isLower = true := by
      have halpha := not_isAlpha_of_isDigit hdigit
      rw [Char.isAlpha, Bool.or_eq_false_iff] at halpha
      exact Bool.eq_false_iff.mp halpha.2
    rw [Char.toUpper_eq_of_not_isLower hlower]
    exact Or.inr hdigit

/-- The words of a name in lower case are not empty and hold letters and digits only. -/
theorem isAlphanum_of_mem_lowerWords {name : String} :
    ∀ word ∈ lowerWords name, word ≠ [] ∧ ∀ c ∈ word, c.isAlphanum = true := by
  intro word hw
  obtain ⟨origin, ho, rfl⟩ := List.mem_map.mp hw
  obtain ⟨hne, hall⟩ := isAlphanum_of_mem_nameWords origin ho
  refine ⟨List.map_eq_nil_iff.not.mpr hne, fun c hc => ?_⟩
  obtain ⟨d, hd, rfl⟩ := List.mem_map.mp hc
  exact isAlphanum_toLower (hall d hd)

/-! ## Identifiers -/

/-- A text that is not empty and holds characters of names only. -/
def IsNameText (s : String) : Prop := s ≠ "" ∧ ∀ c ∈ s.toList, isNameChar c = true

/-- A name text with name characters after it is a name text. -/
theorem IsNameText.append {s t : String} (hs : IsNameText s) (ht : ∀ c ∈ t.toList, isNameChar c = true) :
    IsNameText (s ++ t) := by
  refine ⟨fun hempty => hs.1 (String.append_eq_empty_iff.mp hempty).1, fun c hc => ?_⟩
  rw [String.toList_append, List.mem_append] at hc
  exact hc.elim (hs.2 c) (ht c)

/-- Every name is on one line. -/
theorem IsNameText.oneLine {s : String} (h : IsNameText s) : OneLine s := by
  intro hmem
  exact absurd (h.2 _ hmem) (by decide)

/-- An identifier begins with a name character that is no digit. -/
theorem beginsIdentifier_eq (c : Char) : (c == '_' || c.isAlpha) = (isNameChar c && !c.isDigit) := by
  rw [isNameChar, Char.isAlphanum]
  by_cases hunder : c = '_'
  · rw [hunder]
    decide
  · rw [beq_eq_false_iff_ne.mpr hunder, Bool.false_or, Bool.false_or]
    cases hdigit : c.isDigit with
    | false => rw [Bool.or_false, Bool.not_false, Bool.and_true]
    | true => rw [not_isAlpha_of_isDigit hdigit, Bool.not_true, Bool.and_false]

/-- An identifier is a name text that neither begins with a digit nor is a keyword. -/
theorem isIdentifier_iff {s : String} :
    isIdentifier s = true ↔ IsNameText s ∧ startsWithDigit s = false ∧ s ∉ keywords := by
  rw [isIdentifier, IsNameText, startsWithDigit, ne_eq, ← String.toList_eq_nil_iff]
  cases s.toList with
  | nil => simp
  | cons c rest =>
    simp only [beginsIdentifier_eq c, Bool.and_eq_true, Bool.not_eq_true', List.all_eq_true, decide_eq_false_iff_not,
      List.forall_mem_cons, reduceCtorEq, not_false_eq_true, true_and]
    simp only [isNameChar]
    tauto

/-- The characters of the snake case of a name. -/
theorem toList_snakeCase (name : String) : (snakeCase name).toList = ['_'].intercalate (lowerWords name) := by
  rw [snakeCase, String.toList_intercalate, List.map_map]
  simp only [Function.comp_def, String.toList_ofList, List.map_id']
  rfl

/-- The snake case of a name is empty or a name text. -/
theorem isNameText_snakeCase {name : String} (h : snakeCase name ≠ "") : IsNameText (snakeCase name) := by
  refine ⟨h, ?_⟩
  rw [toList_snakeCase]
  refine forall_mem_intercalate isNameChar_of_mem_underscore ?_
  intro word hw c hc
  rw [isNameChar, (isAlphanum_of_mem_lowerWords word hw).2 c hc, Bool.or_true]

/-- Every name becomes an identifier, if the fallback is one. -/
theorem isIdentifier_identifierOf {name fallback : String} (h : isIdentifier fallback = true) :
    isIdentifier (identifierOf name fallback) = true := by
  have hwords : IsNameText (if (snakeCase name).isEmpty then fallback else snakeCase name) := by
    split
    · exact (isIdentifier_iff.mp h).1
    · next hne => exact isNameText_snakeCase (String.isEmpty_iff.not.mp hne)
  rw [identifierOf]
  generalize (if (snakeCase name).isEmpty then fallback else snakeCase name) = words at hwords
  have hfirst : IsNameText (if startsWithDigit words then "n_" ++ words else words) ∧
      startsWithDigit (if startsWithDigit words then "n_" ++ words else words) = false := by
    by_cases hd : startsWithDigit words = true
    · rw [if_pos hd]
      have hmark : IsNameText "n_" := ⟨by decide, List.forall_mem_cons.mpr ⟨rfl, isNameChar_of_mem_underscore⟩⟩
      refine ⟨hmark.append hwords.2, ?_⟩
      rw [startsWithDigit, String.toList_append]
      rfl
    · rw [if_neg hd]
      exact ⟨hwords, Bool.eq_false_iff.mpr hd⟩
  generalize (if startsWithDigit words then "n_" ++ words else words) = words at hfirst
  rw [isIdentifier_iff]
  by_cases hk : words ∈ keywords
  · have hmarked : ∀ word ∈ keywords, startsWithDigit (word ++ "_") = false ∧ word ++ "_" ∉ keywords := by decide
    rw [if_pos hk]
    exact ⟨hfirst.1.append isNameChar_of_mem_underscore, hmarked words hk⟩
  · rw [if_neg hk]
    exact ⟨hfirst.1, hfirst.2, hk⟩

/-- A text that begins with a letter. -/
def BeginsWithLetter (s : String) : Prop := ∃ c rest, s.toList = c :: rest ∧ c.isAlpha = true

/-- What begins with a letter does not begin with a digit. -/
theorem BeginsWithLetter.startsWithDigit_eq_false {s : String} (h : BeginsWithLetter s) : startsWithDigit s = false := by
  obtain ⟨c, rest, hs, hc⟩ := h
  rw [startsWithDigit, hs]
  by_contra hdigit
  rw [not_isAlpha_of_isDigit (Bool.not_eq_false _ ▸ hdigit)] at hc
  cases hc

/-- A text after one that begins with a letter changes nothing about its beginning. -/
theorem BeginsWithLetter.append {s : String} (h : BeginsWithLetter s) (t : String) : BeginsWithLetter (s ++ t) := by
  obtain ⟨c, rest, hs, hc⟩ := h
  exact ⟨c, rest ++ t.toList, by rw [String.toList_append, hs, List.cons_append], hc⟩

/-- The snake case of a name begins with a letter, unless it is empty or begins with a digit. -/
theorem beginsWithLetter_snakeCase {name : String} (h : snakeCase name ≠ "")
    (hdigit : startsWithDigit (snakeCase name) = false) : BeginsWithLetter (snakeCase name) := by
  have hwords : ∀ word ∈ lowerWords name, word ≠ [] ∧ ∀ c ∈ word, c.isAlphanum = true := isAlphanum_of_mem_lowerWords
  rw [ne_eq, ← String.toList_eq_nil_iff] at h
  obtain ⟨c, rest, hcs⟩ := List.exists_cons_of_ne_nil h
  have hc : c.isAlphanum = true := by
    rw [toList_snakeCase] at hcs
    cases hlower : lowerWords name with
    | nil =>
      rw [hlower, List.intercalate_nil] at hcs
      cases hcs
    | cons word words =>
      obtain ⟨hne, hall⟩ := hwords word (hlower ▸ List.mem_cons_self)
      obtain ⟨d, ds, rfl⟩ := List.exists_cons_of_ne_nil hne
      rw [hlower] at hcs
      cases words with
      | nil =>
        rw [List.intercalate_singleton, List.cons.injEq] at hcs
        exact hcs.1 ▸ hall d List.mem_cons_self
      | cons next words =>
        rw [List.intercalate_cons_cons, List.append_assoc, List.cons_append, List.cons.injEq] at hcs
        exact hcs.1 ▸ hall d List.mem_cons_self
  have hno : c.isDigit = false := by rwa [startsWithDigit, hcs] at hdigit
  rw [Char.isAlphanum, hno, Bool.or_false] at hc
  exact ⟨c, rest, hcs, hc⟩

/-- Every name becomes an identifier that begins with a letter, if the fallback does. -/
theorem beginsWithLetter_identifierOf {name fallback : String} (h : BeginsWithLetter fallback) :
    BeginsWithLetter (identifierOf name fallback) := by
  have hwords : ∀ words, startsWithDigit words = true ∨ BeginsWithLetter words →
      BeginsWithLetter (if startsWithDigit words then "n_" ++ words else words) := by
    intro words hor
    split
    · exact BeginsWithLetter.append ⟨'n', ['_'], rfl, rfl⟩ words
    · next hno => exact hor.resolve_left hno
  have hmark : ∀ words, BeginsWithLetter words → BeginsWithLetter (if words ∈ keywords then words ++ "_" else words) := by
    intro words hletter
    split
    · exact hletter.append "_"
    · exact hletter
  rw [identifierOf]
  refine hmark _ (hwords _ ?_)
  split
  · exact Or.inr h
  · next hne =>
    rcases Bool.eq_false_or_eq_true (startsWithDigit (snakeCase name)) with hd | hd
    · exact Or.inl hd
    · exact Or.inr (beginsWithLetter_snakeCase (String.isEmpty_iff.not.mp hne) hd)

/-- A text without capitals. -/
def IsLowerCase (s : String) : Prop := ∀ c ∈ s.toList, c.isUpper = false

instance : DecidablePred IsLowerCase := fun s =>
  decidable_of_iff (s.toList.all (!·.isUpper) = true) (by simp only [List.all_eq_true, Bool.not_eq_true', IsLowerCase])

/-- Texts without capitals together have none. -/
theorem IsLowerCase.append {s t : String} (hs : IsLowerCase s) (ht : IsLowerCase t) : IsLowerCase (s ++ t) := by
  rw [IsLowerCase, String.toList_append]
  exact List.forall_mem_append.mpr ⟨hs, ht⟩

/-- A text without capitals is the same in lower case. -/
theorem IsLowerCase.toLower_eq {s : String} (h : IsLowerCase s) : s.toLower = s := by
  rw [← String.toList_inj, String.toLower, String.toList_map]
  have hsame : ∀ c ∈ s.toList, c.toLower = id c := fun c hc =>
    Char.toLower_eq_of_not_isUpper (Bool.eq_false_iff.mp (h c hc))
  rw [List.map_congr_left hsame, List.map_id]

/-- The snake case of a name has no capitals. -/
theorem isLowerCase_snakeCase (name : String) : IsLowerCase (snakeCase name) := by
  rw [IsLowerCase, toList_snakeCase]
  refine forall_mem_intercalate (List.forall_mem_singleton.mpr (by decide)) ?_
  intro word hw c hc
  obtain ⟨origin, -, rfl⟩ := List.mem_map.mp hw
  obtain ⟨d, -, rfl⟩ := List.mem_map.mp hc
  exact Char.isUpper_toLower_eq_false d

/-- Every name becomes an identifier without capitals, if the fallback has none. -/
theorem isLowerCase_identifierOf {name fallback : String} (h : IsLowerCase fallback) : IsLowerCase (identifierOf name fallback) := by
  have hwords : IsLowerCase (if (snakeCase name).isEmpty then fallback else snakeCase name) := by
    split
    · exact h
    · exact isLowerCase_snakeCase name
  have hfirst : ∀ words, IsLowerCase words → IsLowerCase (if startsWithDigit words then "n_" ++ words else words) := by
    intro words hwords
    split
    · exact IsLowerCase.append (by decide) hwords
    · exact hwords
  have hmark : ∀ words, IsLowerCase words → IsLowerCase (if words ∈ keywords then words ++ "_" else words) := by
    intro words hwords
    split
    · exact hwords.append (by decide)
    · exact hwords
  rw [identifierOf]
  exact hmark _ (hfirst _ hwords)

/-- The words of a name that begins with a letter, each capitalized, begin with a capital. -/
theorem begins_pascalCase {name : String} (h : BeginsWithLetter name) :
    ∃ c rest, (pascalCase name).toList = c :: rest ∧ c.isUpper = true := by
  obtain ⟨c, rest, hname, hc⟩ := h
  have halnum : c.isAlphanum = true := by rw [Char.isAlphanum, hc, Bool.true_or]
  obtain ⟨word, words, hwords⟩ := nameWords_cons halnum rest
  refine ⟨c.toLower.toUpper, word.map Char.toLower ++ (words.map fun w => w.map Char.toLower).flatMap capitalized, ?_, ?_⟩
  · rw [pascalCase, String.toList_ofList, lowerWords, hname, hwords]
    rfl
  · rw [Char.isUpper_toUpper_eq_isAlpha, Char.isAlpha_toLower_eq_isAlpha, hc]

/-- So they begin with a letter. -/
theorem beginsWithLetter_pascalCase {name : String} (h : BeginsWithLetter name) : BeginsWithLetter (pascalCase name) := by
  obtain ⟨c, rest, hname, hc⟩ := begins_pascalCase h
  exact ⟨c, rest, hname, by rw [Char.isAlpha, hc, Bool.true_or]⟩

/-- The words of a name, each capitalized, hold characters of names only. -/
theorem isNameChar_of_mem_pascalCase {name : String} : ∀ c ∈ (pascalCase name).toList, isNameChar c = true := by
  intro c hc
  rw [pascalCase, String.toList_ofList, List.mem_flatMap] at hc
  obtain ⟨word, hw, hc⟩ := hc
  have hword := (isAlphanum_of_mem_lowerWords word hw).2
  rw [isNameChar, Bool.or_eq_true]
  cases word with
  | nil => cases hc
  | cons first rest =>
    rcases List.mem_cons.mp hc with rfl | hc
    · exact Or.inr (isAlphanum_toUpper (hword first List.mem_cons_self))
    · exact Or.inr (hword c (List.mem_cons_of_mem _ hc))

/-- The words of a name that begins with a letter, each capitalized, are an identifier with `State` after them. -/
theorem isIdentifier_pascalCase_append_state {name : String} (h : BeginsWithLetter name) :
    isIdentifier (pascalCase name ++ "State") = true := by
  have hstate : "State".toList.all isNameChar = true := by decide
  have hends : ∀ word ∈ keywords, ¬"State".toList <:+ word.toList := by decide
  rw [isIdentifier_iff]
  refine ⟨⟨fun hempty => ?_, fun c hc => ?_⟩, ?_, fun hkeyword => hends _ hkeyword ?_⟩
  · exact absurd (String.append_eq_empty_iff.mp hempty).2 (by decide)
  · rw [String.toList_append, List.mem_append] at hc
    exact hc.elim (isNameChar_of_mem_pascalCase c) (List.all_eq_true.mp hstate c)
  · exact ((beginsWithLetter_pascalCase h).append "State").startsWithDigit_eq_false
  · rw [String.toList_append]
    exact List.suffix_append _ _

/-! ## Names that are told apart -/

/-- A number is written in digits. -/
theorem isDigit_of_mem_toString {n : Nat} {c : Char} (h : c ∈ (toString n).toList) : c.isDigit = true := by
  rw [Nat.toString_eq_ofList_toDigits, String.toList_ofList] at h
  exact Nat.isDigit_of_mem_toDigits (by decide) (by decide) h

/-- A name with a number is a name text if the name is one. -/
theorem isNameText_numbered {base : String} (h : IsNameText base) (n : Nat) : IsNameText (numbered base n) := by
  rw [numbered]
  refine (h.append isNameChar_of_mem_underscore).append ?_
  intro c hc
  rw [isNameChar, Char.isAlphanum, isDigit_of_mem_toString hc, Bool.or_true, Bool.or_true]

/-- A name with a number has no capitals if the name has none. -/
theorem isLowerCase_numbered {base : String} (h : IsLowerCase base) (n : Nat) : IsLowerCase (numbered base n) := by
  rw [numbered]
  refine (h.append (by decide)).append fun c hc => ?_
  have halpha := not_isAlpha_of_isDigit (isDigit_of_mem_toString hc)
  rw [Char.isAlpha, Bool.or_eq_false_iff] at halpha
  exact halpha.1

/-- Names with different numbers are different. -/
theorem numbered_injective {base : String} {m n : Nat} (h : numbered base m = numbered base n) : m = n := by
  rw [numbered, numbered, String.append_right_inj] at h
  exact Nat.repr_injective h

/-- Of more numbered names than are taken one is free. -/
theorem exists_numbered_not_mem (taken : List String) (base : String) (n : Nat) :
    ∃ k, n ≤ k ∧ k ≤ n + taken.length ∧ numbered base k ∉ taken := by
  by_contra hall
  push Not at hall
  have hsub : (List.range' n (taken.length + 1)).map (numbered base) ⊆ taken := by
    intro name hname
    obtain ⟨k, hk, rfl⟩ := List.mem_map.mp hname
    rw [List.mem_range'_1] at hk
    exact hall k hk.1 (by omega)
  have hnodup : ((List.range' n (taken.length + 1)).map (numbered base)).Nodup :=
    List.Nodup.map (fun _ _ => numbered_injective) List.nodup_range'
  have hlen := (List.subperm_of_subset hnodup hsub).length_le
  rw [List.length_map, List.length_range'] at hlen
  omega

/-- Trying up to a free number finds a free name. -/
theorem firstNumbered_not_mem {taken : List String} {base : String} {tries n : Nat}
    (h : ∃ k, n ≤ k ∧ k ≤ n + tries ∧ numbered base k ∉ taken) : firstNumbered taken base tries n ∉ taken := by
  obtain ⟨k, hn, hk, hfree⟩ := h
  induction tries generalizing n with
  | zero =>
    have hkn : k = n := by omega
    rwa [firstNumbered, ← hkn]
  | succ tries ih =>
    rw [firstNumbered]
    split
    · next htaken =>
      have hne : k ≠ n := fun hkn => hfree (hkn ▸ htaken)
      exact ih (by omega) (by omega)
    · next hfree => exact hfree

/-- A numbered name that was searched for is the name with some number. -/
theorem exists_firstNumbered_eq (taken : List String) (base : String) (tries n : Nat) :
    ∃ k, firstNumbered taken base tries n = numbered base k := by
  induction tries generalizing n with
  | zero => exact ⟨n, rfl⟩
  | succ tries ih =>
    rw [firstNumbered]
    split
    · exact ih (n + 1)
    · exact ⟨n, rfl⟩

/-- A fresh name is not taken. -/
theorem freshName_not_mem (taken : List String) (wanted : String) : freshName taken wanted ∉ taken := by
  rw [freshName]
  split
  · exact firstNumbered_not_mem (exists_numbered_not_mem taken wanted 2)
  · next hfree => exact hfree

/-- A name with a number is an identifier if the name is one. -/
theorem isIdentifier_numbered {base : String} (h : isIdentifier base = true) (n : Nat) :
    isIdentifier (numbered base n) = true := by
  obtain ⟨htext, hfirst, -⟩ := isIdentifier_iff.mp h
  have hnumbered := isNameText_numbered htext n
  refine isIdentifier_iff.mpr ⟨hnumbered, ?_, ?_⟩
  · have hne : base.toList ≠ [] := fun hnil => htext.1 (String.toList_eq_nil_iff.mp hnil)
    obtain ⟨c, cs, hcs⟩ := List.exists_cons_of_ne_nil hne
    rw [startsWithDigit, hcs] at hfirst
    rw [numbered, startsWithDigit, String.toList_append, String.toList_append, hcs]
    exact hfirst
  · intro hmem
    have hplain : ∀ word ∈ keywords, '_' ∉ word.toList := by decide
    refine hplain _ hmem ?_
    rw [numbered, String.toList_append, String.toList_append]
    exact List.mem_append_left _ (List.mem_append_right _ (List.mem_singleton_self _))

/-- What holds of a wanted name and of it with any number holds of the fresh name. -/
theorem freshName_induction {p : String → Prop} {wanted : String} (hwanted : p wanted) (hnumbered : ∀ n, p (numbered wanted n))
    (taken : List String) : p (freshName taken wanted) := by
  rw [freshName]
  split
  · obtain ⟨k, hk⟩ := exists_firstNumbered_eq taken wanted taken.length 2
    rw [hk]
    exact hnumbered k
  · exact hwanted

/-- The names given out after others: the ones before them stay, the new ones are as many as were wanted, and all are distinct
if those before were. -/
theorem foldl_freshName (wanted : List String) : ∀ taken : List String,
    (wanted.foldl (fun taken name => taken ++ [freshName taken name]) taken).length = taken.length + wanted.length ∧
    (taken.Nodup → (wanted.foldl (fun taken name => taken ++ [freshName taken name]) taken).Nodup) := by
  induction wanted with
  | nil => intro taken; exact ⟨rfl, id⟩
  | cons first rest ih =>
    intro taken
    obtain ⟨hlength, hnodup⟩ := ih (taken ++ [freshName taken first])
    rw [List.foldl_cons]
    refine ⟨?_, fun h => hnodup ?_⟩
    · rw [hlength, List.length_append, List.length_singleton, List.length_cons]
      omega
    · rw [← List.concat_eq_append]
      exact List.Nodup.concat (freshName_not_mem taken first) h

/-- What holds of the names before and of every fresh name for a wanted one holds of all names given out. -/
theorem forall_mem_foldl_freshName {p : String → Prop} (wanted : List String) : ∀ taken : List String, (∀ name ∈ taken, p name) →
    (∀ name ∈ wanted, ∀ taken, p (freshName taken name)) →
      ∀ name ∈ wanted.foldl (fun taken name => taken ++ [freshName taken name]) taken, p name := by
  induction wanted with
  | nil => exact fun _ htaken _ => htaken
  | cons first rest ih =>
    intro taken htaken hwanted
    rw [List.foldl_cons]
    refine ih _ ?_ fun name hn => hwanted name (List.mem_cons_of_mem _ hn)
    intro name hname
    rcases List.mem_append.mp hname with hname | hname
    · exact htaken name hname
    · rw [List.mem_singleton.mp hname]
      exact hwanted first List.mem_cons_self taken

/-- As many names are given out as were wanted. -/
theorem length_freshNames (wanted : List String) : (freshNames wanted).length = wanted.length := by
  rw [freshNames, (foldl_freshName wanted []).1, List.length_nil, Nat.zero_add]

/-- The names given out are pairwise distinct. -/
theorem nodup_freshNames (wanted : List String) : (freshNames wanted).Nodup :=
  (foldl_freshName wanted []).2 List.nodup_nil

/-- The names given out for identifiers are identifiers. -/
theorem isIdentifier_of_mem_freshNames {wanted : List String} (h : ∀ name ∈ wanted, isIdentifier name = true) :
    ∀ name ∈ freshNames wanted, isIdentifier name = true := by
  refine forall_mem_foldl_freshName wanted [] (fun _ hname => absurd hname List.not_mem_nil) fun name hname taken => ?_
  exact freshName_induction (p := (isIdentifier · = true)) (h name hname) (isIdentifier_numbered (h name hname)) taken

/-! ## The names of a package -/

/-- The name of a routing function is an identifier if the slug is one. -/
theorem Package.isIdentifier_routeFunction {slug : String} (h : isIdentifier slug = true) : isIdentifier (Package.routeFunction slug) = true := by
  obtain ⟨⟨-, hchars⟩, -, -⟩ := isIdentifier_iff.mp h
  have hroute : "route_".toList.all isNameChar = true := by decide
  have hplain : ∀ word ∈ keywords, '_' ∉ word.toList := by decide
  have hlist : (Package.routeFunction slug).toList = 'r' :: ("oute_".toList ++ slug.toList) := by
    rw [Package.routeFunction, String.toList_append]
    rfl
  refine isIdentifier_iff.mpr ⟨⟨?_, ?_⟩, ?_, fun hkeyword => hplain _ hkeyword ?_⟩
  · rw [ne_eq, ← String.toList_eq_nil_iff, hlist]
    exact List.cons_ne_nil _ _
  · rw [Package.routeFunction, String.toList_append]
    exact List.forall_mem_append.mpr ⟨fun c hc => List.all_eq_true.mp hroute c hc, hchars⟩
  · rw [startsWithDigit, hlist]
    rfl
  · rw [Package.routeFunction, String.toList_append]
    exact List.mem_append_left _ (by decide)

namespace Layout

variable {g : Graph} {options : Options}

/-- The name of the package is that of its options, or else that of the workflow. -/
theorem module_ofGraph : (ofGraph g options).module = identifierOf (options.moduleName.getD g.name) "workflow" := by
  rw [ofGraph]

/-- The class of the state is named after the package. -/
theorem stateClass_ofGraph : (ofGraph g options).stateClass = pascalCase (ofGraph g options).module ++ "State" := by
  rw [ofGraph]

/-- The name of the package is an identifier. -/
theorem isIdentifier_module : isIdentifier (ofGraph g options).module = true := by
  rw [module_ofGraph]
  exact isIdentifier_identifierOf (by decide)

/-- The name of the package begins with a letter. -/
theorem beginsWithLetter_module : BeginsWithLetter (ofGraph g options).module := by
  rw [module_ofGraph]
  exact beginsWithLetter_identifierOf ⟨'w', "orkflow".toList, by decide, by decide⟩

/-- The class of the state begins with a capital. -/
theorem begins_stateClass : ∃ c rest, (ofGraph g options).stateClass.toList = c :: rest ∧ c.isUpper = true := by
  obtain ⟨c, rest, hchars, hc⟩ := begins_pascalCase (@beginsWithLetter_module g options)
  exact ⟨c, rest ++ "State".toList, by rw [stateClass_ofGraph, String.toList_append, hchars, List.cons_append], hc⟩

/-- So the class of the state does not begin with any other character. -/
theorem head?_stateClass_ne {c : Char} (h : c.isUpper = false) : (ofGraph g options).stateClass.toList.head? ≠ some c := by
  obtain ⟨first, rest, hchars, hfirst⟩ := @begins_stateClass g options
  rw [hchars]
  intro heq
  rw [Option.some.inj heq, h] at hfirst
  cases hfirst

/-- The class of the state is an identifier. -/
theorem isIdentifier_stateClass : isIdentifier (ofGraph g options).stateClass = true := by
  rw [stateClass_ofGraph]
  exact isIdentifier_pascalCase_append_state beginsWithLetter_module

/-- The class of the state has a name text for its name. -/
theorem isNameText_stateClass : IsNameText (ofGraph g options).stateClass :=
  (isIdentifier_iff.mp isIdentifier_stateClass).1

/-- There is a slug for each node. -/
theorem length_slugs : (ofGraph g options).slugs.length = g.nodes.length := by
  rw [ofGraph, length_freshNames, List.length_map]

/-- Every slug is an identifier. -/
theorem isIdentifier_of_mem_slugs : ∀ slug ∈ (ofGraph g options).slugs, isIdentifier slug = true := by
  refine isIdentifier_of_mem_freshNames fun name hname => ?_
  obtain ⟨n, -, rfl⟩ := List.mem_map.mp hname
  exact isIdentifier_identifierOf (by decide)

/-- Every slug begins with a letter. -/
theorem beginsWithLetter_of_mem_slugs : ∀ slug ∈ (ofGraph g options).slugs, BeginsWithLetter slug := by
  refine forall_mem_foldl_freshName _ [] (fun _ hslug => absurd hslug List.not_mem_nil) fun name hname taken => ?_
  obtain ⟨n, -, rfl⟩ := List.mem_map.mp hname
  have hletter : BeginsWithLetter (identifierOf n.id "node") :=
    beginsWithLetter_identifierOf ⟨'n', "ode".toList, by decide, by decide⟩
  exact freshName_induction hletter (fun k => (hletter.append "_").append (toString k)) taken

/-- No slug has a capital. -/
theorem isLowerCase_of_mem_slugs : ∀ slug ∈ (ofGraph g options).slugs, IsLowerCase slug := by
  refine forall_mem_foldl_freshName _ [] (fun _ hslug => absurd hslug List.not_mem_nil) fun name hname taken => ?_
  obtain ⟨n, -, rfl⟩ := List.mem_map.mp hname
  have hlower : IsLowerCase (identifierOf n.id "node") := isLowerCase_identifierOf (by decide)
  exact freshName_induction hlower (isLowerCase_numbered hlower) taken

/-- The slugs are pairwise distinct. -/
theorem nodup_slugs : (ofGraph g options).slugs.Nodup := nodup_freshNames _

/-- The slugs are those of the nodes, position by position. -/
theorem map_slug_zipIdx : (g.nodes.zipIdx.map fun x => (ofGraph g options).slug x.2) = (ofGraph g options).slugs := by
  refine List.ext_getElem ?_ fun i hi hslugs => ?_
  · rw [List.length_map, List.length_zipIdx, length_slugs]
  · rw [List.getElem_map, List.getElem_zipIdx, Nat.zero_add, slug, List.getElem?_eq_getElem hslugs, Option.getD_some]

/-- There is a slug at the position of a node. -/
theorem slug_mem_slugs {i : Nat} (h : i < g.nodes.length) : (ofGraph g options).slug i ∈ (ofGraph g options).slugs := by
  have hi : i < (ofGraph g options).slugs.length := length_slugs.symm ▸ h
  rw [slug, List.getElem?_eq_getElem hi, Option.getD_some]
  exact List.getElem_mem hi

/-- The slug of a node is a name text. -/
theorem isNameText_slug {i : Nat} (h : i < g.nodes.length) : IsNameText ((ofGraph g options).slug i) :=
  (isIdentifier_iff.mp (isIdentifier_of_mem_slugs _ (slug_mem_slugs h))).1

/-- Different nodes have different slugs. -/
theorem slug_injective {i j : Nat} (hi : i < g.nodes.length) (hj : j < g.nodes.length)
    (h : (ofGraph g options).slug i = (ofGraph g options).slug j) : i = j := by
  have hli : i < (ofGraph g options).slugs.length := length_slugs.symm ▸ hi
  have hlj : j < (ofGraph g options).slugs.length := length_slugs.symm ▸ hj
  rw [slug, slug, List.getElem?_eq_getElem hli, List.getElem?_eq_getElem hlj, Option.getD_some, Option.getD_some] at h
  exact (nodup_freshNames _).getElem_inj_iff.mp h

end Layout

end Workflow
