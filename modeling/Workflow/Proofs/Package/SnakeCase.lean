import Mathlib
import Workflow.Proofs.Package.Names

/-!
# The normal form of names

The words that a name is cut into, joined by `_`, are cut into the same words again (`nameWords_intercalate`). So the snake case of
a name is a normal form (`snakeCase_snakeCase`), and what stands before or after it, as long as it is joined by `_`, leaves its words
as they are.

Read from the front, the snake case of a name holds each letter or digit of it in lower case, with a `_` behind it where its word
ends and another one follows (`snakeChars_cons`). From this step it is told by induction what is kept of the name and what is added
to it: no letter or digit is lost (`withoutUnderscores_snakeChars`), no `_` is astray (`isTidy_snakeChars`), and of two neighbours in
the name it is known what stands between them (`snakeChars_neighbours`).
-/

namespace Workflow

/-- A word of a name in lower case: letters and digits, none of them a capital, and at least one. -/
def IsWord (word : List Char) : Prop := word ≠ [] ∧ ∀ c ∈ word, c.isAlphanum = true ∧ c.isUpper = false

/-- The words of a name in lower case are such words. -/
theorem isWord_of_mem_lowerWords {name : String} : ∀ word ∈ lowerWords name, IsWord word := by
  intro word hw
  obtain ⟨hne, hall⟩ := isAlphanum_of_mem_lowerWords word hw
  refine ⟨hne, fun c hc => ⟨hall c hc, ?_⟩⟩
  obtain ⟨origin, -, rfl⟩ := List.mem_map.mp hw
  obtain ⟨d, -, rfl⟩ := List.mem_map.mp hc
  exact Char.isUpper_toLower_eq_false d

/-- A word is the same in lower case. -/
theorem IsWord.map_toLower {word : List Char} (h : IsWord word) : word.map Char.toLower = word := by
  have hsame : ∀ c ∈ word, c.toLower = id c := fun c hc =>
    Char.toLower_eq_of_not_isUpper (Bool.eq_false_iff.mp (h.2 c hc).2)
  rw [List.map_congr_left hsame, List.map_id]

/-! ## Words cut again -/

/-- What is no letter or digit separates words and leaves nothing behind. -/
theorem nameWords_cons_separator {c : Char} (h : c.isAlphanum = false) (rest : List Char) :
    nameWords (c :: rest) = nameWords rest := by
  rw [nameWords.eq_def]
  simp only [h, Bool.false_eq_true, if_false]

/-- A word is cut off as a whole where no letter or digit follows it: no new word begins inside it, for it has no capitals. -/
theorem nameWords_append {word rest : List Char} (hw : IsWord word) (hrest : ∀ c ∈ rest.head?, c.isAlphanum = false) :
    nameWords (word ++ rest) = word :: nameWords rest := by
  obtain ⟨hne, hall⟩ := hw
  induction word with
  | nil => exact absurd rfl hne
  | cons c word ih =>
    rw [List.forall_mem_cons] at hall
    obtain ⟨⟨hc, -⟩, hword⟩ := hall
    cases word with
    | nil =>
      cases rest with
      | nil => simp only [List.append_nil, nameWords, hc, if_true]
      | cons d rest =>
        have hd : d.isAlphanum = false := hrest d rfl
        rw [List.singleton_append, nameWords, if_pos hc]
        simp only [hd, Bool.not_false, Bool.true_or, if_true]
    | cons d word =>
      have hd : d.isAlphanum = true ∧ d.isUpper = false := hword d List.mem_cons_self
      have hbegins : (!d.isAlphanum || startsWord c d) = false := by rw [startsWord, hd.1, hd.2, Bool.and_false]; rfl
      have hcut := ih (List.cons_ne_nil d word) hword
      rw [List.cons_append, List.cons_append, nameWords, if_pos hc]
      rw [List.cons_append] at hcut
      simp only [hbegins, hcut, Bool.false_eq_true, if_false]

/-- Words joined by `_` are cut into the same words. -/
theorem nameWords_intercalate {words : List (List Char)} (h : ∀ word ∈ words, IsWord word) :
    nameWords (['_'].intercalate words) = words := by
  induction words with
  | nil => rfl
  | cons word words ih =>
    rw [List.forall_mem_cons] at h
    cases words with
    | nil =>
      have hcut : nameWords (word ++ []) = word :: nameWords [] := nameWords_append h.1 fun c hc => absurd hc (by simp)
      rw [List.append_nil] at hcut
      rw [List.intercalate_singleton, hcut, nameWords]
    | cons next words =>
      rw [List.intercalate_cons_cons, List.append_assoc, List.singleton_append]
      rw [nameWords_append h.1 fun c hc => ?_, nameWords_cons_separator rfl, ih h.2]
      rw [← Option.mem_some.mp hc]
      rfl

/-- A separator at the end of a name changes nothing about its words. -/
theorem nameWords_concat_separator {c : Char} (h : c.isAlphanum = false) (cs : List Char) :
    nameWords (cs ++ [c]) = nameWords cs := by
  induction cs with
  | nil => rw [List.nil_append, nameWords_cons_separator h]
  | cons d cs ih =>
    cases hd : d.isAlphanum with
    | false => rw [List.cons_append, nameWords_cons_separator hd, nameWords_cons_separator hd, ih]
    | true =>
      cases cs with
      | nil =>
        simp only [List.singleton_append, nameWords, hd, h, Bool.not_false, Bool.true_or, if_true, Bool.false_eq_true, if_false]
      | cons e cs =>
        rw [List.cons_append] at ih
        rw [List.cons_append, List.cons_append, nameWords, nameWords, if_pos hd, if_pos hd, ih]

/-! ## Snake case -/

/-- The snake case of a name whose characters are words joined by `_` is the name itself. -/
theorem snakeCase_eq_self {name : String} {words : List (List Char)} (h : ∀ word ∈ words, IsWord word)
    (hname : name.toList = ['_'].intercalate words) : snakeCase name = name := by
  have hlower : lowerWords name = words := by
    rw [lowerWords, hname, nameWords_intercalate h]
    exact (List.map_congr_left fun word hw => (h word hw).map_toLower).trans (List.map_id words)
  rw [← String.toList_inj, toList_snakeCase, hlower, hname]

/-- The snake case of a name is a normal form. -/
theorem snakeCase_snakeCase (name : String) : snakeCase (snakeCase name) = snakeCase name :=
  snakeCase_eq_self isWord_of_mem_lowerWords (toList_snakeCase name)

/-- It still is with a word before it, joined by `_`, unless it is empty. -/
theorem snakeCase_word_append {word : String} (hword : IsWord word.toList) {name : String} (h : snakeCase name ≠ "") :
    snakeCase (word ++ "_" ++ snakeCase name) = word ++ "_" ++ snakeCase name := by
  have hwords : lowerWords name ≠ [] := by
    intro hnil
    rw [ne_eq, ← String.toList_eq_nil_iff, toList_snakeCase, hnil] at h
    exact h rfl
  obtain ⟨first, words, hfirst⟩ := List.exists_cons_of_ne_nil hwords
  have hall : ∀ w ∈ word.toList :: lowerWords name, IsWord w := List.forall_mem_cons.mpr ⟨hword, isWord_of_mem_lowerWords⟩
  refine snakeCase_eq_self hall ?_
  rw [String.toList_append, String.toList_append, toList_snakeCase, hfirst, List.intercalate_cons_cons]
  rfl

/-- A `_` at the end of a name leaves its snake case as it is. -/
theorem snakeCase_append_underscore (name : String) : snakeCase (name ++ "_") = snakeCase name := by
  have hchars : (name ++ "_").toList = name.toList ++ ['_'] := by rw [String.toList_append]; rfl
  rw [snakeCase, snakeCase, lowerWords, lowerWords, hchars, nameWords_concat_separator rfl]

/-! ## From the front -/

variable {c d : Char} {cs rest : List Char}

/-- The characters of the snake case of a name, from those of the name. -/
def snakeChars (cs : List Char) : List Char :=
  ['_'].intercalate ((nameWords cs).map fun word => word.map Char.toLower)

/-- Whether a letter or digit ends its word, before what is left of the name. -/
def endsWord (c : Char) : List Char → Bool
  | [] => true
  | d :: _ => !d.isAlphanum || startsWord c d

/-- What stands behind a letter or digit, before what is left of the name: a `_` if its word ends and another one follows. -/
def gapAfter (c : Char) (rest : List Char) : List Char :=
  if endsWord c rest && !(nameWords rest).isEmpty then ['_'] else []

/-- The first character of a word stands before the rest of it, whatever words follow. -/
theorem intercalate_cons_word (c : Char) (word : List Char) (words : List (List Char)) :
    ['_'].intercalate ((c :: word) :: words) = c :: ['_'].intercalate (word :: words) := by
  cases words with
  | nil => rw [List.intercalate_singleton, List.intercalate_singleton]
  | cons next words =>
    rw [List.intercalate_cons_cons, List.intercalate_cons_cons, List.append_assoc, List.cons_append, List.append_assoc]

/-- What is no letter or digit leaves nothing behind. -/
theorem snakeChars_cons_separator (h : c.isAlphanum = false) (rest : List Char) : snakeChars (c :: rest) = snakeChars rest := by
  rw [snakeChars, nameWords_cons_separator h, snakeChars]

/-- A letter or digit stands there in lower case, before the gap behind it and the rest. -/
theorem snakeChars_cons (h : c.isAlphanum = true) (rest : List Char) :
    snakeChars (c :: rest) = c.toLower :: (gapAfter c rest ++ snakeChars rest) := by
  cases rest with
  | nil =>
    rw [snakeChars, nameWords, if_pos h]
    rfl
  | cons d rest =>
    rw [snakeChars, snakeChars, gapAfter, endsWord, nameWords, if_pos h]
    cases hends : (!d.isAlphanum || startsWord c d) with
    | true =>
      rw [if_pos rfl]
      cases nameWords (d :: rest) <;> rfl
    | false =>
      have hd : d.isAlphanum = true := by
        rw [Bool.or_eq_false_iff, Bool.not_eq_false'] at hends
        exact hends.1
      obtain ⟨word, words, hwords⟩ := nameWords_cons hd rest
      rw [if_neg Bool.false_ne_true, hwords]
      exact intercalate_cons_word _ _ _

/-- A gap is empty or a `_` with something behind it. -/
theorem gapAfter_cases (c : Char) (rest : List Char) : gapAfter c rest = [] ∨ gapAfter c rest = ['_'] ∧ snakeChars rest ≠ [] := by
  rw [gapAfter]
  split
  · next hgap =>
    rw [Bool.and_eq_true, Bool.not_eq_true', List.isEmpty_eq_false_iff] at hgap
    obtain ⟨word, words, hwords⟩ := List.exists_cons_of_ne_nil hgap.2
    obtain ⟨d, word, rfl⟩ := List.exists_cons_of_ne_nil (isAlphanum_of_mem_nameWords word (hwords ▸ List.mem_cons_self)).1
    refine Or.inr ⟨rfl, ?_⟩
    rw [snakeChars, hwords, List.map_cons, List.map_cons, intercalate_cons_word]
    exact List.cons_ne_nil _ _
  · exact Or.inl rfl

/-- Between two neighbours a `_` stands where a new word begins. -/
theorem gapAfter_cons (hd : d.isAlphanum = true) (c : Char) (rest : List Char) :
    gapAfter c (d :: rest) = if startsWord c d then ['_'] else [] := by
  obtain ⟨word, words, hwords⟩ := nameWords_cons hd rest
  rw [gapAfter, endsWord, hwords, hd, Bool.not_true, Bool.false_or, List.isEmpty_cons, Bool.not_false, Bool.and_true]

/-- A letter or digit in lower case is no `_`. -/
theorem toLower_ne_underscore (h : c.isAlphanum = true) : c.toLower ≠ '_' := by
  intro heq
  have halnum := isAlphanum_toLower h
  rw [heq] at halnum
  cases halnum

/-! ## What is kept of a name -/

/-- The letters and digits of a name in lower case. -/
def nameLetters (cs : List Char) : List Char := (cs.filter Char.isAlphanum).map Char.toLower

theorem nameLetters_cons (h : c.isAlphanum = true) (cs : List Char) : nameLetters (c :: cs) = c.toLower :: nameLetters cs := by
  rw [nameLetters, List.filter_cons_of_pos h, List.map_cons, nameLetters]

theorem nameLetters_cons_separator (h : c.isAlphanum = false) (cs : List Char) : nameLetters (c :: cs) = nameLetters cs := by
  rw [nameLetters, List.filter_cons_of_neg (by rw [h]; exact Bool.false_ne_true), nameLetters]

/-- The characters without every `_`. -/
def withoutUnderscores (cs : List Char) : List Char := cs.filter (· != '_')

theorem withoutUnderscores_append (a b : List Char) : withoutUnderscores (a ++ b) = withoutUnderscores a ++ withoutUnderscores b :=
  List.filter_append a b

theorem withoutUnderscores_cons (h : c ≠ '_') (cs : List Char) : withoutUnderscores (c :: cs) = c :: withoutUnderscores cs :=
  List.filter_cons_of_pos (bne_iff_ne.mpr h)

/-- A gap holds nothing else than `_`. -/
theorem withoutUnderscores_gapAfter (c : Char) (rest : List Char) : withoutUnderscores (gapAfter c rest) = [] := by
  rcases gapAfter_cases c rest with hgap | ⟨hgap, -⟩ <;> rw [hgap] <;> rfl

/-- Without every `_` the snake case of a name is its letters and digits in lower case. -/
theorem withoutUnderscores_snakeChars (cs : List Char) : withoutUnderscores (snakeChars cs) = nameLetters cs := by
  induction cs with
  | nil => rfl
  | cons c rest ih =>
    cases h : c.isAlphanum with
    | false => rw [snakeChars_cons_separator h, nameLetters_cons_separator h, ih]
    | true =>
      rw [snakeChars_cons h, withoutUnderscores_cons (toLower_ne_underscore h), withoutUnderscores_append,
        withoutUnderscores_gapAfter, List.nil_append, nameLetters_cons h, ih]

/-! ## Where the marks stand -/

/-- There is no `_` at either end, and no two of them stand together. -/
structure IsTidy (cs : List Char) : Prop where
  first : cs.head? ≠ some '_'
  last : cs.getLast? ≠ some '_'
  apart : ¬['_', '_'] <:+: cs

namespace IsTidy

theorem nil : IsTidy [] := ⟨by decide, by decide, by decide⟩

/-- Characters stay tidy with another one before them. -/
theorem cons (hc : c ≠ '_') (h : IsTidy cs) : IsTidy (c :: cs) where
  first := fun heq => hc (Option.some.inj heq)
  last := by
    cases cs with
    | nil => exact fun heq => hc (Option.some.inj heq)
    | cons d cs => exact h.last
  apart := by
    rw [List.infix_cons_iff, List.cons_prefix_cons, not_or]
    exact ⟨fun hmarks => hc hmarks.1.symm, h.apart⟩

/-- They stay so with a `_` in between, if there are any. -/
theorem cons_underscore (hc : c ≠ '_') (h : IsTidy cs) (hcs : cs ≠ []) : IsTidy (c :: '_' :: cs) where
  first := fun heq => hc (Option.some.inj heq)
  last := by
    obtain ⟨d, cs, rfl⟩ := List.exists_cons_of_ne_nil hcs
    exact h.last
  apart := by
    obtain ⟨d, cs, rfl⟩ := List.exists_cons_of_ne_nil hcs
    rw [List.infix_cons_iff, List.cons_prefix_cons, List.infix_cons_iff, List.cons_prefix_cons, List.cons_prefix_cons, not_or,
      not_or]
    refine ⟨fun hmarks => hc hmarks.1.symm, fun hmarks => h.first ?_, h.apart⟩
    rw [← (List.cons_prefix_cons.mp hmarks.2).1, List.head?_cons]

end IsTidy

/-- The snake case of a name is tidy. -/
theorem isTidy_snakeChars (cs : List Char) : IsTidy (snakeChars cs) := by
  induction cs with
  | nil => exact IsTidy.nil
  | cons c rest ih =>
    cases h : c.isAlphanum with
    | false => rwa [snakeChars_cons_separator h]
    | true =>
      rw [snakeChars_cons h]
      rcases gapAfter_cases c rest with hgap | ⟨hgap, hrest⟩
      · rw [hgap]
        exact ih.cons (toLower_ne_underscore h)
      · rw [hgap]
        exact ih.cons_underscore (toLower_ne_underscore h) hrest

/-- Two letters or digits that are neighbours in a name stand in its snake case behind what is kept of the characters before them and
before what is kept of those after them, with a `_` between them where a new word begins. -/
theorem snakeChars_neighbours (hc : c.isAlphanum = true) (hd : d.isAlphanum = true) (before after : List Char) :
    ∃ front back, snakeChars (before ++ c :: d :: after) =
        front ++ c.toLower :: ((if startsWord c d then ['_'] else []) ++ d.toLower :: back) ∧
      withoutUnderscores front = nameLetters before ∧ withoutUnderscores back = nameLetters after := by
  induction before with
  | nil =>
    refine ⟨[], gapAfter d after ++ snakeChars after, ?_, rfl, ?_⟩
    · rw [List.nil_append, snakeChars_cons hc, snakeChars_cons hd, gapAfter_cons hd]
      rfl
    · rw [withoutUnderscores_append, withoutUnderscores_gapAfter, withoutUnderscores_snakeChars, List.nil_append]
  | cons e before ih =>
    obtain ⟨front, back, hchars, hfront, hback⟩ := ih
    cases he : e.isAlphanum with
    | false =>
      refine ⟨front, back, ?_, ?_, hback⟩
      · rw [List.cons_append, snakeChars_cons_separator he, hchars]
      · rw [hfront, nameLetters_cons_separator he]
    | true =>
      refine ⟨e.toLower :: (gapAfter e (before ++ c :: d :: after) ++ front), back, ?_, ?_, hback⟩
      · rw [List.cons_append, snakeChars_cons he, hchars, List.cons_append, List.append_assoc]
      · rw [withoutUnderscores_cons (toLower_ne_underscore he), withoutUnderscores_append, withoutUnderscores_gapAfter, hfront,
          List.nil_append, nameLetters_cons he]

/-! ## The normal form -/

/-- The characters of the snake case of a name come from those of the name. -/
theorem toList_snakeCase_eq_snakeChars (name : String) : (snakeCase name).toList = snakeChars name.toList := toList_snakeCase name

/-- They are small letters, digits and `_`. -/
theorem mem_snakeCase {name : String} : ∀ c ∈ (snakeCase name).toList, c.isLower = true ∨ c.isDigit = true ∨ c = '_' := by
  rw [toList_snakeCase]
  refine forall_mem_intercalate (List.forall_mem_singleton.mpr (Or.inr (Or.inr rfl))) fun word hword c hc => ?_
  obtain ⟨halnum, hupper⟩ := (isWord_of_mem_lowerWords word hword).2 c hc
  rw [Char.isAlphanum, Char.isAlpha, hupper, Bool.false_or, Bool.or_eq_true] at halnum
  exact halnum.imp_right Or.inl

/-- The snake case of a name is a normal form of small letters and digits, with single `_` inside. It keeps every letter and digit of
the name, in lower case, and between two of them that are neighbours in the name it has a `_` exactly if the first is a small
letter or a digit and the second a capital. -/
theorem snakeCase_normalForm (name : String) :
    (∀ c ∈ (snakeCase name).toList, c.isLower = true ∨ c.isDigit = true ∨ c = '_') ∧ IsTidy (snakeCase name).toList ∧
      snakeCase (snakeCase name) = snakeCase name ∧ withoutUnderscores (snakeCase name).toList = nameLetters name.toList ∧
      ∀ before c d after, name.toList = before ++ c :: d :: after → c.isAlphanum = true → d.isAlphanum = true →
        ∃ front back, (snakeCase name).toList =
            front ++ c.toLower :: ((if (c.isLower || c.isDigit) && d.isUpper then ['_'] else []) ++ d.toLower :: back) ∧
          withoutUnderscores front = nameLetters before ∧ withoutUnderscores back = nameLetters after := by
  rw [toList_snakeCase_eq_snakeChars]
  refine ⟨toList_snakeCase_eq_snakeChars name ▸ mem_snakeCase, isTidy_snakeChars _, snakeCase_snakeCase name,
    withoutUnderscores_snakeChars _, fun before c d after hname hc hd => ?_⟩
  rw [hname]
  exact snakeChars_neighbours hc hd before after

/-- A word begins inside a run of letters and digits, between its two neighbours `2` and `C`. -/
theorem snakeCase_normalForm_http :
    "HTTP2Call-é9".toList = "HTTP".toList ++ '2' :: 'C' :: "all-é9".toList ∧ ('2'.isAlphanum = true ∧ 'C'.isAlphanum = true) ∧
      snakeCase "HTTP2Call-é9" = "http2_call_9" ∧
      ∃ front back, "http2_call_9".toList = front ++ '2' :: (['_'] ++ 'c' :: back) ∧
        withoutUnderscores front = "http".toList ∧ withoutUnderscores back = "all9".toList := by
  have hname : "HTTP2Call-é9".toList = "HTTP".toList ++ '2' :: 'C' :: "all-é9".toList := by decide
  have hsnake : snakeCase "HTTP2Call-é9" = "http2_call_9" := by decide +kernel
  obtain ⟨-, -, -, -, hneighbours⟩ := snakeCase_normalForm "HTTP2Call-é9"
  obtain ⟨front, back, hchars, hfront, hback⟩ := hneighbours _ _ _ _ hname rfl rfl
  rw [hsnake] at hchars
  exact ⟨hname, ⟨rfl, rfl⟩, hsnake, front, back, hchars, hfront, hback⟩

end Workflow
