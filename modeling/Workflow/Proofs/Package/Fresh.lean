import Mathlib
import Workflow.Proofs.Package.Names

/-!
# Fresh names

A name that is given out already is given out again under a number, and that number is searched for from two on, one after the
other (`NumberSearch`). Nothing in the search says where to stop. It ends because the names given out are finitely many and the
numbered ones all differ (`exists_numberSearch`), and then at the least number that is free (`NumberSearch.isLeast`). So each name
that is given out is the wanted one or that one with the least free number (`givenOut_freshName`), and what holds of one name given
out after others holds of a whole list of them (`getElem?_freshNames`).
-/

namespace Workflow

variable {taken wanted : List String} {base : String} {m n tries : Nat}

/-! ## The search for a number -/

/-- The search for a free number from `m` on: the last try is the one that finds the number `n`. -/
inductive NumberSearch (taken : List String) (base : String) : (m tries n : Nat) → Prop
  | free {m : Nat} (h : numbered base m ∉ taken) : NumberSearch taken base m 1 m
  | next {m tries n : Nat} (h : numbered base m ∈ taken) (rest : NumberSearch taken base (m + 1) tries n) :
    NumberSearch taken base m (tries + 1) n

namespace NumberSearch

/-- A search finds the least number that is free. -/
theorem isLeast (h : NumberSearch taken base m tries n) : IsLeast {k | m ≤ k ∧ numbered base k ∉ taken} n := by
  induction h with
  | free hfree => exact ⟨⟨le_rfl, hfree⟩, fun k hk => hk.1⟩
  | @next m tries n htaken _ ih =>
    obtain ⟨⟨hle, hfree⟩, hleast⟩ := ih
    refine ⟨⟨by omega, hfree⟩, fun k ⟨hk, hkfree⟩ => ?_⟩
    have hne : k ≠ m := fun heq => hkfree (heq ▸ htaken)
    exact hleast ⟨by omega, hkfree⟩

/-- It takes a try for each number up to the one that it finds. -/
theorem add_tries (h : NumberSearch taken base m tries n) : m + tries = n + 1 := by
  induction h with
  | free => rfl
  | next _ _ ih => omega

/-- A search ends from every number up to a free one. -/
theorem ends (hfree : numbered base n ∉ taken) (h : m ≤ n) : ∃ tries k, NumberSearch taken base m tries k := by
  induction h using Nat.decreasingInduction with
  | self => exact ⟨1, n, free hfree⟩
  | of_succ m _ ih =>
    by_cases htaken : numbered base m ∈ taken
    · obtain ⟨tries, k, hrest⟩ := ih
      exact ⟨tries + 1, k, next htaken hrest⟩
    · exact ⟨1, m, free htaken⟩

/-- Tries that are enough for the search find its number. -/
theorem firstNumbered_eq (h : NumberSearch taken base m tries n) {enough : Nat} (henough : tries ≤ enough) :
    firstNumbered taken base enough m = numbered base n := by
  induction h generalizing enough with
  | free hfree =>
    cases enough with
    | zero => rfl
    | succ enough => rw [firstNumbered, if_neg hfree]
  | next htaken _ ih =>
    obtain ⟨enough, rfl⟩ : ∃ fewer, enough = fewer + 1 := ⟨enough - 1, by omega⟩
    rw [firstNumbered, if_pos htaken]
    exact ih (by omega)

end NumberSearch

/-- A numbered name is not the name without the number. -/
theorem numbered_ne (base : String) (n : Nat) : numbered base n ≠ base := by
  intro heq
  have hlength := congrArg String.length heq
  rw [numbered, String.length_append, String.length_append] at hlength
  have hmark : "_".length = 1 := rfl
  omega

/-- The search for the number of a name that is taken ends, after at most as many tries as names are taken: the name itself is one of
these, so one more numbered name than the others are is enough. -/
theorem exists_numberSearch (h : base ∈ taken) : ∃ tries n, NumberSearch taken base 2 tries n ∧ tries ≤ taken.length := by
  obtain ⟨k, htwo, hk, hfree⟩ := exists_numbered_not_mem (taken.erase base) base 2
  rw [List.mem_erase_of_ne (numbered_ne base k)] at hfree
  have hlength : (taken.erase base).length + 1 = taken.length := by
    rw [List.length_erase_of_mem h]
    exact Nat.sub_add_cancel (List.length_pos_of_mem h)
  obtain ⟨tries, n, hsearch⟩ := NumberSearch.ends hfree htwo
  have hleast : n ≤ k := hsearch.isLeast.2 ⟨htwo, hfree⟩
  have htries := hsearch.add_tries
  exact ⟨tries, n, hsearch, by omega⟩

/-! ## One name -/

/-- What is given out for a wanted name after others: the name itself if it is not taken, or else the name with the least number from
two on that is free, found in at most as many tries as names are taken. -/
structure GivenOut (taken : List String) (wanted given : String) : Prop where
  asWanted : wanted ∉ taken → given = wanted
  otherwise : wanted ∈ taken → ∃ tries n, NumberSearch taken wanted 2 tries n ∧ tries ≤ taken.length ∧ given = numbered wanted n ∧
    IsLeast {k | 2 ≤ k ∧ numbered wanted k ∉ taken} n

/-- A fresh name is what is given out. -/
theorem givenOut_freshName (taken : List String) (name : String) : GivenOut taken name (freshName taken name) where
  asWanted hfree := by rw [freshName, if_neg hfree]
  otherwise htaken := by
    obtain ⟨tries, n, hsearch, htries⟩ := exists_numberSearch htaken
    refine ⟨tries, n, hsearch, htries, ?_, hsearch.isLeast⟩
    rw [freshName, if_pos htaken]
    exact hsearch.firstNumbered_eq htries

/-! ## A list of names -/

/-- One more wanted name gets a fresh name after the others. -/
theorem freshNames_concat (wanted : List String) (name : String) :
    freshNames (wanted ++ [name]) = freshNames wanted ++ [freshName (freshNames wanted) name] := by
  rw [freshNames, List.foldl_append]
  rfl

/-- Each name that is given out is the fresh one after those given out before it. -/
theorem getElem?_freshNames {k : Nat} {name : String} (h : wanted[k]? = some name) :
    (freshNames wanted)[k]? = some (freshName ((freshNames wanted).take k) name) := by
  induction wanted using List.reverseRecOn with
  | nil => cases h
  | append_singleton wanted last ih =>
    rw [freshNames_concat]
    have hlength := length_freshNames wanted
    rcases Nat.lt_trichotomy k wanted.length with hk | hk | hk
    · rw [List.getElem?_append_left hk] at h
      rw [List.getElem?_append_left (by omega), List.take_append_of_le_length (by omega)]
      exact ih h
    · rw [hk, List.getElem?_concat_length, Option.some.injEq] at h
      rw [h, hk, ← hlength, List.getElem?_concat_length, List.take_left]
    · rw [List.getElem?_eq_none (by rw [List.length_append, List.length_singleton]; omega)] at h
      cases h

/-- As many names are given out as are wanted, all of them different. Each is the wanted one, or that one with the least number that
is free among those given out before it, which the search for it finds in at most as many tries as there are of those. All are
identifiers if the wanted ones are. -/
theorem freshNames_given (wanted : List String) :
    (freshNames wanted).length = wanted.length ∧ (freshNames wanted).Nodup ∧
      (∀ k name, wanted[k]? = some name → ∃ given, (freshNames wanted)[k]? = some given ∧
        ((freshNames wanted).take k).length = k ∧ GivenOut ((freshNames wanted).take k) name given) ∧
      ((∀ name ∈ wanted, isIdentifier name = true) → ∀ given ∈ freshNames wanted, isIdentifier given = true) := by
  refine ⟨length_freshNames wanted, nodup_freshNames wanted, fun k name h => ?_, isIdentifier_of_mem_freshNames⟩
  have hk : k ≤ wanted.length := (List.getElem?_eq_some_iff.mp h).1.le
  refine ⟨_, getElem?_freshNames h, ?_, givenOut_freshName _ name⟩
  rw [List.length_take, length_freshNames]
  exact Nat.min_eq_left hk

/-- Names that are wanted again. One of them is another one with a number. -/
def wantedAgain : List String := ["a", "a_2", "a", "a_2", "a"]

/-- Both get numbers that are free, the last one in three tries. -/
theorem freshNames_given_wantedAgain :
    wantedAgain[4]? = some "a" ∧ (∀ name ∈ wantedAgain, isIdentifier name = true) ∧
      freshNames wantedAgain = ["a", "a_2", "a_3", "a_2_2", "a_4"] ∧
      GivenOut ["a", "a_2", "a_3", "a_2_2"] "a" "a_4" ∧
      ∀ given ∈ ["a", "a_2", "a_3", "a_2_2", "a_4"], isIdentifier given = true := by
  have hwanted : ∀ name ∈ wantedAgain, isIdentifier name = true := by decide
  have hnames : freshNames wantedAgain = ["a", "a_2", "a_3", "a_2_2", "a_4"] := by decide +kernel
  obtain ⟨-, -, hgiven, hidentifiers⟩ := freshNames_given wantedAgain
  obtain ⟨given, hlast, -, hafter⟩ := hgiven 4 "a" rfl
  rw [hnames] at hlast hafter hidentifiers
  obtain rfl : given = "a_4" := (Option.some.inj hlast).symm
  exact ⟨rfl, hwanted, hnames, hafter, hidentifiers hwanted⟩

end Workflow
