import Mathlib
import Workflow.Json
import Workflow.Proofs.Number.Shortest

/-!
# Numerals

The numbers of a configuration are written as numerals: a sign, digits, and perhaps a fraction and a power of ten
(`isNumeral_finiteText`). No finite number is written as a word.
-/

namespace Workflow

/-- A text of digits, at least one. -/
def IsDigits (s : String) : Prop := s ≠ "" ∧ ∀ c ∈ s.toList, c.isDigit = true

/-- The fraction of a numeral: nothing, or a point with digits after it. -/
def IsFraction (s : String) : Prop := s = "" ∨ ∃ digits, IsDigits digits ∧ s = "." ++ digits

/-- The power of ten of a numeral: nothing, or an `e` with a signed whole number after it. -/
def IsPower (s : String) : Prop :=
  s = "" ∨ ∃ sign digits, sign ∈ ["", "+", "-"] ∧ IsDigits digits ∧ s = "e" ++ (sign ++ digits)

/-- A number as it is written. -/
def IsNumeral (s : String) : Prop :=
  ∃ sign whole fraction power, sign ∈ ["", "-"] ∧ IsDigits whole ∧ IsFraction fraction ∧ IsPower power ∧
    s = sign ++ (whole ++ (fraction ++ power))

/-- What holds of digits and of the marks of numerals holds of all characters of a numeral. -/
theorem IsNumeral.forall_mem {p : Char → Prop} (hdigit : ∀ c : Char, c.isDigit = true → p c)
    (hmark : ∀ c ∈ ['+', '-', '.', 'e'], p c) {s : String} (hs : IsNumeral s) : ∀ c ∈ s.toList, p c := by
  have hmarks : ∀ mark ∈ ["", "+", "-"], ∀ c ∈ mark.toList, p c := by
    intro mark hsign c hc
    simp only [List.mem_cons, List.not_mem_nil, or_false] at hsign
    rcases hsign with rfl | rfl | rfl
    · cases hc
    · exact hmark c (by simpa using Or.inl hc)
    · exact hmark c (by simpa using Or.inr (Or.inl hc))
  have hdigits : ∀ {digits : String}, IsDigits digits → ∀ c ∈ digits.toList, p c := fun hd c hc => hdigit c (hd.2 c hc)
  obtain ⟨sign, whole, fraction, power, hsign, hw, hf, hp, rfl⟩ := hs
  have hsigns : ["", "-"] ⊆ ["", "+", "-"] := by decide
  simp only [String.toList_append]
  refine List.forall_mem_append.mpr ⟨hmarks sign (hsigns hsign), List.forall_mem_append.mpr ⟨hdigits hw,
    List.forall_mem_append.mpr ⟨?_, ?_⟩⟩⟩
  · rcases hf with rfl | ⟨digits, hd, rfl⟩
    · exact hmarks "" (by decide)
    · rw [String.toList_append]
      exact List.forall_mem_append.mpr ⟨List.forall_mem_singleton.mpr (hmark '.' (by simp)), hdigits hd⟩
  · rcases hp with rfl | ⟨sign, digits, hsign, hd, rfl⟩
    · exact hmarks "" (by decide)
    · rw [String.toList_append, String.toList_append]
      exact List.forall_mem_append.mpr ⟨List.forall_mem_singleton.mpr (hmark 'e' (by simp)),
        List.forall_mem_append.mpr ⟨hmarks sign hsign, hdigits hd⟩⟩

/-- A numeral has characters. -/
theorem IsNumeral.ne_nil {s : String} (hs : IsNumeral s) : s.toList ≠ [] := by
  obtain ⟨sign, whole, fraction, power, -, hw, -, -, rfl⟩ := hs
  simp only [String.toList_append]
  refine List.append_ne_nil_of_right_ne_nil _ (List.append_ne_nil_of_left_ne_nil ?_ _)
  rw [ne_eq, String.toList_eq_nil_iff]
  exact hw.1

/-! ## Digits -/

/-- Digits that are not none are a text of digits. -/
theorem isDigits_ofList {cs : List Char} (hne : cs ≠ []) (hall : ∀ c ∈ cs, c.isDigit = true) :
    IsDigits (String.ofList cs) := by
  refine ⟨fun hempty => hne ?_, by rwa [String.toList_ofList]⟩
  rwa [← String.toList_eq_nil_iff, String.toList_ofList] at hempty

/-- Zero is written with a digit. -/
theorem isDigits_zero : IsDigits "0" := isDigits_ofList (List.cons_ne_nil '0' []) (List.forall_mem_singleton.mpr rfl)

/-- A natural number is written with digits. -/
theorem isDigits_toString (n : Nat) : IsDigits (toString n) := by
  rw [Nat.toString_eq_ofList_toDigits]
  exact isDigits_ofList Nat.toDigits_ne_nil fun c hc => Nat.isDigit_of_mem_toDigits (by decide) (by decide) hc

/-- A whole number is written with digits, behind a sign if it is negative. -/
theorem exists_toString_int (n : Int) : ∃ sign digits, sign ∈ ["", "-"] ∧ IsDigits digits ∧ toString n = sign ++ digits := by
  cases n with
  | ofNat m => exact ⟨"", toString m, by decide, isDigits_toString m, by rw [String.empty_append]; rfl⟩
  | negSucc m => exact ⟨"-", toString (m + 1), by decide, isDigits_toString (m + 1), rfl⟩

/-- The digits of a positive number do not begin with a zero. -/
theorem head?_toDigits (n : Nat) (h : n ≠ 0) : (Nat.toDigits 10 n).head? ≠ some '0' := by
  have hlast : ∀ k < 10, k ≠ 0 → Nat.digitChar k ≠ '0' := by decide
  induction n using Nat.strongRecOn with
  | ind n ih =>
    by_cases hsmall : n < 10
    · rw [Nat.toDigits_of_lt_base hsmall, List.head?_cons, ne_eq, Option.some.injEq]
      exact hlast n hsmall h
    · rw [Nat.toDigits_of_base_le (by decide) (by omega), List.head?_append_of_ne_nil _ Nat.toDigits_ne_nil]
      exact ih (n / 10) (by omega) (by omega)

/-- Some digit of a number other than zero is not `0`. -/
theorem exists_ne_zero_mem_toDigits (n : Nat) (h : n ≠ 0) : ∃ c ∈ Nat.toDigits 10 n, c ≠ '0' := by
  obtain ⟨c, cs, hcs⟩ := List.exists_cons_of_ne_nil (Nat.toDigits_ne_nil (n := n) (b := 10))
  have hhead := head?_toDigits n h
  rw [hcs, List.head?_cons] at hhead
  rw [hcs]
  exact ⟨c, List.mem_cons_self, fun hc => hhead (congrArg some hc)⟩

/-! ## Shortest decimals -/

namespace Double

/-- A shortest decimal has digits, and nothing else. -/
theorem digits_shortest (tieUp : Bool) {m : Nat} (hm : m ≠ 0) (q : Int) :
    (shortest tieUp m q).digits ≠ [] ∧ ∀ c ∈ (shortest tieUp m q).digits, c.isDigit = true := by
  have hcentre : (neighbourhood m q).centre ≠ 0 := Nat.mul_ne_zero (by decide) hm
  have hgrid := fun point => firstGrid_ne_zero hcentre tieUp q point 17 1
  rw [shortest]
  simp only
  generalize (Fraction.scaled m q 0).pointFrom 200 (((Nat.log2 m : Int) + q) * 3 / 10 - 2) = point
  obtain ⟨c, hc, hne⟩ := exists_ne_zero_mem_toDigits _ (hgrid point)
  constructor
  · rw [ne_eq, List.reverse_eq_nil_iff, List.dropWhile_eq_nil_iff]
    intro hall
    exact hne (beq_iff_eq.mp (hall c (List.mem_reverse.mpr hc)))
  · intro d hd
    have hmem := (List.dropWhile_sublist _).subset (List.mem_reverse.mp hd)
    exact Nat.isDigit_of_mem_toDigits (by decide) (by decide) (List.mem_reverse.mp hmem)

/-! ## Finite numbers -/

/-- Zeros and digits are digits. -/
theorem isDigit_of_mem_zeros {k : Nat} : ∀ c ∈ List.replicate k '0', c.isDigit = true := by
  intro c hc
  rw [List.eq_of_mem_replicate hc]
  rfl

/-- Digits in full are a whole number and perhaps a fraction. -/
theorem exists_plainText {d : Decimal} (hne : d.digits ≠ []) (hall : ∀ c ∈ d.digits, c.isDigit = true) {wholeEnding : String}
    (hending : IsFraction wholeEnding) :
    ∃ whole fraction, IsDigits whole ∧ IsFraction fraction ∧ d.plainText wholeEnding = whole ++ fraction := by
  have hlength : 0 < d.digits.length := List.length_pos_iff.mpr hne
  rw [Decimal.plainText]
  split
  · -- Everything stands behind the point.
    have hdigits : IsDigits (String.ofList (List.replicate (-d.point).toNat '0' ++ d.digits)) :=
      isDigits_ofList (List.append_ne_nil_of_right_ne_nil _ hne) (List.forall_mem_append.mpr ⟨isDigit_of_mem_zeros, hall⟩)
    refine ⟨"0", _, isDigits_zero, Or.inr ⟨_, hdigits, rfl⟩, ?_⟩
    rw [← String.append_assoc]
    rfl
  · split
    · refine ⟨_, wholeEnding, isDigits_ofList ?_ ?_, hending, rfl⟩
      · exact List.append_ne_nil_of_left_ne_nil hne _
      · exact List.forall_mem_append.mpr ⟨hall, isDigit_of_mem_zeros⟩
    · refine ⟨_, _, isDigits_ofList ?_ ?_, Or.inr ⟨_, isDigits_ofList ?_ ?_, rfl⟩, String.append_assoc⟩
      · rw [ne_eq, List.take_eq_nil_iff, not_or]
        exact ⟨by omega, hne⟩
      · exact fun c hc => hall c (List.mem_of_mem_take hc)
      · rw [ne_eq, List.drop_eq_nil_iff]
        omega
      · exact fun c hc => hall c (List.mem_of_mem_drop hc)

/-- Digits with a power of ten are a digit, perhaps a fraction, and the power. -/
theorem exists_powerText {d : Decimal} (hne : d.digits ≠ []) (hall : ∀ c ∈ d.digits, c.isDigit = true) (plusSign : Bool) :
    ∃ whole fraction power, IsDigits whole ∧ IsFraction fraction ∧ IsPower power ∧
      d.powerText plusSign = whole ++ (fraction ++ power) := by
  have hlead : IsDigits (String.ofList (d.digits.take 1)) := by
    refine isDigits_ofList ?_ fun c hc => hall c (List.mem_of_mem_take hc)
    rw [ne_eq, List.take_eq_nil_iff, not_or]
    exact ⟨by decide, hne⟩
  have hfraction : IsFraction (if (d.digits.drop 1).isEmpty then "" else "." ++ String.ofList (d.digits.drop 1)) := by
    split
    · exact Or.inl rfl
    · next hrest =>
      refine Or.inr ⟨_, isDigits_ofList ?_ fun c hc => hall c (List.mem_of_mem_drop hc), rfl⟩
      rwa [List.isEmpty_iff] at hrest
  have hpower : IsPower ("e" ++ ((if plusSign && decide (0 ≤ d.point - 1) then "+" else "") ++ toString (d.point - 1))) := by
    by_cases hplus : (plusSign && decide (0 ≤ d.point - 1)) = true
    · obtain ⟨k, hk⟩ : ∃ k : Nat, d.point - 1 = k := by
        rw [Bool.and_eq_true, decide_eq_true_eq] at hplus
        exact Int.eq_ofNat_of_zero_le hplus.2
      rw [if_pos hplus, hk]
      exact Or.inr ⟨"+", toString k, by decide, isDigits_toString k, rfl⟩
    · obtain ⟨sign, digits, hsign, hdigits, htext⟩ := exists_toString_int (d.point - 1)
      rw [if_neg hplus, htext, String.empty_append]
      have hsigns : ["", "-"] ⊆ ["", "+", "-"] := by decide
      exact Or.inr ⟨sign, digits, hsigns hsign, hdigits, rfl⟩
  refine ⟨_, _, _, hlead, hfraction, hpower, ?_⟩
  rw [Decimal.powerText]
  simp only [String.append_assoc]

end Double

/-- A whole number is written as a numeral. -/
theorem isNumeral_toString (n : Int) : IsNumeral (toString n) := by
  obtain ⟨sign, digits, hsign, hdigits, htext⟩ := exists_toString_int n
  exact ⟨sign, digits, "", "", hsign, hdigits, Or.inl rfl, Or.inl rfl, by rw [htext, String.append_empty, String.append_empty]⟩

/-- A finite number of a configuration is written as a numeral. -/
theorem isNumeral_finiteText (x : Finite) : IsNumeral (Double.finiteText .json x) := by
  have hsign : (if x.negative then "-" else "") ∈ ["", "-"] := by split <;> decide
  have hwhole : IsFraction ".0" := Or.inr ⟨"0", isDigits_zero, rfl⟩
  rw [Double.finiteText]
  generalize (if x.negative then "-" else "") = sign at hsign
  by_cases hzero : x.mantissa = 0
  · rw [if_pos hzero, String.append_assoc]
    exact ⟨sign, "0", ".0", "", hsign, isDigits_zero, hwhole, Or.inl rfl, rfl⟩
  · obtain ⟨hne, hall⟩ := Double.digits_shortest NumberStyle.json.tieUp hzero x.exponent
    rw [if_neg hzero]
    dsimp only
    split
    · obtain ⟨whole, fraction, hw, hf, htext⟩ := Double.exists_plainText hne hall hwhole
      refine ⟨sign, whole, fraction, "", hsign, hw, hf, Or.inl rfl, ?_⟩
      rw [String.append_empty, ← htext]
      rfl
    · obtain ⟨whole, fraction, power, hw, hf, hp, htext⟩ := Double.exists_powerText hne hall NumberStyle.json.plusSign
      exact ⟨sign, whole, fraction, power, hsign, hw, hf, hp, by rw [htext]⟩

end Workflow
