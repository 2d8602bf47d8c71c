import Mathlib.Algebra.Order.Field.Power
import Mathlib.Data.Nat.Cast.Order.Ring
import Mathlib.Data.Rat.Cast.Order
import Mathlib.Tactic.Linarith
import Mathlib.Tactic.NormNum
import Mathlib.Tactic.Positivity
import Workflow.Number

/-!
# The value of a number

The rational number that a whole number or a finite double stands for, and what the test of a range says of it
(`toDouble_within_iff`). A whole number is tested as the nearest double, which changes nothing below `2 ^ 52`.
-/

namespace Workflow

/-- The value of a finite double. -/
def Finite.value (x : Finite) : ℚ := (if x.negative then -1 else 1) * (x.mantissa * (2 : ℚ) ^ x.exponent)

/-- The value of a number, unless it is infinite or no number at all. -/
def Number.value? : Number → Option ℚ
  | .int n => some n
  | .real (.finite x) => some x.value
  | .real _ => none

namespace Double

/-- A mantissa times a power of two is at most a bound exactly if the shifted mantissa, or the mantissa against the shifted
bound, is. -/
theorem scaled_le_iff {mantissa bound : Nat} {exponent : Int} :
    (mantissa : ℚ) * (2 : ℚ) ^ exponent ≤ bound ↔
      if 0 ≤ exponent then mantissa <<< exponent.toNat ≤ bound else mantissa ≤ bound <<< (-exponent).toNat := by
  by_cases he : 0 ≤ exponent
  · obtain ⟨k, rfl⟩ := Int.eq_ofNat_of_zero_le he
    rw [if_pos he, zpow_natCast, Int.toNat_natCast, Nat.shiftLeft_eq]
    exact_mod_cast Iff.rfl
  · obtain ⟨k, hk⟩ := Int.eq_ofNat_of_zero_le (show 0 ≤ -exponent by omega)
    have hpow : (0 : ℚ) < 2 ^ k := by positivity
    rw [if_neg he, hk, Int.toNat_natCast, Nat.shiftLeft_eq, ← neg_neg exponent, hk, zpow_neg, zpow_natCast,
      mul_inv_le_iff₀ hpow]
    exact_mod_cast Iff.rfl

/-- A finite double lies between zero and a bound exactly if its value does. -/
theorem finite_within_iff {x : Finite} {bound : Nat} :
    (Double.finite x).within bound = true ↔ 0 ≤ x.value ∧ x.value ≤ bound := by
  rw [within, Finite.value]
  by_cases hm : x.mantissa = 0
  · simp [hm]
  · have hpos : (0 : ℚ) < x.mantissa * (2 : ℚ) ^ x.exponent := by positivity
    cases hs : x.negative with
    | true =>
      have hneg : ¬(0 : ℚ) ≤ -1 * (x.mantissa * (2 : ℚ) ^ x.exponent) := by linarith
      simp only [hm, if_false, if_true, Bool.false_eq_true, hneg, false_and]
    | false =>
      have hle : (x.mantissa : ℚ) * (2 : ℚ) ^ x.exponent ≤ bound ↔ _ := scaled_le_iff
      simp only [hm, if_false, Bool.false_eq_true, one_mul, hpos.le, true_and, hle]
      split <;> rw [decide_eq_true_eq]

/-! ## Whole numbers -/

/-- A positive whole number lies between the powers of two about its logarithm. -/
theorem log2Quotient_one {num : Nat} (h : num ≠ 0) : log2Quotient num 1 = Nat.log2 num := by
  have hone : Nat.log2 1 = 0 := rfl
  have hle : 1 <<< Nat.log2 num ≤ num := by
    rw [Nat.one_shiftLeft]
    exact Nat.log2_self_le h
  simp only [log2Quotient, hone, scaleDown, Int.natCast_zero, sub_zero, Int.natCast_nonneg, if_true, Int.toNat_natCast, hle]

/-- Rounding the quotient by one changes nothing. -/
theorem roundQuotient_one (num : Nat) : roundQuotient num 1 = num := by
  rw [roundQuotient, Nat.div_one, Nat.mod_one]
  rfl

/-- A rounded quotient is no less than the quotient rounded down. -/
theorem div_le_roundQuotient (num den : Nat) : num / den ≤ roundQuotient num den := by
  simp only [roundQuotient]
  split
  · exact Nat.le_refl _
  · split
    · exact Nat.le_succ _
    · split
      · exact Nat.le_refl _
      · exact Nat.le_succ _

/-- A finite double with a full mantissa and no negative exponent is beyond every smaller bound. -/
theorem not_within_of_full {x : Finite} {bound : Nat} (hb : bound < leastFullMantissa) (hm : leastFullMantissa ≤ x.mantissa)
    (he : 0 ≤ x.exponent) : (Double.finite x).within bound = false := by
  have hshift : x.mantissa ≤ x.mantissa <<< x.exponent.toNat := by
    rw [Nat.shiftLeft_eq]
    exact Nat.le_mul_of_pos_right _ (Nat.two_pow_pos _)
  have hzero : x.mantissa ≠ 0 := by
    rintro h
    rw [h] at hm
    exact absurd hm (by decide)
  rw [within]
  simp only [hzero, if_false, he, if_true]
  split
  · rfl
  · rw [decide_eq_false_iff_not]
    omega

/-- A positive whole number below `2 ^ 52` is a double, its mantissa shifted until it is full. -/
theorem ofQuotient_one_of_small (negative : Bool) {num k : Nat} (hnum : num ≠ 0) (hk : Nat.log2 num + k = 52)
    (hpos : 0 < k) :
    ∃ hd : IsDouble (num <<< k) (-k), ofQuotient negative num 1 = .finite ⟨negative, num <<< k, -k, hd⟩ := by
  have hlow : leastFullMantissa ≤ num <<< k := by
    have hself := Nat.mul_le_mul_right (2 ^ k) (Nat.log2_self_le hnum)
    rw [← Nat.pow_add, hk] at hself
    rwa [Nat.shiftLeft_eq]
  have hhigh : num <<< k < mantissaBound := by
    have hlt := Nat.mul_lt_mul_of_pos_right (Nat.lt_log2_self (n := num)) (Nat.two_pow_pos k)
    rw [← Nat.pow_add, show Nat.log2 num + 1 + k = 53 by omega] at hlt
    rwa [Nat.shiftLeft_eq]
  have hexponent : max ((Nat.log2 num : Int) - 52) leastExponent = -k := by
    rw [leastExponent]
    omega
  have hd : IsDouble (num <<< k) (-k) := by
    refine ⟨hhigh, ?_, ?_, Or.inl hlow⟩
    · rw [leastExponent]
      omega
    · rw [greatestExponent]
      omega
  refine ⟨hd, ?_⟩
  have hscale : scaleDown num 1 (-k) = (num <<< k, 1) := by
    rw [scaleDown, if_neg (by omega), neg_neg, Int.toNat_natCast]
  rw [ofQuotient, if_neg hnum]
  simp only [log2Quotient_one hnum, hexponent, hscale, roundQuotient_one, hhigh.ne, if_false, dif_pos hd]

/-- A double made of a mantissa and an exponent in form has these. -/
theorem eq_of_finite_eq {negative : Bool} {mantissa : Nat} {exponent : Int} {x : Finite}
    (h : (if hd : IsDouble mantissa exponent then Double.finite ⟨negative, mantissa, exponent, hd⟩ else .infinite negative) =
      .finite x) : x.mantissa = mantissa ∧ x.exponent = exponent := by
  by_cases hd : IsDouble mantissa exponent
  · rw [dif_pos hd, Double.finite.injEq] at h
    rw [← h]
    exact ⟨rfl, rfl⟩
  · rw [dif_neg hd] at h
    cases h

/-- A double of a whole number from `2 ^ 52` on has a full mantissa and no negative exponent. -/
theorem full_of_ofQuotient_one {negative : Bool} {num : Nat} {x : Finite} (hlog : 52 ≤ Nat.log2 num)
    (h : ofQuotient negative num 1 = .finite x) : leastFullMantissa ≤ x.mantissa ∧ 0 ≤ x.exponent := by
  have hnum : num ≠ 0 := by
    rintro rfl
    exact absurd hlog (by decide)
  obtain ⟨k, hk⟩ := Nat.exists_eq_add_of_le hlog
  have hexponent : max ((Nat.log2 num : Int) - 52) leastExponent = k := by
    rw [leastExponent]
    omega
  have hfull : leastFullMantissa ≤ roundQuotient num (1 <<< k) := by
    refine Nat.le_trans ?_ (div_le_roundQuotient _ _)
    rw [Nat.one_shiftLeft, Nat.le_div_iff_mul_le (Nat.two_pow_pos k)]
    have hself := Nat.log2_self_le hnum
    rwa [hk, Nat.pow_add] at hself
  have hscale : scaleDown num 1 (k : Int) = (num, 1 <<< k) := by
    rw [scaleDown, if_pos (by omega), Int.toNat_natCast]
  rw [ofQuotient, if_neg hnum] at h
  simp only [log2Quotient_one hnum, hexponent, hscale] at h
  obtain ⟨hm, he⟩ := eq_of_finite_eq h
  by_cases hcarry : roundQuotient num (1 <<< k) = mantissaBound
  · rw [if_pos hcarry] at hm he
    exact ⟨hm.ge, by omega⟩
  · rw [if_neg hcarry] at hm he
    exact ⟨hm ▸ hfull, by omega⟩

/-- A whole number lies between zero and a small bound exactly if the double nearest to it does. -/
theorem ofQuotient_one_within_iff {negative : Bool} {num bound : Nat} (hb : bound < leastFullMantissa) :
    (ofQuotient negative num 1).within bound = true ↔ num = 0 ∨ negative = false ∧ num ≤ bound := by
  by_cases hnum : num = 0
  · rw [ofQuotient, if_pos hnum]
    exact iff_of_true rfl (Or.inl hnum)
  rcases Nat.lt_or_ge (Nat.log2 num) 52 with hlog | hlog
  · obtain ⟨k, hk⟩ := Nat.exists_eq_add_of_lt hlog
    obtain ⟨hd, hx⟩ := ofQuotient_one_of_small negative (k := k + 1) hnum (by omega) k.succ_pos
    have hshift : num <<< (k + 1) ≠ 0 := by
      rw [Nat.shiftLeft_eq]
      exact Nat.mul_ne_zero hnum (Nat.two_pow_pos _).ne'
    have hcompare : num <<< (k + 1) ≤ bound <<< (k + 1) ↔ num ≤ bound := by
      rw [Nat.shiftLeft_eq, Nat.shiftLeft_eq, Nat.mul_le_mul_right_iff (Nat.two_pow_pos _)]
    rw [hx, within]
    simp only [hshift, if_false, hnum, false_or]
    cases negative with
    | true => simp
    | false =>
      rw [if_neg (by decide), if_neg (by omega), neg_neg, Int.toNat_natCast, decide_eq_true_eq, hcompare]
      exact (and_iff_right rfl).symm
  · have hgreat : ¬num ≤ bound := by
      have hself := Nat.le_trans (Nat.pow_le_pow_right Nat.two_pos hlog) (Nat.log2_self_le hnum)
      rw [leastFullMantissa] at hb
      omega
    have hno : (ofQuotient negative num 1).within bound = false := by
      cases hx : ofQuotient negative num 1 with
      | finite x => exact not_within_of_full hb (full_of_ofQuotient_one hlog hx).1 (full_of_ofQuotient_one hlog hx).2
      | nan => rfl
      | infinite s => rfl
    simp [hno, hnum, hgreat]

end Double

/-- A number passes the test of a range as a double exactly if it has a value and the value lies in the range. -/
theorem Number.toDouble_within_iff {n : Number} {bound : Nat} (hb : bound < leastFullMantissa) :
    n.toDouble.within bound = true ↔ ∃ q, n.value? = some q ∧ 0 ≤ q ∧ q ≤ bound := by
  cases n with
  | int n =>
    rw [Number.toDouble, Double.ofInt, Double.ofQuotient_one_within_iff hb, Number.value?]
    simp only [Option.some.injEq, exists_eq_left', decide_eq_false_iff_not]
    norm_cast
    omega
  | real x =>
    cases x with
    | finite x => simp only [Number.toDouble, Double.finite_within_iff, Number.value?, Option.some.injEq, exists_eq_left']
    | nan => simp [Number.toDouble, Double.within, Number.value?]
    | infinite s => simp [Number.toDouble, Double.within, Number.value?]

end Workflow
