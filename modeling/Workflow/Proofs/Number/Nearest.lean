import Mathlib.Tactic.FieldSimp
import Mathlib.Tactic.Ring
import Workflow.Number.Shortest
import Workflow.Proofs.Number.Value

/-!
# Reading the nearest double

What `ofQuotient` and `ofDecimal` give of the reals about a double. The neighbourhood of a double is the interval of the reals
that read back as it, and indeed each of them does (`ofQuotient_of_contains`, `ofDecimal_of_contains`): its quotient by the last
place rounds to the mantissa, but for the stretch below a power of two, where the last place is half as far and the rounded
mantissa carries.
-/

namespace Workflow

namespace Double

/-! ## Quotients -/

/-- The two parts of a scaled fraction stand for the fraction over the power of two. -/
theorem scaleDown_div (num den : Nat) (shift : Int) :
    ((scaleDown num den shift).1 : ℚ) / (scaleDown num den shift).2 = num / den / 2 ^ shift := by
  rw [scaleDown]
  split
  · next h =>
    obtain ⟨k, rfl⟩ := Int.eq_ofNat_of_zero_le h
    rw [Int.toNat_natCast, Nat.shiftLeft_eq, Nat.cast_mul, Nat.cast_pow, Nat.cast_ofNat, zpow_natCast, div_div]
  · next h =>
    obtain ⟨k, hk⟩ := Int.eq_ofNat_of_zero_le (show 0 ≤ -shift by omega)
    rw [hk, Int.toNat_natCast, Nat.shiftLeft_eq, Nat.cast_mul, Nat.cast_pow, Nat.cast_ofNat, ← neg_neg shift, hk, zpow_neg,
      zpow_natCast, div_inv_eq_mul, div_mul_eq_mul_div]

/-- Scaling keeps the denominator positive. -/
theorem scaleDown_den_pos {num den : Nat} (hden : 0 < den) (shift : Int) : 0 < (scaleDown num den shift).2 := by
  rw [scaleDown]
  split
  · rw [Nat.shiftLeft_eq]
    exact Nat.mul_pos hden (Nat.two_pow_pos _)
  · exact hden

/-- A positive natural number lies between the powers of two about its logarithm. -/
theorem zpow_log2_le {n : Nat} (h : 0 < n) : (2 : ℚ) ^ (Nat.log2 n : Int) ≤ n ∧ (n : ℚ) < 2 ^ ((Nat.log2 n : Int) + 1) := by
  have hlow := Nat.log2_self_le h.ne'
  have hhigh := Nat.lt_log2_self (n := n)
  constructor
  · rw [zpow_natCast]
    exact_mod_cast hlow
  · exact_mod_cast hhigh

/-- The two parts of a scaled fraction compare as the fraction and the power of two do. -/
theorem scaleDown_le_iff {num den : Nat} (hden : 0 < den) (shift : Int) :
    (scaleDown num den shift).2 ≤ (scaleDown num den shift).1 ↔ (2 : ℚ) ^ shift ≤ num / den := by
  have hscaled : (0 : ℚ) < (scaleDown num den shift).2 := by exact_mod_cast scaleDown_den_pos hden shift
  have hpow : (0 : ℚ) < 2 ^ shift := by positivity
  rw [← one_le_div₀ hpow, ← scaleDown_div, one_le_div₀ hscaled, Nat.cast_le]

/-- A positive fraction lies between the powers of two about its logarithm. -/
theorem zpow_log2Quotient_le {num den : Nat} (hnum : 0 < num) (hden : 0 < den) :
    (2 : ℚ) ^ log2Quotient num den ≤ num / den ∧ (num : ℚ) / den < 2 ^ (log2Quotient num den + 1) := by
  obtain ⟨hnlow, hnhigh⟩ := zpow_log2_le hnum
  obtain ⟨hdlow, hdhigh⟩ := zpow_log2_le hden
  have hdenpos : (0 : ℚ) < den := by exact_mod_cast hden
  have htwo : (2 : ℚ) ≠ 0 := two_ne_zero
  have hpos : ∀ k : Int, (0 : ℚ) < 2 ^ k := fun k => by positivity
  have hhigh : (num : ℚ) / den < 2 ^ ((Nat.log2 num : Int) - Nat.log2 den + 1) := by
    rw [div_lt_iff₀ hdenpos]
    calc (num : ℚ) < 2 ^ ((Nat.log2 num : Int) + 1) := hnhigh
      _ = 2 ^ ((Nat.log2 num : Int) - Nat.log2 den + 1) * 2 ^ (Nat.log2 den : Int) := by
        rw [← zpow_add₀ htwo]
        congr 1
        ring
      _ ≤ _ := mul_le_mul_of_nonneg_left hdlow (hpos _).le
  have hlow : (2 : ℚ) ^ ((Nat.log2 num : Int) - Nat.log2 den - 1) ≤ num / den := by
    rw [le_div_iff₀ hdenpos]
    calc (2 : ℚ) ^ ((Nat.log2 num : Int) - Nat.log2 den - 1) * den
        ≤ 2 ^ ((Nat.log2 num : Int) - Nat.log2 den - 1) * 2 ^ ((Nat.log2 den : Int) + 1) :=
          mul_le_mul_of_nonneg_left hdhigh.le (hpos _).le
      _ = 2 ^ (Nat.log2 num : Int) := by
        rw [← zpow_add₀ htwo]
        congr 1
        ring
      _ ≤ num := hnlow
  rw [log2Quotient]
  simp only [scaleDown_le_iff hden]
  split
  · next hle => exact ⟨hle, hhigh⟩
  · next hlt => exact ⟨hlow, by rwa [sub_add_cancel, ← not_le]⟩

/-- The logarithm of a positive fraction is the only exponent whose powers of two it lies between. -/
theorem log2Quotient_eq {num den : Nat} (hnum : 0 < num) (hden : 0 < den) {e : Int} (hlow : (2 : ℚ) ^ e ≤ num / den)
    (hhigh : (num : ℚ) / den < 2 ^ (e + 1)) : log2Quotient num den = e := by
  obtain ⟨hl, hh⟩ := zpow_log2Quotient_le hnum hden
  have htwo : (1 : ℚ) < 2 := one_lt_two
  have hle := (zpow_lt_zpow_iff_right₀ htwo).mp (hlow.trans_lt hh)
  have hge := (zpow_lt_zpow_iff_right₀ htwo).mp (hl.trans_lt hhigh)
  omega

/-- A fraction below a power of two has a logarithm below its exponent. -/
theorem log2Quotient_lt {num den : Nat} (hnum : 0 < num) (hden : 0 < den) {e : Int} (h : (num : ℚ) / den < 2 ^ e) :
    log2Quotient num den < e :=
  (zpow_lt_zpow_iff_right₀ one_lt_two).mp ((zpow_log2Quotient_le hnum hden).1.trans_lt h)

/-- A quotient is rounded to a whole number whose distance, in units of the denominator, is at most a half, and less if it is odd. -/
theorem roundQuotient_eq_of_mul_den {num den k : Nat} (hden : 0 < den) (hlow : 2 * (k * den) ≤ 2 * num + den)
    (hhigh : 2 * num ≤ 2 * (k * den) + den)
    (hodd : k % 2 = 1 → 2 * (k * den) < 2 * num + den ∧ 2 * num < 2 * (k * den) + den) : roundQuotient num den = k := by
  have hsplit := Nat.div_add_mod num den
  have hmod := Nat.mod_lt num hden
  rw [roundQuotient]
  generalize hq : num / den = q at hsplit ⊢
  generalize num % den = r at hsplit hmod ⊢
  -- The whole number is the quotient rounded down, or the next one.
  have hnear : k = q ∨ k = q + 1 := by
    have h1 : q * den < (k + 1) * den := by
      rw [Nat.mul_comm q, Nat.add_mul]
      omega
    have h2 : k * den < (q + 2) * den := by
      rw [Nat.add_mul, Nat.mul_comm q]
      omega
    have h1' := Nat.lt_of_mul_lt_mul_right h1
    have h2' := Nat.lt_of_mul_lt_mul_right h2
    omega
  rcases hnear with rfl | rfl
  · rw [Nat.mul_comm] at hsplit
    split
    · rfl
    · split
      · omega
      · split
        · rfl
        · omega
  · rw [Nat.add_mul, Nat.mul_comm q] at hlow hhigh hodd
    split
    · omega
    · split
      · rfl
      · split
        · omega
        · rfl

/-- A quotient less than a half away from a whole number rounds to it, and so does one a half away from an even one. -/
theorem roundQuotient_eq {num den k : Nat} (hden : 0 < den) (hlow : (k : ℚ) - 1 / 2 ≤ num / den)
    (hhigh : (num : ℚ) / den ≤ k + 1 / 2)
    (hodd : k % 2 = 1 → (k : ℚ) - 1 / 2 < num / den ∧ (num : ℚ) / den < k + 1 / 2) : roundQuotient num den = k := by
  have hdenpos : (0 : ℚ) < den := by exact_mod_cast hden
  refine roundQuotient_eq_of_mul_den hden ?_ ?_ fun hk => ?_
  · rw [le_div_iff₀ hdenpos] at hlow
    have hcast : (2 * (k * den) : ℚ) ≤ 2 * num + den := by linarith
    exact_mod_cast hcast
  · rw [div_le_iff₀ hdenpos] at hhigh
    have hcast : (2 * num : ℚ) ≤ 2 * (k * den) + den := by linarith
    exact_mod_cast hcast
  · obtain ⟨hl, hh⟩ := hodd hk
    rw [lt_div_iff₀ hdenpos] at hl
    rw [div_lt_iff₀ hdenpos] at hh
    have hl' : (2 * (k * den) : ℚ) < 2 * num + den := by linarith
    have hh' : (2 * num : ℚ) < 2 * (k * den) + den := by linarith
    exact ⟨by exact_mod_cast hl', by exact_mod_cast hh'⟩

/-! ## Neighbourhoods -/

/-- A neighbourhood in units of `unit` contains a value: its ends only count if it is closed. -/
def Neighbourhood.Contains (n : Neighbourhood) (unit v : ℚ) : Prop :=
  if n.closed then n.low * unit ≤ v ∧ v ≤ n.high * unit else n.low * unit < v ∧ v < n.high * unit

/-- A value reads back as the positive double `m · 2 ^ q`. -/
def ReadsAs (m : Nat) (q : Int) (v : ℚ) : Prop := (neighbourhood m q).Contains (2 ^ (q - 2)) v

theorem Neighbourhood.Contains.le {n : Neighbourhood} {unit v : ℚ} (h : n.Contains unit v) :
    n.low * unit ≤ v ∧ v ≤ n.high * unit := by
  rw [Contains] at h
  split at h
  · exact h
  · exact ⟨h.1.le, h.2.le⟩

section

variable {m : Nat} {q : Int} {v : ℚ}

/-- The unit of a neighbourhood is a quarter of the last place. -/
theorem zpow_sub_two (q : Int) : (2 : ℚ) ^ (q - 2) = 2 ^ q / 4 := by
  rw [zpow_sub₀ two_ne_zero]
  norm_num

/-- No value is more than half of the last place above the double it reads as. -/
theorem ReadsAs.le_high (h : ReadsAs m q v) : v ≤ (m + 1 / 2) * 2 ^ q := by
  have hv := h.le.2
  rw [zpow_sub_two, neighbourhood] at hv
  push_cast at hv
  linarith

/-- No value is more than half of the last place below the double it reads as. -/
theorem ReadsAs.low_le (hm : 0 < m) (h : ReadsAs m q v) : (m - 1 / 2) * 2 ^ q ≤ v := by
  have hpow : (0 : ℚ) < 2 ^ q := by positivity
  have hlow : (4 * m - 2 : ℚ) ≤ (neighbourhood m q).low := by
    rw [neighbourhood]
    split
    · rw [Nat.cast_sub (by omega)]
      push_cast
      linarith
    · rw [Nat.cast_sub (by omega)]
      push_cast
      exact le_refl _
  have hv := h.le.1
  rw [zpow_sub_two] at hv
  have hmul := mul_le_mul_of_nonneg_right hlow (show (0 : ℚ) ≤ 2 ^ q / 4 by positivity)
  linarith

/-- Below a power of two no value is more than a quarter of the last place below the double it reads as. -/
theorem ReadsAs.low_le_of_full (hm : m = leastFullMantissa) (hq : leastExponent < q) (h : ReadsAs m q v) :
    (m - 1 / 4) * 2 ^ q ≤ v := by
  have hpos : 0 < m := by
    rw [hm]
    decide
  have hv := h.le.1
  rw [zpow_sub_two, neighbourhood] at hv
  simp only [hm, hq, and_self, if_true] at hv
  rw [← hm, Nat.cast_sub (by omega)] at hv
  push_cast at hv
  linarith

/-- Half of the last place away from a double with an odd mantissa no value reads as it. -/
theorem ReadsAs.lt_of_odd (hm : m % 2 = 1) (h : ReadsAs m q v) : (m - 1 / 2) * 2 ^ q < v ∧ v < (m + 1 / 2) * 2 ^ q := by
  have hnot : ¬m = leastFullMantissa := by
    rintro rfl
    exact absurd hm (by decide)
  have heven : ¬m % 2 = 0 := by omega
  rw [ReadsAs, Neighbourhood.Contains, neighbourhood, zpow_sub_two] at h
  simp only [hnot, false_and, if_false, heven, decide_false, Bool.false_eq_true] at h
  obtain ⟨hl, hh⟩ := h
  rw [Nat.cast_sub (by omega)] at hl
  push_cast at hl hh
  constructor <;> linarith

/-! ## Reading a quotient -/

/-- A quotient whose place and rounded mantissa are known is the double with these. -/
theorem ofQuotient_eq {negative : Bool} {num den k : Nat} {e : Int} (hnum : 0 < num)
    (he : max (log2Quotient num den - 52) leastExponent = e)
    (hk : roundQuotient (scaleDown num den e).1 (scaleDown num den e).2 = k) {hd : IsDouble m q}
    (hform : k = m ∧ k ≠ mantissaBound ∧ e = q ∨ k = mantissaBound ∧ m = leastFullMantissa ∧ e + 1 = q) :
    ofQuotient negative num den = .finite ⟨negative, m, q, hd⟩ := by
  rw [ofQuotient, if_neg hnum.ne']
  simp only [he, hk]
  rcases hform with ⟨rfl, hne, rfl⟩ | ⟨rfl, rfl, rfl⟩
  · simp only [hne, if_false, hd, dif_pos]
  · simp only [if_true, hd, dif_pos]

/-- What lies strictly within half of a place, or within it of an even multiple, rounds to the multiple. -/
theorem roundQuotient_scaleDown {num den k : Nat} {e : Int} (hden : 0 < den) (hlow : ((k : ℚ) - 1 / 2) * 2 ^ e ≤ num / den)
    (hhigh : (num : ℚ) / den ≤ (k + 1 / 2) * 2 ^ e)
    (hodd : k % 2 = 1 → ((k : ℚ) - 1 / 2) * 2 ^ e < num / den ∧ (num : ℚ) / den < (k + 1 / 2) * 2 ^ e) :
    roundQuotient (scaleDown num den e).1 (scaleDown num den e).2 = k := by
  have hpow : (0 : ℚ) < 2 ^ e := by positivity
  apply roundQuotient_eq (scaleDown_den_pos hden e) <;> rw [scaleDown_div]
  · rwa [le_div_iff₀ hpow]
  · rwa [div_le_iff₀ hpow]
  · rwa [lt_div_iff₀ hpow, div_lt_iff₀ hpow]

/-- A value that reads as a positive double is positive. -/
theorem ReadsAs.pos (hm : 0 < m) (h : ReadsAs m q v) : 0 < v := by
  have hone : (1 : ℚ) ≤ m := by exact_mod_cast hm
  have hprod : (0 : ℚ) < (m - 1 / 2) * 2 ^ q := mul_pos (by linarith) (by positivity)
  exact hprod.trans_le (h.low_le hm)

/-- The least number with a full mantissa at a place. -/
theorem zpow_add_bits (q : Int) : (2 : ℚ) ^ (q + 52) = leastFullMantissa * 2 ^ q := by
  rw [zpow_add₀ two_ne_zero, mul_comm, leastFullMantissa]
  norm_num

/-- Below a power of two the places are half as far, and the mantissa is rounded up to the bound. -/
theorem ofQuotient_below_full (negative : Bool) (hd : IsDouble m q) (hm : m = leastFullMantissa) (hq : leastExponent < q)
    {num den : Nat} (hnum : 0 < num) (hden : 0 < den) (h : ReadsAs m q (num / den))
    (hlt : (num : ℚ) / den < 2 ^ (q + 52)) : ofQuotient negative num den = .finite ⟨negative, m, q, hd⟩ := by
  have hpow : (0 : ℚ) < 2 ^ q := by positivity
  have hhalf : (2 : ℚ) ^ (q - 1) = 2 ^ q / 2 := zpow_sub_one₀ two_ne_zero q
  have hfull : (m : ℚ) = 2 ^ 52 := by
    rw [hm, leastFullMantissa]
    norm_num
  have hbound : (mantissaBound : ℚ) = 2 * 2 ^ 52 := by
    rw [mantissaBound]
    norm_num
  have hlow := h.low_le_of_full hm hq
  have htop : (2 : ℚ) ^ (q + 52) = 2 ^ 52 * 2 ^ q := by rw [zpow_add_bits, ← hm, hfull]
  rw [hfull] at hlow
  have hlog : log2Quotient num den = q + 51 := by
    refine log2Quotient_eq hnum hden ?_ (by rwa [show q + 51 + 1 = q + 52 by omega])
    have hstep : (2 : ℚ) ^ (q + 51) = 2 ^ 52 * 2 ^ q / 2 := by
      rw [show q + 51 = q + 52 - 1 by omega, zpow_sub_one₀ two_ne_zero, htop]
      rfl
    rw [hstep]
    linarith
  have hround : roundQuotient (scaleDown num den (q - 1)).1 (scaleDown num den (q - 1)).2 = mantissaBound := by
    refine roundQuotient_scaleDown hden ?_ ?_ (fun hodd => absurd hodd (by decide))
    · rw [hbound, hhalf]
      linarith
    · rw [hbound, hhalf]
      linarith
  exact ofQuotient_eq hnum (by rw [hlog]; omega) hround (.inr ⟨rfl, hm, by omega⟩)

/-- A quotient in the neighbourhood of a positive double is read as it. -/
theorem ofQuotient_of_readsAs (negative : Bool) (hd : IsDouble m q) (hm : 0 < m) {num den : Nat} (hden : 0 < den)
    (h : ReadsAs m q (num / den)) : ofQuotient negative num den = .finite ⟨negative, m, q, hd⟩ := by
  have hpow : (0 : ℚ) < 2 ^ q := by positivity
  have hnum : 0 < num := by
    rw [Nat.pos_iff_ne_zero]
    rintro rfl
    have hpos := h.pos hm
    rw [Nat.cast_zero, zero_div] at hpos
    exact lt_irrefl 0 hpos
  have hbound : m < mantissaBound := hd.1
  have hround := roundQuotient_scaleDown hden (h.low_le hm) h.le_high h.lt_of_odd
  have hsame : ∀ e, max e leastExponent = q → log2Quotient num den - 52 = e →
      ofQuotient negative num den = .finite ⟨negative, m, q, hd⟩ := fun e he hlog =>
    ofQuotient_eq hnum (by rw [hlog, he]) hround (.inl ⟨rfl, hbound.ne, rfl⟩)
  rcases le_or_gt ((2 : ℚ) ^ (q + 52)) (num / den) with hfull | hfull
  · have hhigh : (num : ℚ) / den < 2 ^ (q + 52 + 1) := by
      have hstep : (m : ℚ) + 1 ≤ mantissaBound := by exact_mod_cast hbound
      have hplace : (2 : ℚ) ^ (q + 52 + 1) = mantissaBound * 2 ^ q := by
        rw [zpow_add_one₀ two_ne_zero, zpow_add_bits, leastFullMantissa, mantissaBound]
        push_cast
        ring
      rw [hplace]
      exact h.le_high.trans_lt (mul_lt_mul_of_pos_right (by linarith) hpow)
    have hlog := log2Quotient_eq hnum hden hfull hhigh
    exact hsame q (max_eq_left hd.2.1) (by omega)
  · by_cases hq : q = leastExponent
    · have hlog := log2Quotient_lt hnum hden hfull
      exact hsame _ (by omega) rfl
    · -- The mantissa is full, and the least full one, since the value falls short of it.
      have hleast : leastExponent < q := lt_of_le_of_ne hd.2.1 (Ne.symm hq)
      have hmfull : leastFullMantissa ≤ m := hd.2.2.2.resolve_right hq
      have hlt : (m : ℚ) - 1 / 2 < leastFullMantissa := by
        rw [zpow_add_bits] at hfull
        exact lt_of_mul_lt_mul_right ((h.low_le hm).trans_lt hfull) hpow.le
      have hle : m ≤ leastFullMantissa := by
        have hcast : (m : ℚ) < leastFullMantissa + 1 := by linarith
        exact Nat.lt_succ_iff.mp (by exact_mod_cast hcast)
      exact ofQuotient_below_full negative hd (Nat.le_antisymm hle hmfull) hleast hnum hden h hfull

/-! ## Reading a decimal -/

/-- A power of ten as a rational number. -/
theorem cast_tenTo (n : Nat) : ((tenTo n : Nat) : ℚ) = 10 ^ n := by
  rw [tenTo, Nat.pow_eq, Nat.cast_pow, Nat.cast_ofNat]

theorem tenTo_pos (n : Nat) : 0 < tenTo n := Nat.pow_pos (by decide)

/-- Half of the least positive double is no less than `10 ^ -400`, and all doubles are less than `10 ^ 400`. -/
theorem two_pow_le_ten_pow : (2 : ℚ) ^ 1075 ≤ 10 ^ 400 := by
  have h : 2 ^ 1075 ≤ 10 ^ 400 := by decide +kernel
  exact_mod_cast h

/-- A value that reads as a positive double is not below `10 ^ -400`, nor is it above `10 ^ 400`. -/
theorem ReadsAs.magnitude (hd : IsDouble m q) (hm : 0 < m) (h : ReadsAs m q v) :
    (10 : ℚ) ^ (-400 : Int) ≤ v ∧ v ≤ 10 ^ (400 : Int) := by
  obtain ⟨hbound, hleast, hgreatest, -⟩ := hd
  have hone : (1 : ℚ) ≤ m := by exact_mod_cast hm
  have hstep : (m : ℚ) + 1 ≤ mantissaBound := by exact_mod_cast hbound
  constructor
  · calc (10 : ℚ) ^ (-400 : Int) ≤ 2 ^ (-1075 : Int) := inv_anti₀ (by positivity) two_pow_le_ten_pow
      _ = 1 / 2 * 2 ^ leastExponent := by
          rw [show (-1075 : Int) = leastExponent - 1 from rfl, zpow_sub_one₀ two_ne_zero]
          ring
      _ ≤ (m - 1 / 2) * 2 ^ q :=
          mul_le_mul (by linarith) (zpow_le_zpow_right₀ one_le_two hleast) (by positivity) (by linarith)
      _ ≤ v := h.low_le hm
  · calc v ≤ (m + 1 / 2) * 2 ^ q := h.le_high
      _ ≤ mantissaBound * 2 ^ greatestExponent :=
          mul_le_mul (by linarith) (zpow_le_zpow_right₀ one_le_two hgreatest) (by positivity) (by positivity)
      _ = 2 ^ (1024 : Int) := by
          rw [show (1024 : Int) = greatestExponent + 53 from rfl, zpow_add₀ two_ne_zero, mul_comm, mantissaBound]
          norm_num
      _ ≤ 2 ^ (1075 : Int) := zpow_le_zpow_right₀ one_le_two (by decide)
      _ ≤ 10 ^ (400 : Int) := two_pow_le_ten_pow

/-- A decimal in the neighbourhood of a positive double is read as it: neither of the short cuts for values far outside the range
is taken. -/
theorem ofDecimal_of_readsAs (negative : Bool) (hd : IsDouble m q) (hm : 0 < m) {digits count : Nat} {power : Int}
    (hcount : digits < 10 ^ count) (h : ReadsAs m q (digits * 10 ^ power)) :
    ofDecimal negative digits count power = .finite ⟨negative, m, q, hd⟩ := by
  have hpow : (0 : ℚ) < 10 ^ power := by positivity
  have hten : (1 : ℚ) < 10 := by norm_num
  have hdigits : (0 : ℚ) < digits := pos_of_mul_pos_left (h.pos hm) hpow.le
  obtain ⟨hlow, hhigh⟩ := h.magnitude hd hm
  have hsmall : ¬power + count < -400 := by
    have hcast : (digits : ℚ) < 10 ^ count := by exact_mod_cast hcount
    have hlt := hlow.trans_lt (mul_lt_mul_of_pos_right hcast hpow)
    rw [← zpow_natCast, ← zpow_add₀ (by norm_num), zpow_lt_zpow_iff_right₀ hten] at hlt
    omega
  have hgreat : ¬400 < power := by
    have hone : (1 : ℚ) ≤ digits := by exact_mod_cast hdigits
    have hle := (le_mul_of_one_le_left hpow.le hone).trans hhigh
    rw [zpow_le_zpow_iff_right₀ hten] at hle
    omega
  rw [ofDecimal, if_neg (by exact_mod_cast hdigits.ne'), if_neg hsmall, if_neg hgreat]
  split
  · next hp =>
    obtain ⟨k, rfl⟩ := Int.eq_ofNat_of_zero_le hp
    refine ofQuotient_of_readsAs negative hd hm Nat.one_pos ?_
    rwa [Nat.cast_one, div_one, Nat.cast_mul, Int.toNat_natCast, cast_tenTo, ← zpow_natCast]
  · next hp =>
    obtain ⟨k, hk⟩ := Int.eq_ofNat_of_zero_le (show 0 ≤ -power by omega)
    refine ofQuotient_of_readsAs negative hd hm (tenTo_pos _) ?_
    rwa [hk, Int.toNat_natCast, cast_tenTo, div_eq_mul_inv, ← zpow_natCast, ← zpow_neg, ← hk, neg_neg]

end

end Double

end Workflow
