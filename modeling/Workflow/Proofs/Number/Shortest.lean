import Workflow.Proofs.Number.Nearest
import Workflow.Yaml.Scalar

/-!
# Shortest decimals read back

The search for a shortest decimal tests points of decimal grids, from coarse to fine, against the neighbourhood of a double. A
point that it takes lies in the neighbourhood (`holds_iff_contains`), and on the grid of seventeen digits one is found
(`exists_nearest?_of_seventeen`): the grid is finer than the neighbourhood is wide, because the search for the place of the first
digit never ends too far up (`zpow_point_le`).
-/

namespace Workflow

namespace Double

/-! ## Fractions -/

/-- The number that a fraction stands for. -/
def Fraction.value (x : Fraction) : ℚ := x.num / x.den

/-- The denominator of a scaled fraction is positive. -/
theorem Fraction.scaled_den_pos (a : Nat) (two ten : Int) : 0 < (scaled a two ten).den := by
  rw [scaled, Nat.one_shiftLeft]
  exact Nat.mul_pos (Nat.two_pow_pos _) (tenTo_pos _)

/-- So is the numerator, if the number is. -/
theorem Fraction.scaled_num_pos {a : Nat} (ha : 0 < a) (two ten : Int) : 0 < (scaled a two ten).num := by
  rw [scaled, Nat.shiftLeft_eq]
  exact Nat.mul_pos (Nat.mul_pos ha (Nat.two_pow_pos _)) (tenTo_pos _)

/-- A power with an integer exponent is a quotient of two with natural exponents. -/
theorem zpow_eq_div {b : ℚ} (hb : b ≠ 0) (k : Int) : b ^ k = b ^ k.toNat / b ^ (-k).toNat := by
  rw [← zpow_natCast, ← zpow_natCast, ← zpow_sub₀ hb]
  congr 1
  omega

/-- A scaled fraction stands for the number times both powers. -/
theorem Fraction.value_scaled (a : Nat) (two ten : Int) : (scaled a two ten).value = a * 2 ^ two * 10 ^ ten := by
  rw [value, scaled, zpow_eq_div two_ne_zero two, zpow_eq_div (by norm_num) ten]
  push_cast [Nat.shiftLeft_eq, cast_tenTo]
  field_simp

/-! ## The place of the first digit -/

/-- The search for the place of the first digit never goes past it. -/
theorem Fraction.zpow_pointFrom_le {x : Fraction} (hden : 0 < x.den) (fuel : Nat) {p : Int} (h : (10 : ℚ) ^ (p - 1) ≤ x.value) :
    (10 : ℚ) ^ (x.pointFrom fuel p - 1) ≤ x.value := by
  induction fuel generalizing p with
  | zero => exact h
  | succ fuel ih =>
    have hx : (0 : ℚ) < x.den := by exact_mod_cast hden
    have hb : (0 : ℚ) < (scaled 1 0 p).den := by exact_mod_cast scaled_den_pos 1 0 p
    rw [pointFrom]
    split
    · exact h
    · next hge =>
      refine ih ?_
      have hcast : ((scaled 1 0 p).num * x.den : ℚ) ≤ x.num * (scaled 1 0 p).den := by exact_mod_cast not_lt.mp hge
      rw [← div_le_div_iff₀ hb hx] at hcast
      have hvalue := value_scaled 1 0 p
      rw [Nat.cast_one, zpow_zero, one_mul, one_mul] at hvalue
      rwa [add_sub_cancel_right, ← hvalue]

/-- A thousand to a power exceeds `2 ^ 10` to it by little if the power is negative, and not at all if it is not. -/
theorem thousand_zpow_le {l : Int} (hl : -1100 ≤ l) : (1000 : ℚ) ^ l ≤ 10 ^ 30 * 1024 ^ l := by
  rcases le_or_gt 0 l with hpos | hneg
  · obtain ⟨n, rfl⟩ := Int.eq_ofNat_of_zero_le hpos
    rw [zpow_natCast, zpow_natCast]
    calc (1000 : ℚ) ^ n ≤ 1024 ^ n := pow_le_pow_left₀ (by norm_num) (by norm_num) n
      _ ≤ 10 ^ 30 * 1024 ^ n := le_mul_of_one_le_left (by positivity) (by norm_num)
  · obtain ⟨n, hn⟩ := Int.eq_ofNat_of_zero_le (show 0 ≤ -l by omega)
    have hmargin : (1024 / 1000 : ℚ) ^ 1100 ≤ 10 ^ 30 := by
      have hnat : 1024 ^ 1100 ≤ 10 ^ 30 * 1000 ^ 1100 := by decide +kernel
      rw [div_pow, div_le_iff₀ (by positivity)]
      exact_mod_cast hnat
    have hratio : (1024 / 1000 : ℚ) ^ n ≤ 10 ^ 30 :=
      (pow_le_pow_right₀ (by norm_num) (show n ≤ 1100 by omega)).trans hmargin
    rw [div_pow, div_le_iff₀ (by positivity)] at hratio
    rw [← neg_neg l, hn, zpow_neg, zpow_neg, zpow_natCast, zpow_natCast, inv_le_iff_one_le_mul₀ (by positivity),
      mul_assoc, mul_comm _ ((1000 : ℚ) ^ n), ← mul_assoc, ← div_eq_mul_inv, one_le_div₀ (by positivity)]
    exact hratio

/-- Three tenths of an exponent of two, and three less to be sure, make an exponent of ten that is not too great. -/
theorem zpow_guess_le {l : Int} (hl : -1100 ≤ l) : (10 : ℚ) ^ (l * 3 / 10 - 3) ≤ 2 ^ l := by
  have hexponent : (l * 3 / 10 - 3) * 10 ≤ 3 * l - 30 := by omega
  rw [← pow_le_pow_iff_left₀ (by positivity) (by positivity) (show 10 ≠ 0 by decide)]
  calc ((10 : ℚ) ^ (l * 3 / 10 - 3)) ^ 10 = 10 ^ ((l * 3 / 10 - 3) * 10) := by
        rw [← zpow_natCast, ← zpow_mul]
        rfl
    _ ≤ 10 ^ (3 * l - 30) := zpow_le_zpow_right₀ (by norm_num) hexponent
    _ = 1000 ^ l / 10 ^ 30 := by
        rw [zpow_sub₀ (by norm_num), zpow_mul]
        norm_num
    _ ≤ 1024 ^ l := by
        rw [div_le_iff₀ (by positivity), mul_comm]
        exact thousand_zpow_le hl
    _ = (2 ^ l) ^ 10 := by
        rw [← zpow_natCast, ← zpow_mul, mul_comm, zpow_mul]
        norm_num

/-- The place of the first digit of a positive double. -/
def firstPlace (m : Nat) (q : Int) : Int :=
  (Fraction.scaled m q 0).pointFrom 200 (((Nat.log2 m : Int) + q) * 3 / 10 - 2)

/-- The place of the first digit is not beyond the number. -/
theorem zpow_firstPlace_le {m : Nat} {q : Int} (hm : 0 < m) (hq : leastExponent ≤ q) :
    (10 : ℚ) ^ (firstPlace m q - 1) ≤ m * 2 ^ q := by
  have hvalue : (Fraction.scaled m q 0).value = m * 2 ^ q := by rw [Fraction.value_scaled, zpow_zero, mul_one]
  rw [← hvalue]
  refine Fraction.zpow_pointFrom_le (Fraction.scaled_den_pos m q 0) 200 ?_
  rw [hvalue, sub_sub, show (2 : Int) + 1 = 3 from rfl]
  rw [leastExponent] at hq
  refine (zpow_guess_le (by omega)).trans ?_
  rw [zpow_add₀ two_ne_zero]
  exact mul_le_mul_of_nonneg_right (zpow_log2_le hm).1 (by positivity)

/-! ## Points of grids -/

/-- A value lies in a neighbourhood if its multiple lies in it in multiples of the unit. -/
theorem Neighbourhood.contains_mul_iff {n : Neighbourhood} {unit v k : ℚ} (hk : 0 < k) :
    n.Contains (unit * k) (v * k) ↔ n.Contains unit v := by
  rw [Contains, Contains]
  simp only [← mul_assoc, mul_le_mul_iff_left₀ hk, mul_lt_mul_iff_left₀ hk]

/-- The test of a point of a grid says whether the point lies in the neighbourhood. -/
theorem Neighbourhood.holds_iff_contains {n : Neighbourhood} {q p : Int} {c : Nat} :
    n.holds (Fraction.scaled 1 (2 - q) p) c = true ↔ n.Contains (2 ^ (q - 2)) (c * 10 ^ p) := by
  have hden := Fraction.scaled_den_pos 1 (2 - q) p
  have hvalue := Fraction.value_scaled 1 (2 - q) p
  generalize Fraction.scaled 1 (2 - q) p = unit at hden hvalue ⊢
  have hden' : (0 : ℚ) < unit.den := by exact_mod_cast hden
  have hinverse : (2 : ℚ) ^ (2 - q) * 2 ^ (q - 2) = 1 := by
    rw [← zpow_add₀ two_ne_zero, show 2 - q + (q - 2) = 0 by ring, zpow_zero]
  have hunits : n.Contains (2 ^ (q - 2)) (c * 10 ^ p) ↔ n.Contains 1 (c * unit.value) := by
    rw [← contains_mul_iff (v := c * unit.value) (show (0 : ℚ) < 2 ^ (q - 2) by positivity), one_mul, hvalue]
    have hscale : (c : ℚ) * ((1 : Nat) * 2 ^ (2 - q) * 10 ^ p) * 2 ^ (q - 2) = c * 10 ^ p * (2 ^ (2 - q) * 2 ^ (q - 2)) := by
      rw [Nat.cast_one]
      ring
    rw [hscale, hinverse, mul_one]
  rw [hunits, holds, Contains, Fraction.value]
  simp only [mul_one, ← mul_div_assoc, le_div_iff₀ hden', div_le_iff₀ hden', lt_div_iff₀ hden', div_lt_iff₀ hden']
  split <;> rw [decide_eq_true_eq] <;> norm_cast

/-- A point that is taken is one of the two about the centre, it passed the test, and it is not zero. -/
theorem Neighbourhood.of_nearest? {n : Neighbourhood} {tieUp : Bool} {unit : Fraction} {c : Nat}
    (h : n.nearest? tieUp unit = some c) : n.holds unit c = true ∧ c ≠ 0 := by
  unfold nearest? at h
  simp only at h
  have hdown : ∀ {below}, (n.holds unit below && below != 0) = true → n.holds unit below = true ∧ below ≠ 0 := by
    intro below hb
    rwa [Bool.and_eq_true, bne_iff_ne] at hb
  have hup : ∀ {below}, n.holds unit (below + 1) = true → n.holds unit (below + 1) = true ∧ below + 1 ≠ 0 :=
    fun hb => ⟨hb, Nat.succ_ne_zero _⟩
  split at h
  · next hb _ => exact Option.some.inj h ▸ hdown hb
  · next _ ha => exact Option.some.inj h ▸ hup ha
  · cases h
  · next hb ha =>
    split at h
    · exact Option.some.inj h ▸ hdown hb
    · split at h
      · exact Option.some.inj h ▸ hup ha
      · split at h
        · exact Option.some.inj h ▸ hup ha
        · exact Option.some.inj h ▸ hdown hb

/-- A point is taken if one of the two about the centre passes the test, the lower one not being zero. -/
theorem Neighbourhood.exists_nearest? {n : Neighbourhood} {tieUp : Bool} {unit : Fraction} {below : Nat}
    (hbelow : n.centre * unit.den / unit.num = below)
    (h : (n.holds unit below = true ∧ below ≠ 0) ∨ n.holds unit (below + 1) = true) :
    ∃ c, n.nearest? tieUp unit = some c := by
  unfold nearest?
  simp only [hbelow]
  split
  · exact ⟨_, rfl⟩
  · exact ⟨_, rfl⟩
  · next hdown hup =>
    rcases h with ⟨hholds, hne⟩ | hholds
    · rw [hholds, Bool.true_and, bne_eq_false_iff_eq] at hdown
      exact absurd hdown hne
    · rw [hup] at hholds
      cases hholds
  · repeat' split
    all_goals exact ⟨_, rfl⟩

/-- What lies strictly between the ends of a neighbourhood lies in it. -/
theorem Neighbourhood.contains_of_lt {n : Neighbourhood} {unit v : ℚ} (hlow : n.low * unit < v) (hhigh : v < n.high * unit) :
    n.Contains unit v := by
  rw [Contains]
  split
  · exact ⟨hlow.le, hhigh.le⟩
  · exact ⟨hlow, hhigh⟩

section

variable {m : Nat} {q p : Int}

/-- The two points of a grid about a double. -/
theorem below_mul_le (m : Nat) (q p : Int) :
    let unit := Fraction.scaled 1 (2 - q) p
    let below := (neighbourhood m q).centre * unit.den / unit.num
    (below : ℚ) * 10 ^ p ≤ m * 2 ^ q ∧ (m : ℚ) * 2 ^ q < ((below + 1 : Nat) : ℚ) * 10 ^ p := by
  intro unit below
  have hden : (0 : ℚ) < unit.den := by exact_mod_cast Fraction.scaled_den_pos 1 (2 - q) p
  have hnum : 0 < unit.num := Fraction.scaled_num_pos Nat.one_pos _ _
  have hvalue : (unit.num : ℚ) / unit.den = 2 ^ (2 - q) * 10 ^ p := by
    rw [← Fraction.value, Fraction.value_scaled, Nat.cast_one, one_mul]
  have hpow : (0 : ℚ) < 2 ^ (2 - q) := by positivity
  have hcentre : ((neighbourhood m q).centre : ℚ) = m * 2 ^ q * 2 ^ (2 - q) := by
    rw [mul_assoc, ← zpow_add₀ two_ne_zero, show q + (2 - q) = 2 by ring, neighbourhood]
    push_cast
    ring
  have hlow : (below * unit.num : ℚ) ≤ (neighbourhood m q).centre * unit.den := by
    exact_mod_cast Nat.div_mul_le_self _ unit.num
  have hhigh : ((neighbourhood m q).centre * unit.den : ℚ) < (below + 1 : Nat) * unit.num := by
    exact_mod_cast Nat.lt_mul_of_div_lt (Nat.lt_succ_self _) hnum
  rw [← div_le_iff₀ hden, mul_div_assoc, hvalue, hcentre, mul_comm _ ((10 : ℚ) ^ p), ← mul_assoc] at hlow
  rw [← lt_div_iff₀ hden, mul_div_assoc, hvalue, hcentre, mul_comm _ ((10 : ℚ) ^ p), ← mul_assoc] at hhigh
  exact ⟨le_of_mul_le_mul_right hlow hpow, lt_of_mul_lt_mul_right hhigh hpow.le⟩

/-- A double lies between the ends of its neighbourhood. -/
theorem neighbourhood_lt (hm : 0 < m) (q : Int) :
    ((neighbourhood m q).low : ℚ) * 2 ^ (q - 2) < m * 2 ^ q ∧ (m : ℚ) * 2 ^ q < (neighbourhood m q).high * 2 ^ (q - 2) := by
  have hpow : (0 : ℚ) < 2 ^ (q - 2) := by positivity
  have hcentre : (m : ℚ) * 2 ^ q = (4 * m : Nat) * 2 ^ (q - 2) := by
    rw [zpow_sub_two]
    push_cast
    ring
  have hlow : (neighbourhood m q).low < 4 * m := by
    simp only [neighbourhood]
    split <;> omega
  have hhigh : 4 * m < (neighbourhood m q).high := Nat.lt_add_of_pos_right (by decide)
  rw [hcentre]
  exact ⟨mul_lt_mul_of_pos_right (by exact_mod_cast hlow) hpow, mul_lt_mul_of_pos_right (by exact_mod_cast hhigh) hpow⟩

/-- A neighbourhood is wider than the grid of seventeen digits is coarse. -/
theorem grid_lt_width (hd : IsDouble m q) (hm : 0 < m) (hp : (10 : ℚ) ^ (p + 16) ≤ m * 2 ^ q) :
    (10 : ℚ) ^ p < (neighbourhood m q).high * 2 ^ (q - 2) - (neighbourhood m q).low * 2 ^ (q - 2) := by
  have hpow : (0 : ℚ) < 2 ^ q := by positivity
  have hgrid : (10 : ℚ) ^ (p + 16) = 10 ^ 16 * 10 ^ p := by
    rw [zpow_add₀ (by norm_num), mul_comm]
    rfl
  have hbound : (m : ℚ) ≤ 2 ^ 53 := by
    have hlt := hd.1
    rw [mantissaBound] at hlt
    exact_mod_cast hlt.le
  rw [hgrid] at hp
  rw [zpow_sub_two, neighbourhood]
  split
  · next hfull =>
    -- Below a power of two the neighbourhood is narrower, but the mantissa is the least full one.
    have hfull : (m : ℚ) = 2 ^ 52 := by
      rw [hfull.1, leastFullMantissa]
      norm_num
    rw [Nat.cast_sub (by omega)]
    push_cast
    rw [hfull] at hp ⊢
    linarith
  · have hmul := mul_le_mul_of_nonneg_right hbound hpow.le
    rw [Nat.cast_sub (by omega)]
    push_cast
    linarith

/-- On the grid of seventeen digits a point is taken. -/
theorem exists_nearest?_of_seventeen (hd : IsDouble m q) (hm : 0 < m) (hp : (10 : ℚ) ^ (p + 16) ≤ m * 2 ^ q) (tieUp : Bool) :
    ∃ c, (neighbourhood m q).nearest? tieUp (Fraction.scaled 1 (2 - q) p) = some c := by
  obtain ⟨hbelow, habove⟩ := below_mul_le m q p
  obtain ⟨hlow, hhigh⟩ := neighbourhood_lt hm q
  have hwidth := grid_lt_width hd hm hp
  have hten : (10 : ℚ) ^ p ≤ 10 ^ (p + 16) := zpow_le_zpow_right₀ (by norm_num) (by omega)
  refine Neighbourhood.exists_nearest? rfl ?_
  rw [Neighbourhood.holds_iff_contains, Neighbourhood.holds_iff_contains]
  generalize (neighbourhood m q).centre * (Fraction.scaled 1 (2 - q) p).den / (Fraction.scaled 1 (2 - q) p).num = below
    at hbelow habove ⊢
  have hne : below ≠ 0 := by
    rintro rfl
    rw [zero_add, Nat.cast_one, one_mul] at habove
    linarith
  -- The double lies between the two points, and they are closer to each other than the ends are.
  rcases lt_or_ge ((neighbourhood m q).low * 2 ^ (q - 2) : ℚ) (below * 10 ^ p) with hin | hout
  · exact .inl ⟨Neighbourhood.contains_of_lt hin (hbelow.trans_lt hhigh), hne⟩
  · refine .inr (Neighbourhood.contains_of_lt (hlow.trans habove) ?_)
    push_cast
    linarith

end

/-! ## The first grid -/

/-- The first grid with a point near a positive number has one that is not zero. -/
theorem firstGrid_ne_zero {n : Neighbourhood} (h : n.centre ≠ 0) (tieUp : Bool) (q point : Int) (fuel count : Nat) :
    (n.firstGrid tieUp q point fuel count).1 ≠ 0 := by
  induction fuel generalizing count with
  | zero => exact h
  | succ fuel ih =>
    rw [Neighbourhood.firstGrid]
    split
    · next c hc => exact (Neighbourhood.of_nearest? hc).2
    · exact ih (count + 1)

/-- If a point is taken on one of the grids that are tried, the point on the first such grid lies in the neighbourhood. -/
theorem contains_firstGrid {n : Neighbourhood} {tieUp : Bool} {q point : Int} {fuel count tried : Nat} (hcount : count ≤ tried)
    (htried : tried < count + fuel) (h : ∃ c, n.nearest? tieUp (Fraction.scaled 1 (2 - q) (point - tried)) = some c) :
    let found := n.firstGrid tieUp q point fuel count
    n.Contains (2 ^ (q - 2)) (found.1 * 10 ^ (point - found.2)) := by
  induction fuel generalizing count with
  | zero => omega
  | succ fuel ih =>
    rw [Neighbourhood.firstGrid]
    split
    · next c hc => exact Neighbourhood.holds_iff_contains.mp (Neighbourhood.of_nearest? hc).1
    · next hnone =>
      have hne : count ≠ tried := by
        rintro rfl
        obtain ⟨c, hc⟩ := h
        rw [hnone] at hc
        cases hc
      exact ih (by omega) (by omega)

end Double

/-! ## Digits -/

namespace Yaml

/-- The digits before others count as many tens as there are others. -/
theorem decimalValue_append (a b : List Char) : decimalValue (a ++ b) = decimalValue a * 10 ^ b.length + decimalValue b := by
  have h := Nat.ofDigitChars_append (b := 10) (l := a) (m := b) 0
  rw [Nat.ofDigitChars_eq_ofDigitChars_zero (l := b), Nat.mul_comm] at h
  exact h

/-- Zeros count nothing. -/
theorem decimalValue_zeros (n : Nat) : decimalValue (List.replicate n '0') = 0 :=
  Nat.ofDigitChars_replicate_zero.trans (Nat.mul_zero _)

/-- The digits of a number are that number. -/
theorem decimalValue_toDigits (n : Nat) : decimalValue (Nat.toDigits 10 n) = n := Nat.ofDigitChars_ten_toDigits

/-- Digits are a number with no more digits. -/
theorem decimalValue_lt {digits : List Char} (h : ∀ d ∈ digits, d.isDigit = true) :
    decimalValue digits < 10 ^ digits.length := by
  induction digits using List.reverseRecOn with
  | nil => exact Nat.one_pos
  | append_singleton digits d ih =>
    have hrest := ih fun c hc => h c (List.mem_append_left _ hc)
    have hd := h d (List.mem_append_right _ (List.mem_singleton_self d))
    have hdigit : d.toNat ≤ 57 := by
      rw [Char.isDigit, Bool.and_eq_true, decide_eq_true_eq, decide_eq_true_eq] at hd
      exact hd.2
    have hlast : decimalValue [d] = d.toNat - 48 := Nat.zero_add _
    rw [decimalValue_append, hlast, List.length_append, List.length_singleton, Nat.pow_one, Nat.pow_succ]
    omega

end Yaml

namespace Double

open Yaml

/-- The number that a decimal stands for. -/
def Decimal.value (d : Decimal) : ℚ := decimalValue d.digits * 10 ^ (d.point - d.digits.length)

/-- Zeros at the end of digits behind a point do not count. -/
theorem decimalValue_dropZeros (digits : List Char) :
    let kept := (digits.reverse.dropWhile (· == '0')).reverse
    decimalValue digits = decimalValue kept * 10 ^ (digits.length - kept.length) ∧ kept.length ≤ digits.length := by
  intro kept
  have hsplit : digits = kept ++ (digits.reverse.takeWhile (· == '0')).reverse := by
    rw [← List.reverse_append, List.takeWhile_append_dropWhile, List.reverse_reverse]
  have hzeros : decimalValue (digits.reverse.takeWhile (· == '0')).reverse = 0 := by
    rw [List.eq_replicate_of_mem fun d hd => beq_iff_eq.mp (List.all_eq_true.mp List.all_takeWhile d (List.mem_reverse.mp hd))]
    exact decimalValue_zeros _
  generalize (digits.reverse.takeWhile (· == '0')).reverse = zeros at hsplit hzeros
  have hlength : digits.length = kept.length + zeros.length := by rw [← List.length_append, ← hsplit]
  refine ⟨?_, by omega⟩
  rw [show digits.length - kept.length = zeros.length by omega]
  conv_lhs => rw [hsplit, decimalValue_append, hzeros, Nat.add_zero]

/-- The shortest decimal of a positive double stands for a number that reads as the double. -/
theorem readsAs_shortest (tieUp : Bool) {m : Nat} {q : Int} (hd : IsDouble m q) (hm : 0 < m) :
    ReadsAs m q (shortest tieUp m q).value := by
  have hplace : (10 : ℚ) ^ (firstPlace m q - (17 : Nat) + 16) ≤ m * 2 ^ q := by
    rw [show firstPlace m q - (17 : Nat) + 16 = firstPlace m q - 1 by push_cast; ring]
    exact zpow_firstPlace_le hm hd.2.1
  have hfound := contains_firstGrid (show 1 ≤ 17 by decide) (show 17 < 1 + 17 by decide)
    (exists_nearest?_of_seventeen hd hm hplace tieUp)
  have hshortest : shortest tieUp m q =
      let found := (neighbourhood m q).firstGrid tieUp q (firstPlace m q) 17 1
      { digits := ((Nat.toDigits 10 found.1).reverse.dropWhile (· == '0')).reverse
        point := firstPlace m q + (Nat.toDigits 10 found.1).length - found.2 } := rfl
  rw [hshortest]
  generalize (neighbourhood m q).firstGrid tieUp q (firstPlace m q) 17 1 = found at hfound ⊢
  obtain ⟨hvalue, hlength⟩ := decimalValue_dropZeros (Nat.toDigits 10 found.1)
  rw [decimalValue_toDigits] at hvalue
  rw [ReadsAs]
  convert hfound using 1
  simp only [Decimal.value]
  generalize ((Nat.toDigits 10 found.1).reverse.dropWhile (· == '0')).reverse = kept at hvalue hlength ⊢
  generalize (Nat.toDigits 10 found.1).length = size at hvalue hlength ⊢
  rw [hvalue, Nat.cast_mul, Nat.cast_pow, Nat.cast_ofNat, mul_assoc, ← zpow_natCast, ← zpow_add₀ (by norm_num)]
  congr 2
  omega

end Double

end Workflow
