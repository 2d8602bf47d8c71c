/-!
# Double-precision numbers

A floating-point number as exact data: a mantissa times a power of two, an infinity, or no number at all. A decimal
fraction is read as the nearest of them, and of two equally near ones as the one with the even mantissa.
-/

namespace Workflow

/-- The least exponent of two of a finite double. -/
def leastExponent : Int := -1074

/-- The greatest exponent of two of a finite double. -/
def greatestExponent : Int := 971

/-- The bound of the mantissas, two to the power of 53. -/
def mantissaBound : Nat := 0x20000000000000

/-- The least mantissa that uses all 53 bits, two to the power of 52. -/
def leastFullMantissa : Nat := 0x10000000000000

/-- Ten to a power. -/
def tenTo (n : Nat) : Nat := Nat.pow 10 n

/-- A mantissa of at most 53 bits with an exponent in range, in the one form that each value has: the mantissa uses all
53 bits unless the exponent is the least. -/
def IsDouble (mantissa : Nat) (exponent : Int) : Prop :=
  mantissa < mantissaBound ∧ leastExponent ≤ exponent ∧ exponent ≤ greatestExponent ∧
    (leastFullMantissa ≤ mantissa ∨ exponent = leastExponent)

instance (mantissa : Nat) (exponent : Int) : Decidable (IsDouble mantissa exponent) := by
  unfold IsDouble
  infer_instance

/-- A finite number of double precision, `± mantissa · 2 ^ exponent`. -/
structure Finite where
  negative : Bool
  mantissa : Nat
  exponent : Int
  isDouble : IsDouble mantissa exponent := by decide
  deriving DecidableEq

/-- A number of double precision. -/
inductive Double
  | nan
  | infinite (negative : Bool)
  | finite (x : Finite)
  deriving DecidableEq

/-- Zero, with a sign. -/
def Finite.zero (negative : Bool) : Finite where
  negative := negative
  mantissa := 0
  exponent := leastExponent

instance : Inhabited Double := ⟨.finite (.zero false)⟩

namespace Double

/-- The quotient of two whole numbers, rounded to the nearest whole number, a half to the even neighbour. -/
def roundQuotient (num den : Nat) : Nat :=
  let q := num / den
  let r := num % den
  if 2 * r < den then q
  else if den < 2 * r then q + 1
  else if q % 2 = 0 then q else q + 1

/-- The fraction `num / den` over `2 ^ shift`, as a numerator and a denominator. -/
def scaleDown (num den : Nat) (shift : Int) : Nat × Nat :=
  if 0 ≤ shift then (num, den <<< shift.toNat) else (num <<< (-shift).toNat, den)

/-- The exponent `e` with `2 ^ e ≤ num / den < 2 ^ (e + 1)`, for positive `num` and `den`. -/
def log2Quotient (num den : Nat) : Int :=
  let e : Int := (Nat.log2 num : Int) - (Nat.log2 den : Int)
  let scaled := scaleDown num den e
  if scaled.2 ≤ scaled.1 then e else e - 1

/-- The double nearest to `± num / den`, infinite where that leaves the range. A mantissa that rounding carried to
the bound is halved. -/
def ofQuotient (negative : Bool) (num den : Nat) : Double :=
  if num = 0 then .finite (.zero negative)
  else
    let exponent := max (log2Quotient num den - 52) leastExponent
    let scaled := scaleDown num den exponent
    let rounded := roundQuotient scaled.1 scaled.2
    let mantissa := if rounded = mantissaBound then leastFullMantissa else rounded
    let exponent := if rounded = mantissaBound then exponent + 1 else exponent
    if h : IsDouble mantissa exponent then .finite ⟨negative, mantissa, exponent, h⟩ else .infinite negative

/-- The double nearest to `± digits · 10 ^ power`. `count` is a number of decimal digits that holds `digits`, the least
one or not; where it shows that the value lies far outside the range, the powers of ten are not computed. -/
def ofDecimal (negative : Bool) (digits count : Nat) (power : Int) : Double :=
  if digits = 0 then .finite (.zero negative)
  else if power + count < -400 then .finite (.zero negative)
  else if 400 < power then .infinite negative
  else if 0 ≤ power then ofQuotient negative (digits * tenTo power.toNat) 1
  else ofQuotient negative digits (tenTo (-power).toNat)

/-- The double nearest to a whole number. -/
def ofInt (n : Int) : Double :=
  ofQuotient (n < 0) n.natAbs 1

/-- Whether the number is neither infinite nor missing. -/
def isFinite : Double → Bool
  | .finite _ => true
  | _ => false

/-- Whether two numbers name the same value where values serve as keys: the two zeros do, and so do any two that are
no number at all. -/
def sameValue : Double → Double → Bool
  | .finite x, .finite y => x == y || (x.mantissa == 0 && y.mantissa == 0)
  | .infinite s, .infinite t => s == t
  | .nan, .nan => true
  | _, _ => false

/-- Whether the number lies between zero and the bound, both included. -/
def within (bound : Nat) : Double → Bool
  | .finite x =>
    if x.mantissa = 0 then true
    else if x.negative then false
    else if 0 ≤ x.exponent then decide (x.mantissa <<< x.exponent.toNat ≤ bound)
    else decide (x.mantissa ≤ bound <<< (-x.exponent).toNat)
  | _ => false

end Double

end Workflow
