import Workflow.Number.Double

/-!
# Shortest decimals

The fewest decimal digits that read back as a given double, and of those the nearest to it. The reals that read back as
a double form an interval around it, its ends included exactly when the mantissa is even; a decimal with `n` digits lies
in it if and only if one of the two neighbours of the double on the grid of `n` digits does.
-/

namespace Workflow

namespace Double

/-- A decimal fraction `0.d₁d₂… · 10 ^ point`, its digits with the most significant first. -/
structure Decimal where
  digits : List Char
  point : Int
  deriving DecidableEq, Repr

/-- The interval of reals that read back as `m · 2 ^ q`, and that number itself, all in units of `2 ^ (q - 2)`. Below a
power of two the next number is only half as far. -/
structure Neighbourhood where
  low : Nat
  centre : Nat
  high : Nat
  closed : Bool

/-- The neighbourhood of a finite number other than zero. -/
def neighbourhood (m : Nat) (q : Int) : Neighbourhood where
  low := if m = leastFullMantissa ∧ leastExponent < q then 4 * m - 1 else 4 * m - 2
  centre := 4 * m
  high := 4 * m + 2
  closed := m % 2 = 0

/-- A quotient of two whole numbers whose parts may carry a power of ten and a power of two. -/
structure Fraction where
  num : Nat
  den : Nat

/-- `a · 2 ^ two · 10 ^ ten` as a fraction. -/
def Fraction.scaled (a : Nat) (two ten : Int) : Fraction where
  num := (a <<< two.toNat) * tenTo ten.toNat
  den := (1 <<< (-two).toNat) * tenTo (-ten).toNat

/-- The least `p` with `x < 10 ^ p` for a positive fraction `x`, searched upwards from `p`. -/
def Fraction.pointFrom (x : Fraction) : Nat → Int → Int
  | 0, p => p
  | fuel + 1, p =>
    let bound := Fraction.scaled 1 0 p
    if x.num * bound.den < bound.num * x.den then p else x.pointFrom fuel (p + 1)

/-- Whether `c` on the grid of step `unit` (a fraction of the unit of the neighbourhood) lies in the neighbourhood. Here
`c · unit.num` is compared with the ends times `unit.den`. -/
def Neighbourhood.holds (n : Neighbourhood) (unit : Fraction) (c : Nat) : Bool :=
  let x := c * unit.num
  if n.closed then decide (n.low * unit.den ≤ x ∧ x ≤ n.high * unit.den)
  else decide (n.low * unit.den < x ∧ x < n.high * unit.den)

/-- The point of the grid in the neighbourhood that is nearest to its centre, if there is one. Of two equally near ones
it is the even one, or the upper one when `tieUp` is set. -/
def Neighbourhood.nearest? (n : Neighbourhood) (tieUp : Bool) (unit : Fraction) : Option Nat :=
  let below := n.centre * unit.den / unit.num
  let above := below + 1
  match n.holds unit below && below != 0, n.holds unit above with
  | true, false => some below
  | false, true => some above
  | false, false => none
  | true, true =>
    let down := n.centre * unit.den - below * unit.num
    let up := above * unit.num - n.centre * unit.den
    if down < up then some below
    else if up < down then some above
    else if tieUp || below % 2 == 1 then some above else some below

/-- The first grid, from `count` digits on, that has a point in the neighbourhood, with that point. -/
def Neighbourhood.firstGrid (n : Neighbourhood) (tieUp : Bool) (q point : Int) : Nat → Nat → Nat × Nat
  | 0, count => (n.centre, count)
  | fuel + 1, count =>
    match n.nearest? tieUp (Fraction.scaled 1 (2 - q) (point - count)) with
    | some c => (c, count)
    | none => n.firstGrid tieUp q point fuel (count + 1)

/-- The shortest decimal that reads back as `m · 2 ^ q`, for a positive mantissa. Seventeen digits always suffice. -/
def shortest (tieUp : Bool) (m : Nat) (q : Int) : Decimal :=
  let value := Fraction.scaled m q 0
  let guess : Int := ((Nat.log2 m : Int) + q) * 3 / 10 - 2
  let point := value.pointFrom 200 guess
  let (c, count) := (neighbourhood m q).firstGrid tieUp q point 17 1
  let digits := Nat.toDigits 10 c
  { digits := (digits.reverse.dropWhile (· == '0')).reverse
    point := point + digits.length - count }

end Double

end Workflow
