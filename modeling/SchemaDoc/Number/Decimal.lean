import SchemaDoc.Number.Double
import SchemaDoc.Text.Class

/-!
# Decimals

A decimal is a natural number of digits times a power of ten. This file has the two directions
between decimals and doubles: `Decimal.toDouble` rounds a decimal to the nearest double, and
`Double.shortest` picks, for a positive finite double, a decimal of the fewest digits that rounds
back to it.

The decimals that round to a double form an interval around it, which reaches halfway to its two
neighbours and contains its ends exactly when the significand is even. `Double.shortest` tries the
grids of one, two, … seventeen digits and takes the first on which one of the value's two grid
neighbours lies in the interval: the nearer one, and the larger one if both are equally near. On a
finer grid there is nothing left to find, and the exact value is the answer.
-/

namespace SchemaDoc

/-- The number `digits * 10 ^ exponent`. -/
structure Decimal where
  digits : Nat
  exponent : Int
deriving DecidableEq, Repr

namespace Decimal

/-- The decimal as a fraction of natural numbers. -/
def ratio (d : Decimal) : Nat × Nat :=
  if 0 ≤ d.exponent then (d.digits * Nat.pow 10 d.exponent.toNat, 1)
  else (d.digits, Nat.pow 10 (-d.exponent).toNat)

/-- The double nearest to a decimal. The decimals beyond the range of doubles are sorted out by the
place of their first digit, so that no large power is ever computed for them. -/
def toDouble (negative : Bool) (d : Decimal) : Double :=
  if d.digits == 0 then Double.zero negative
  else
    let top : Int := (Nat.toDigits 10 d.digits).length + d.exponent
    if 310 < top then Double.infinity negative
    else if top < -330 then Double.zero negative
    else
      let (n, m) := d.ratio
      Double.ofRatio negative n m

/-- The same number without trailing zeros among its digits, at most `fuel` of them. -/
def trim : Nat → Decimal → Decimal
  | 0, d => d
  | fuel + 1, d =>
    if d.digits % 10 == 0 && d.digits != 0 then trim fuel ⟨d.digits / 10, d.exponent + 1⟩ else d

end Decimal

namespace Double

/-- The exponent `l` with `10 ^ l ≤ n / d < 10 ^ (l + 1)`, for positive `n` and `d`. The binary
logarithm gives it up to one, and two comparisons settle it. -/
def floorLog10 (n d : Nat) : Int :=
  let guess : Int := (floorLog2 n d * 30103).fdiv 100000
  let reaches (l : Int) : Bool :=
    if 0 ≤ l then Nat.pow 10 l.toNat * d ≤ n else d ≤ n * Nat.pow 10 (-l).toNat
  if reaches (guess + 1) then guess + 1 else if reaches guess then guess else guess - 1

/-- The decimals that round to the double of a rank: those between `lo / den` and `hi / den`. The
bounds themselves belong to the interval if `closed` is set. -/
structure Interval where
  lo : Nat
  hi : Nat
  den : Nat
  closed : Bool

/-- The interval of a rank. In quarters of the last place the value is four times the significand;
both neighbours are four quarters away, unless the value is a power of two, whose lower neighbour
is only two quarters away. -/
def interval (r : Nat) : Interval :=
  let s := significand r
  let narrow := s == fractions && 2 * fractions ≤ r
  let (unit, den) := scaled 1 1 (scale r - 2)
  { lo := (4 * s - (if narrow then 1 else 2)) * unit
    hi := (4 * s + 2) * unit
    den
    closed := r % 2 == 0 }

/-- Whether a decimal lies in the interval. -/
def Interval.contains (i : Interval) (d : Decimal) : Bool :=
  let (n, m) := d.ratio
  if i.closed then i.lo * m ≤ n * i.den && n * i.den ≤ i.hi * m
  else i.lo * m < n * i.den && n * i.den < i.hi * m

/-- The value of a rank as a fraction. -/
def rankRatio (r : Nat) : Nat × Nat := scaled (significand r) 1 (scale r)

/-- The value of a rank as a decimal. -/
def exactDecimal (r : Nat) : Decimal :=
  let e := scale r
  if 0 ≤ e then ⟨significand r * Nat.pow 2 e.toNat, 0⟩
  else ⟨significand r * Nat.pow 5 (-e).toNat, e⟩

/-- The grid neighbour of a value that lies in its interval, on the grid of spacing
`10 ^ exponent`. -/
def onGrid (r : Nat) (exponent : Int) : Option Decimal :=
  let (n, d) := rankRatio r
  let (n, d) :=
    if 0 ≤ exponent then (n, d * Nat.pow 10 exponent.toNat)
    else (n * Nat.pow 10 (-exponent).toNat, d)
  let below : Decimal := ⟨n / d, exponent⟩
  let above : Decimal := ⟨n / d + 1, exponent⟩
  let i := interval r
  let down := below.digits != 0 && i.contains below
  let up := i.contains above
  if up && (!down || d ≤ 2 * (n % d)) then some above
  else if down then some below
  else none

/-- A decimal of the fewest digits that rounds to the double of a positive rank. -/
def shortest (r : Nat) : Decimal :=
  let (n, d) := rankRatio r
  let top := floorLog10 n d
  let found := (List.range 17).findSome? fun (k : Nat) => onGrid r (top - k)
  (found.getD (exactDecimal r)).trim 400

end Double

end SchemaDoc
