/-!
# Double-precision numbers

A number of a script is an IEEE 754 binary64 value. It is kept by its three fields – sign, biased
exponent, fraction – so that every value of the type is a number and two values are equal exactly
when their bits are.

Everything else is read off the **rank** of a magnitude: exponent and fraction read as one natural
number. The rank counts the doubles from zero upwards, so the order of magnitudes is the order of
ranks, the neighbours of a double have the ranks next to its own, an even significand is an even
rank, and the rank after the last finite one is infinity. Rounding a fraction to the nearest double
(`Double.ofRatio`) only has to find the rank.
-/

namespace SchemaDoc

/-- How many fractions there are: they have 52 bits. -/
abbrev Double.fractions : Nat := 4503599627370496

/-- A binary64 number by its fields. -/
structure Double where
  negative : Bool
  exponent : Fin 2048
  fraction : Fin Double.fractions
deriving DecidableEq, Repr

namespace Double

/-! ### Ranks and values -/

/-- The position of a magnitude among the doubles, counted from zero. -/
def rank (x : Double) : Nat :=
  x.exponent.val * fractions + x.fraction.val

/-- The rank of infinity. -/
def infinityRank : Nat := 2047 * fractions

/-- The double of a given rank; every rank past infinity is infinity. -/
def ofRank (negative : Bool) (r : Nat) : Double :=
  let r := min r infinityRank
  { negative
    exponent := Fin.ofNat 2048 (r / fractions)
    fraction := Fin.ofNat fractions (r % fractions) }

/-- The significand at a rank: the magnitude there is `significand r * 2 ^ scale r`. -/
def significand (r : Nat) : Nat :=
  if r < fractions then r else fractions + r % fractions

/-- The exponent of two at a rank. -/
def scale (r : Nat) : Int :=
  if r < fractions then -1074 else (r / fractions : Nat) - 1075

/-- The number that the 64 bits of a word spell. -/
def ofBits (bits : UInt64) : Double :=
  let n := bits.toNat
  { negative := n / (2048 * fractions) == 1
    exponent := Fin.ofNat 2048 (n / fractions)
    fraction := Fin.ofNat fractions n }

/-- The word that spells a number. -/
def toBits (x : Double) : UInt64 :=
  UInt64.ofNat ((if x.negative then 2048 * fractions else 0) + x.rank)

/-- Zero, with a sign. -/
def zero (negative : Bool) : Double := ofRank negative 0

/-- Infinity, with a sign. -/
def infinity (negative : Bool) : Double := ofRank negative infinityRank

/-- The number that is no number. -/
def nan : Double :=
  { negative := false
    exponent := Fin.ofNat 2048 2047
    fraction := Fin.ofNat fractions (fractions / 2) }

/-- Whether a double is no number. -/
def isNaN (x : Double) : Bool := infinityRank < x.rank

/-- Whether a double is one of the infinities. -/
def isInfinite (x : Double) : Bool := x.rank == infinityRank

/-- Whether a double stands for a rational number. -/
def isFinite (x : Double) : Bool := x.rank < infinityRank

/-- Whether a double is one of the zeros. -/
def isZero (x : Double) : Bool := x.rank == 0

/-! ### Rounding -/

/-- A quotient rounded to the nearest natural number, a half to the even neighbour. -/
def roundDiv (n d : Nat) : Nat :=
  let q := n / d
  let r := n % d
  if 2 * r < d || (2 * r == d && q % 2 == 0) then q else q + 1

/-- `n * 2 ^ e` over `d`, as a fraction of natural numbers. -/
def scaled (n d : Nat) (e : Int) : Nat × Nat :=
  if 0 ≤ e then (n * Nat.pow 2 e.toNat, d) else (n, d * Nat.pow 2 (-e).toNat)

/-- The exponent `l` with `2 ^ l ≤ n / d < 2 ^ (l + 1)`, for positive `n` and `d`. -/
def floorLog2 (n d : Nat) : Int :=
  let l : Int := n.log2 - d.log2
  let (a, b) := scaled n d (-l)
  if b ≤ a then l else l - 1

/-- The double nearest to a fraction, a tie to the even significand. -/
def ofRatio (negative : Bool) (n d : Nat) : Double :=
  if n == 0 then zero negative
  else
    let q : Int := max (floorLog2 n d - 52) (-1074)
    let (a, b) := scaled n d (-q)
    ofRank negative ((q + 1074).toNat * fractions + roundDiv a b)

/-- The double nearest to `n * 2 ^ e`. -/
def ofScaled (negative : Bool) (n : Nat) (e : Int) : Double :=
  let (a, b) := scaled n 1 e
  ofRatio negative a b

/-- The double nearest to a natural number. -/
def ofNat (n : Nat) : Double := ofRatio false n 1

/-! ### Order -/

/-- Where a number stands on the line; the two zeros stand together. -/
def position (x : Double) : Int :=
  if x.negative then -x.rank else x.rank

/-- How two numbers compare; a NaN compares with nothing. -/
def compare? (x y : Double) : Option Ordering :=
  if x.isNaN || y.isNaN then none else some (compare x.position y.position)

/-- Numeric equality: the two zeros are equal, a NaN differs from itself. -/
def equals (x y : Double) : Bool := x.compare? y == some .eq

/-! ### Arithmetic -/

/-- The number with the other sign. -/
def neg (x : Double) : Double := { x with negative := !x.negative }

/-- The signed significand. -/
def signedSignificand (x : Double) : Int :=
  if x.negative then -(significand x.rank : Int) else significand x.rank

/-- The two significands moved to the smaller of the two scales, and that scale. -/
def aligned (x y : Double) : Int × Int × Int :=
  let e := min (scale x.rank) (scale y.rank)
  (x.signedSignificand * Int.pow 2 (scale x.rank - e).toNat,
    y.signedSignificand * Int.pow 2 (scale y.rank - e).toNat, e)

/-- The sum, rounded once. A sum that is exactly zero is negative only if both terms are. -/
def add (x y : Double) : Double :=
  if x.isNaN || y.isNaN then nan
  else if x.isInfinite then
    if y.isInfinite && x.negative != y.negative then nan else x
  else if y.isInfinite then y
  else
    let (a, b, e) := aligned x y
    let s := a + b
    if s == 0 then zero (x.negative && y.negative)
    else ofScaled (s < 0) s.natAbs e

/-- The difference, rounded once. -/
def sub (x y : Double) : Double := x.add y.neg

/-- The product, rounded once. -/
def mul (x y : Double) : Double :=
  let negative := x.negative != y.negative
  if x.isNaN || y.isNaN then nan
  else if x.isInfinite || y.isInfinite then
    if x.isZero || y.isZero then nan else infinity negative
  else
    ofScaled negative (significand x.rank * significand y.rank) (scale x.rank + scale y.rank)

/-- The quotient, rounded once. -/
def div (x y : Double) : Double :=
  let negative := x.negative != y.negative
  if x.isNaN || y.isNaN then nan
  else if x.isInfinite then
    if y.isInfinite then nan else infinity negative
  else if y.isInfinite then zero negative
  else if y.isZero then
    if x.isZero then nan else infinity negative
  else
    let (a, b) := scaled (significand x.rank) (significand y.rank) (scale x.rank - scale y.rank)
    ofRatio negative a b

/-- The remainder of division toward zero. It is exact and has the sign of the dividend. -/
def rem (x y : Double) : Double :=
  if x.isNaN || y.isNaN || x.isInfinite || y.isZero then nan
  else if y.isInfinite then x
  else
    let (a, b, e) := aligned x y
    ofScaled x.negative (a.natAbs % b.natAbs) e

end Double

end SchemaDoc
