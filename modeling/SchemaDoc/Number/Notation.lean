import SchemaDoc.Number.Decimal

/-!
# Numbers as text

How a number is written and read. A number is written with the fewest digits that read back,
positionally while its first digit stands between the sixth place after the point and the
twenty-first before it, and with an exponent outside (`NumberFormat.standard`). Reading takes a
decimal with an optional sign, point and exponent.
-/

namespace SchemaDoc

/-- Where positional notation ends and what the special numbers are called. -/
structure NumberFormat where
  /-- The least exponent of the first digit that is written positionally. -/
  least : Int
  /-- The greatest exponent of the first digit that is written positionally. -/
  greatest : Int
  nan : String
  infinity : String

/-- The format of printed numbers. -/
def NumberFormat.standard : NumberFormat :=
  { least := -6, greatest := 20, nan := "NaN", infinity := "Infinity" }

namespace Decimal

/-- The digits of a decimal, without its exponent. -/
def digitChars (d : Decimal) : List Char := Nat.toDigits 10 d.digits

/-- The exponent of the first digit. -/
def leading (d : Decimal) : Int := d.exponent + d.digitChars.length - 1

/-- All digits in their places. -/
def positional (d : Decimal) : List Char :=
  let cs := d.digitChars
  let point := d.leading + 1
  if point ≤ 0 then '0' :: '.' :: List.replicate (-point).toNat '0' ++ cs
  else if cs.length ≤ point.toNat then cs ++ List.replicate (point.toNat - cs.length) '0'
  else cs.take point.toNat ++ '.' :: cs.drop point.toNat

/-- One digit before the point, and an exponent with its sign. -/
def exponential (d : Decimal) : List Char :=
  let e := d.leading
  let mantissa := match d.digitChars with
    | c :: c' :: cs => c :: '.' :: c' :: cs
    | cs => cs
  mantissa ++ 'e' :: (if e < 0 then '-' else '+') :: Nat.toDigits 10 e.natAbs

/-- The text of a decimal. -/
def write (f : NumberFormat) (d : Decimal) : List Char :=
  if f.least ≤ d.leading && d.leading ≤ f.greatest then d.positional else d.exponential

/-- The value of decimal digits. -/
def digitsValue (cs : List Char) : Nat :=
  cs.foldl (fun n c => 10 * n + (c.toNat - '0'.toNat)) 0

/-- The exponent that an exponent part spells; an absent part spells zero. -/
def readExponent : List Char → Option Int
  | [] => some 0
  | e :: cs =>
    if e == 'e' || e == 'E' then
      let (negative, digits) := match cs with
        | '-' :: ds => (true, ds)
        | '+' :: ds => (false, ds)
        | ds => (false, ds)
      if digits.isEmpty || !digits.all Text.isAsciiDigit then none
      else some (if negative then -(digitsValue digits : Int) else digitsValue digits)
    else none

/-- The decimal that an unsigned text spells: digits, perhaps a point and more digits, perhaps an
exponent. There is a digit before the exponent. -/
def read (cs : List Char) : Option Decimal :=
  let whole := cs.takeWhile Text.isAsciiDigit
  let rest := cs.dropWhile Text.isAsciiDigit
  let (part, rest) := match rest with
    | '.' :: rest => (rest.takeWhile Text.isAsciiDigit, rest.dropWhile Text.isAsciiDigit)
    | rest => ([], rest)
  if whole.isEmpty && part.isEmpty then none
  else (readExponent rest).map fun e => ⟨digitsValue (whole ++ part), e - part.length⟩

end Decimal

namespace Double

/-- The text of a number. -/
def write (x : Double) : List Char :=
  let f := NumberFormat.standard
  if x.isNaN then f.nan.toList
  else
    let magnitude :=
      if x.isInfinite then f.infinity.toList
      else if x.isZero then ['0']
      else (shortest x.rank).write f
    if x.negative then '-' :: magnitude else magnitude

/-- The text of a number. -/
def format (x : Double) : String := String.ofList x.write

/-- The number that a signed decimal text spells. -/
def readSigned : List Char → Option Double
  | '-' :: cs => (Decimal.read cs).map (Decimal.toDouble true)
  | '+' :: cs => (Decimal.read cs).map (Decimal.toDouble false)
  | cs => (Decimal.read cs).map (Decimal.toDouble false)

/-- The text without white space at its ends. -/
def trimmed (cs : List Char) : List Char :=
  let start := cs.dropWhile Text.isWhiteSpace
  (start.reverse.dropWhile Text.isWhiteSpace).reverse

/-- The number that a text is read as: blank text is zero, and text that is no number is NaN. -/
def ofText (s : String) : Double :=
  let cs := trimmed s.toList
  let infinityText := NumberFormat.standard.infinity.toList
  if cs.isEmpty then zero false
  else if cs == infinityText || cs == '+' :: infinityText then infinity false
  else if cs == '-' :: infinityText then infinity true
  else (readSigned cs).getD nan

end Double

end SchemaDoc
