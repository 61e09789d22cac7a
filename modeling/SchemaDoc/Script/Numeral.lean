import SchemaDoc.Number.Notation
import SchemaDoc.Text.Unit

/-!
# Numerals of scripts

A numeral is written in one of four bases, with underscores between its digits as one likes. A
decimal numeral may have a point and an exponent; one that starts with a zero and has no digit above
seven is octal. The letter `n` after an integer makes it an integer without bounds.

A numeral of another base than ten is summed up digit by digit and rounded to a double at each of
them, so it need not be the double nearest to the number that it spells.
-/

namespace SchemaDoc.Script

/-- The value of a numeral. -/
inductive Numeral where
  | double (x : Double)
  /-- An integer without bounds. -/
  | integer (n : Nat)
deriving DecidableEq

namespace Numeral

/-- The value of a digit in a base. -/
def digitValue? (base : Nat) (c : Char) : Option Nat :=
  (Text.hexValue? c).bind fun v => if v < base then some v else none

/-- A digit of a base, or an underscore. -/
def isDigitOf (base : Nat) (c : Char) : Bool := c == '_' || (digitValue? base c).isSome

/-- The values of the digits of a base; underscores do not count. -/
def digitValues (base : Nat) (cs : List Char) : List Nat := cs.filterMap (digitValue? base)

/-- The number that digits of a base spell. -/
def ofDigits (base : Nat) (ds : List Nat) : Nat := ds.foldl (fun n d => base * n + d) 0

/-- A natural number rounded to a double, as a natural number. -/
def roundNat (n : Nat) : Nat :=
  if n < 2 * Double.fractions then n
  else
    let shift := n.log2 - 52
    Double.roundDiv n (Nat.pow 2 shift) * Nat.pow 2 shift

/-- The double that the digits of a base sum up to, rounded at each of them. -/
def sumDigits (base : Nat) (ds : List Nat) : Double :=
  Double.ofNat (ds.foldl (fun n d => roundNat (base * n + d)) 0)

/-- The digits of a base at the front of a text, and the rest. -/
def splitDigits (base : Nat) (cs : List Char) : List Char × List Char :=
  (cs.takeWhile (isDigitOf base), cs.dropWhile (isDigitOf base))

/-- The digits without the underscores between them. -/
def bare (cs : List Char) : List Char := cs.filter (· != '_')

/-- A numeral, the rest after it, and whether a name may follow directly. -/
structure Reading where
  value : Numeral
  rest : List Char
  nameMayFollow : Bool

/-- An integer after the letter of its base. -/
def inBase (base : Nat) (cs : List Char) : Option Reading :=
  let (digits, rest) := splitDigits base cs
  let ds := digitValues base digits
  if ds.isEmpty then none
  else
    match rest with
    | 'n' :: rest => some ⟨integer (ofDigits base ds), rest, true⟩
    | rest => some ⟨double (sumDigits base ds), rest, false⟩

/-- The exponent part at the front of a text, and the rest. It fails on a letter `e` without
digits. -/
def exponent? (cs : List Char) : Option (Int × List Char) :=
  match cs with
  | e :: rest =>
    if e == 'e' || e == 'E' then
      let (negative, rest) := match rest with
        | '-' :: rest => (true, rest)
        | '+' :: rest => (false, rest)
        | rest => (false, rest)
      let (digits, rest) := splitDigits 10 rest
      if (bare digits).isEmpty then none
      else
        let e : Int := Decimal.digitsValue (bare digits)
        some (if negative then -e else e, rest)
    else some (0, cs)
  | [] => some (0, [])

/-- A decimal numeral with the digits before its point already read. -/
def decimalRest (whole rest : List Char) : Option Reading :=
  let (part, rest) := match rest with
    | '.' :: rest => splitDigits 10 rest
    | rest => ([], rest)
  (exponent? rest).map fun (e, rest) =>
    let whole := bare whole
    let part := bare part
    let d : Decimal := ⟨Decimal.digitsValue (whole ++ part), e - part.length⟩
    ⟨double (d.toDouble false), rest, false⟩

/-- A decimal numeral. -/
def decimal (cs : List Char) : Option Reading :=
  let (whole, rest) := splitDigits 10 cs
  match rest with
  | 'n' :: rest => some ⟨integer (Decimal.digitsValue (bare whole)), rest, true⟩
  | rest => decimalRest whole rest

/-- A numeral that starts with a zero: octal if it has more digits and none of them is above
seven. -/
def zeroLed (cs : List Char) : Option Reading :=
  let (whole, rest) := splitDigits 10 cs
  if whole.length == 1 then decimal cs
  else if whole.all (isDigitOf 8) then
    some ⟨double (sumDigits 8 (digitValues 8 whole)), rest, true⟩
  else decimalRest whole rest

/-- Reads a numeral from the front of a text. -/
def read (cs : List Char) : Option Reading :=
  match cs with
  | '0' :: c :: rest =>
    if c == 'x' || c == 'X' then inBase 16 rest
    else if c == 'o' || c == 'O' then inBase 8 rest
    else if c == 'b' || c == 'B' then inBase 2 rest
    else zeroLed cs
  | cs => decimal cs

end Numeral

end SchemaDoc.Script
