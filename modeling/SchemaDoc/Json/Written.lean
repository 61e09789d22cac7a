import SchemaDoc.Json.Basic
import SchemaDoc.Text.Unit

/-!
# JSON as it is written

Reading a JSON text goes in two steps. The first (`Json.Written.read`) takes the text apart by the
grammar alone and keeps everything that is written: repeated keys, numerals digit by digit,
escapes that spell no character. The second (`Json.Written.value?`) gives the tree its value, and
there a text can still be refused: a numeral may be too large for a double, an escape may name half
of a surrogate pair, arrays and objects may nest too deeply.

The split matters where a reader skips a value it does not need: such a value has to be written
correctly, and need not have a value.
-/

namespace SchemaDoc.Json

/-- A numeral by its digits. -/
structure Numeral where
  negative : Bool
  whole : List Char
  fraction : Option (List Char)
  /-- The sign of the exponent and its digits. -/
  exponent : Option (Bool × List Char)

/-- A JSON text taken apart. A string that spells no text is `none`. -/
inductive Written where
  | null
  | bool (b : Bool)
  | number (n : Numeral)
  | string (s : Option String)
  | array (items : List Written)
  | object (fields : List (Option String × Written))

/-! ### Numerals -/

namespace Numeral

/-- Digits are collected in a significand of 64 bits. -/
def significandLimit : Nat := 18446744073709551616

/-- Collects digits into a significand while it stays below the limit, and counts the digits taken
and the digits left over from the first one that did not fit. -/
def collect : Nat → List Char → Nat × Nat × Nat
  | s, [] => (s, 0, 0)
  | s, c :: cs =>
    let next := 10 * s + (c.toNat - '0'.toNat)
    if next < significandLimit then
      let (s, taken, left) := collect next cs
      (s, taken + 1, left)
    else (s, 0, cs.length + 1)

/-- The largest exponent that is written out as a power of ten in one step. -/
def stepLimit : Nat := 308

/-- A power of ten as a double. -/
def power (n : Nat) : Double := Decimal.toDouble false ⟨1, n⟩

/-- The number `x * 10 ^ e`, each step rounded: one multiplication for a positive exponent, and one
or more divisions for a negative one. There is none if it is too large for a double. -/
def scale : Nat → Double → Int → Option Double
  | fuel, x, e =>
    if e.natAbs ≤ stepLimit then
      if 0 ≤ e then
        let y := x.mul (power e.natAbs)
        if y.isInfinite then none else some y
      else some (x.div (power e.natAbs))
    else if x.isZero then some x
    else if 0 ≤ e then none
    else match fuel with
      | 0 => some (Double.zero false)
      | fuel + 1 => scale fuel (x.div (power stepLimit)) (e + stepLimit)

/-- Exponents from here on are not read digit by digit: such a number is zero or out of range. -/
def exponentLimit : Nat := 2147483648

/-- The magnitude of a numeral. -/
def magnitude? (n : Numeral) : Option Double :=
  let (s, _, left) := collect 0 n.whole
  let (s, taken) := match n.fraction with
    | none => (s, 0)
    | some digits =>
      let (s, taken, _) := collect s digits
      (s, taken)
  let start : Int := left - taken
  match n.exponent with
  | none =>
    if n.fraction.isNone && left == 0 then some (Double.ofNat s)
    else scale 8 (Double.ofNat s) start
  | some (negative, digits) =>
    let e := Decimal.digitsValue digits
    if exponentLimit ≤ e then
      if s != 0 && !negative then none else some (Double.zero false)
    else scale 8 (Double.ofNat s) (if negative then start - e else start + e)

/-- The value of a numeral, if doubles reach it. -/
def value? (n : Numeral) : Option Double :=
  n.magnitude?.map fun x => if n.negative then x.neg else x

/-- Splits digits from the front of a text, at least one. -/
def digits? (cs : List Char) : Option (List Char × List Char) :=
  let ds := cs.takeWhile Text.isAsciiDigit
  if ds.isEmpty then none else some (ds, cs.dropWhile Text.isAsciiDigit)

/-- Reads an exponent, if one is there. -/
def readExponent (cs : List Char) : Option (Option (Bool × List Char) × List Char) :=
  match cs with
  | e :: rest =>
    if e == 'e' || e == 'E' then
      let (negative, rest) := match rest with
        | '-' :: rest => (true, rest)
        | '+' :: rest => (false, rest)
        | rest => (false, rest)
      (digits? rest).map fun (ds, rest) => (some (negative, ds), rest)
    else some (none, cs)
  | [] => some (none, [])

/-- Reads a numeral from the front of a text. The whole part has no leading zero, and a point and
an exponent are followed by a digit. -/
def read (cs : List Char) : Option (Numeral × List Char) := do
  let (negative, cs) := match cs with
    | '-' :: cs => (true, cs)
    | cs => (false, cs)
  let (whole, cs) ← digits? cs
  if whole.head? == some '0' && whole.length != 1 then none
  let (fraction, cs) ← match cs with
    | '.' :: rest => (digits? rest).map fun (ds, rest) => (some ds, rest)
    | cs => some (none, cs)
  let (exponent, cs) ← readExponent cs
  return (⟨negative, whole, fraction, exponent⟩, cs)

end Numeral

namespace Written

/-! ### Values -/

/-- How many arrays and objects may stand inside each other. -/
def nestingLimit : Nat := 127

mutual
/-- The value of a written text, with the number of levels that may still be opened. -/
def valueAt? : Nat → Written → Option Json
  | _, null => some .null
  | _, bool b => some (.bool b)
  | _, number n => n.value?.map .number
  | _, string s => s.map .string
  | 0, array _ => none
  | depth + 1, array items => (itemsAt? depth items).map .array
  | 0, object _ => none
  | depth + 1, object fields => (fieldsAt? depth [] fields).map .object

/-- The values of the items of an array. -/
def itemsAt? : Nat → List Written → Option (List Json)
  | _, [] => some []
  | depth, item :: items =>
    (valueAt? depth item).bind fun v => (itemsAt? depth items).map (v :: ·)

/-- The fields of an object, put one after the other into those already read. -/
def fieldsAt? : Nat → List (String × Json) → List (Option String × Written) →
    Option (List (String × Json))
  | _, done, [] => some done
  | depth, done, (key, field) :: fields =>
    key.bind fun k => (valueAt? depth field).bind fun v =>
      fieldsAt? depth (insertKey k v done) fields
end

/-- The value of a written text. -/
def value? (w : Written) : Option Json := valueAt? nestingLimit w

/-! ### Reading -/

/-- The text after blanks. -/
def skipBlanks (cs : List Char) : List Char :=
  cs.dropWhile fun c => c == ' ' || c == '\t' || c == '\n' || c == '\r'

/-- The character that a one-letter escape stands for. -/
def escaped? : Char → Option Char
  | '"' => some '"'
  | '\\' => some '\\'
  | '/' => some '/'
  | 'b' => some (Char.ofNat 8)
  | 'f' => some (Char.ofNat 12)
  | 'n' => some '\n'
  | 'r' => some '\r'
  | 't' => some '\t'
  | _ => none

/-- Reads a string after its opening quote, to the units it is written with. -/
def readUnits : List Char → Option (List Nat × List Char)
  | [] => none
  | '"' :: cs => some ([], cs)
  | '\\' :: 'u' :: a :: b :: c :: d :: cs =>
    (Text.hexNumber? [a, b, c, d]).bind fun u =>
      (readUnits cs).map fun (us, rest) => (u :: us, rest)
  | '\\' :: c :: cs =>
    (escaped? c).bind fun e => (readUnits cs).map fun (us, rest) => (e.toNat :: us, rest)
  | c :: cs =>
    if c.toNat < 0x20 then none else (readUnits cs).map fun (us, rest) => (c.toNat :: us, rest)

/-- Reads a string after its opening quote. -/
def readString (cs : List Char) : Option (Option String × List Char) :=
  (readUnits cs).map fun (us, rest) => ((Text.ofUnits? us).map String.ofList, rest)

/-- Reads a word of the grammar. -/
def readWord (word : String) (w : Written) (cs : List Char) : Option (Written × List Char) :=
  if word.toList.isPrefixOf cs then some (w, cs.drop word.length) else none

mutual
/-- Reads a value from the front of a text. -/
def readValue : Nat → List Char → Option (Written × List Char)
  | 0, _ => none
  | fuel + 1, cs =>
    match skipBlanks cs with
    | '\x7b' :: cs =>
      match skipBlanks cs with
      | '\x7d' :: cs => some (object [], cs)
      | cs => (readFields fuel cs).map fun (fields, rest) => (object fields, rest)
    | '[' :: cs =>
      match skipBlanks cs with
      | ']' :: cs => some (array [], cs)
      | cs => (readItems fuel cs).map fun (items, rest) => (array items, rest)
    | '"' :: cs => (readString cs).map fun (s, rest) => (string s, rest)
    | 'n' :: cs => readWord "ull" null cs
    | 't' :: cs => readWord "rue" (bool true) cs
    | 'f' :: cs => readWord "alse" (bool false) cs
    | cs => (Numeral.read cs).map fun (n, rest) => (number n, rest)

/-- Reads the items of an array to its closing bracket. -/
def readItems : Nat → List Char → Option (List Written × List Char)
  | 0, _ => none
  | fuel + 1, cs =>
    (readValue fuel cs).bind fun (item, cs) =>
      match skipBlanks cs with
      | ',' :: cs => (readItems fuel cs).map fun (items, rest) => (item :: items, rest)
      | ']' :: cs => some ([item], cs)
      | _ => none

/-- Reads the fields of an object to its closing brace. -/
def readFields : Nat → List Char → Option (List (Option String × Written) × List Char)
  | 0, _ => none
  | fuel + 1, cs =>
    match skipBlanks cs with
    | '"' :: cs =>
      (readString cs).bind fun (key, cs) =>
        match skipBlanks cs with
        | ':' :: cs =>
          (readValue fuel cs).bind fun (field, cs) =>
            match skipBlanks cs with
            | ',' :: cs =>
              (readFields fuel cs).map fun (fields, rest) => ((key, field) :: fields, rest)
            | '\x7d' :: cs => some ([(key, field)], cs)
            | _ => none
        | _ => none
    | _ => none
end

/-- Reads a whole text. Every level of reading takes a character, so twice its length is more fuel
than can be used. -/
def read (text : String) : Option Written :=
  let cs := text.toList
  (readValue (2 * cs.length + 2) cs).bind fun (w, rest) =>
    if (skipBlanks rest).isEmpty then some w else none

end Written

/-- The value of a JSON text. -/
def parse (text : String) : Option Json := (Written.read text).bind Written.value?

end SchemaDoc.Json
