/-!
# Text by 16-bit units

Escapes in strings name 16-bit units. Two units of the surrogate ranges, one of each in order,
spell one character between them; a surrogate that stands alone spells none, and then the units are
not a text.
-/

namespace SchemaDoc.Text

/-- A unit that opens a pair. -/
def isHighSurrogate (u : Nat) : Bool := 0xD800 ≤ u && u < 0xDC00

/-- A unit that closes a pair. -/
def isLowSurrogate (u : Nat) : Bool := 0xDC00 ≤ u && u < 0xE000

/-- The characters that a list of code points and units spells, if every surrogate in it belongs to
a pair and no number is too large for a character. -/
def ofUnits? : List Nat → Option (List Char)
  | [] => some []
  | [u] => if h : u.isValidChar then some [Char.ofNatAux u h] else none
  | u :: v :: us =>
    if isHighSurrogate u && isLowSurrogate v then
      (ofUnits? us).map (Char.ofNat (0x10000 + (u - 0xD800) * 0x400 + (v - 0xDC00)) :: ·)
    else if h : u.isValidChar then (ofUnits? (v :: us)).map (Char.ofNatAux u h :: ·)
    else none

/-- The value of a hexadecimal digit. -/
def hexValue? (c : Char) : Option Nat :=
  if '0' ≤ c && c ≤ '9' then some (c.toNat - '0'.toNat)
  else if 'a' ≤ c && c ≤ 'f' then some (c.toNat - 'a'.toNat + 10)
  else if 'A' ≤ c && c ≤ 'F' then some (c.toNat - 'A'.toNat + 10)
  else none

/-- The number that hexadecimal digits spell. -/
def hexNumber? (cs : List Char) : Option Nat :=
  cs.foldlM (fun n c => (hexValue? c).map (16 * n + ·)) 0

end SchemaDoc.Text
