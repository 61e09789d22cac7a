/-!
# Source text by bytes and lines

Positions in a source file are byte offsets into its UTF-8 form, and lines are counted from one. A
line ends at a line feed, at a carriage return, or at the two of them together; no other character
ends a line.
-/

namespace SchemaDoc.Text

/-! ### Bytes -/

/-- The number of bytes that characters take in UTF-8. -/
def byteLength : List Char → Nat
  | [] => 0
  | c :: cs => c.utf8Size + byteLength cs

/-- The text after its first `n` bytes, if these end between two characters. -/
def dropBytes : Nat → List Char → Option (List Char)
  | 0, cs => some cs
  | _ + 1, [] => none
  | n + 1, c :: cs => if c.utf8Size ≤ n + 1 then dropBytes (n + 1 - c.utf8Size) cs else none

/-- The first `n` bytes of a text, if these end between two characters. -/
def takeBytes : Nat → List Char → Option (List Char)
  | 0, _ => some []
  | _ + 1, [] => none
  | n + 1, c :: cs =>
    if c.utf8Size ≤ n + 1 then (takeBytes (n + 1 - c.utf8Size) cs).map (c :: ·) else none

/-- The text from byte `lo` to byte `hi`, if both lie between two characters and in this order. -/
def slice? (cs : List Char) (lo hi : Nat) : Option (List Char) :=
  if lo ≤ hi then (dropBytes lo cs).bind (takeBytes (hi - lo)) else none

/-! ### Lines -/

/-- The offsets at which the second and the later lines start, for a text that starts at byte
`offset`. -/
def lineStarts (offset : Nat) : List Char → List Nat
  | [] => []
  | '\r' :: '\n' :: cs => (offset + 2) :: lineStarts (offset + 2) cs
  | c :: cs =>
    let next := offset + c.utf8Size
    if c == '\n' || c == '\r' then next :: lineStarts next cs else lineStarts next cs

/-- The line of a byte, given where the lines start. -/
def lineAt (starts : List Nat) (offset : Nat) : Nat :=
  1 + starts.countP (· ≤ offset)

/-- The mark that may stand before a text to say how its bytes are ordered. -/
def byteOrderMark : Char := Char.ofNat 0xFEFF

/-- The text without a leading byte order mark. -/
def dropByteOrderMark : List Char → List Char
  | c :: cs => if c == byteOrderMark then cs else c :: cs
  | [] => []

end SchemaDoc.Text
