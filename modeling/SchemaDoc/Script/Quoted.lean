import SchemaDoc.Text.Class
import SchemaDoc.Text.Source
import SchemaDoc.Text.Unit

/-!
# Quoted text of scripts

Strings, templates and regular expressions are read in two steps: first how far they reach, which
only has to know that a backslash takes the next character with it, then what their escapes spell.
Escapes name 16-bit units, so what is between quotes is a list of units and need not be a text.

A string may end without its closing quote, at the end of its line or of the file. Then only the
text behind its last escape counts.
-/

namespace SchemaDoc.Script

/-- A character that ends a line. -/
def isLineEnd (c : Char) : Bool :=
  c == '\n' || c == '\r' || c.toNat == 0x2028 || c.toNat == 0x2029

namespace Quoted

/-! ### Extents -/

/-- How far quoted text reaches: what stands inside, whether the closing mark is there, and the rest
after it. -/
structure Extent where
  raw : List Char
  closed : Bool
  rest : List Char

/-- An extent with more text in front. -/
def Extent.push (cs : List Char) (e : Extent) : Extent := { e with raw := cs ++ e.raw }

/-- The extent of a string after its opening quote. A line end is no part of a string unless a
backslash stands before it; the two line separators beyond ASCII are. -/
def untilQuote (quote : Char) : List Char → Extent
  | [] => ⟨[], false, []⟩
  | ['\\'] => ⟨['\\'], false, []⟩
  | '\\' :: '\r' :: '\n' :: cs => (untilQuote quote cs).push ['\\', '\r', '\n']
  | '\\' :: c :: cs => (untilQuote quote cs).push ['\\', c]
  | c :: cs =>
    if c == quote then ⟨[], true, cs⟩
    else if c == '\n' || c == '\r' then ⟨[], false, c :: cs⟩
    else (untilQuote quote cs).push [c]

/-- A piece of a template: its raw text, whether the template ends after it, and the rest after the
closing mark or the opening of a substitution. -/
def untilSubstitution : List Char → Option (List Char × Bool × List Char)
  | [] => none
  | '\x60' :: cs => some ([], true, cs)
  | '$' :: '\x7b' :: cs => some ([], false, cs)
  | '\\' :: c :: cs =>
    (untilSubstitution cs).map fun (raw, last, rest) => ('\\' :: c :: raw, last, rest)
  | c :: cs => (untilSubstitution cs).map fun (raw, last, rest) => (c :: raw, last, rest)

/-- The pattern of a regular expression after its opening slash, and the rest after the closing
one. A slash between brackets does not close it. -/
def untilSlash : Bool → List Char → Option (List Char × List Char)
  | _, [] => none
  | inClass, '\\' :: c :: cs =>
    if isLineEnd c then none
    else (untilSlash inClass cs).map fun (raw, rest) => ('\\' :: c :: raw, rest)
  | inClass, c :: cs =>
    if isLineEnd c then none
    else if c == '/' && !inClass then some ([], cs)
    else
      (untilSlash (if c == '[' then true else if c == ']' then false else inClass) cs).map
        fun (raw, rest) => (c :: raw, rest)

/-! ### Escapes -/

/-- The character that a letter after a backslash stands for. -/
def letterEscape (c : Char) : Char :=
  if c == 'n' then '\n'
  else if c == 't' then '\t'
  else if c == 'r' then '\r'
  else if c == 'b' then Char.ofNat 8
  else if c == 'f' then Char.ofNat 12
  else if c == 'v' then Char.ofNat 11
  else c

/-- An octal digit. -/
def isOctal (c : Char) : Bool := '0' ≤ c && c ≤ '7'

/-- The digits of an octal escape: up to three of them, together below 256. -/
def octalDigits (cs : List Char) : List Char :=
  let limit := match cs with
    | c :: _ => if c ≤ '3' then 3 else 2
    | [] => 0
  (cs.take limit).takeWhile isOctal

/-- Whether the digit after a backslash opens an octal escape. A single zero does not. -/
def opensOctal (c : Char) (cs : List Char) : Bool :=
  c != '0' || (cs.head?.map isOctal).getD false

/-- A number of so many hexadecimal digits, and the rest after it. Underscores between the digits
do not count. -/
def hexDigits? : Nat → Nat → List Char → Option (Nat × List Char)
  | 0, n, cs => some (n, cs)
  | _ + 1, _, [] => none
  | count + 1, n, c :: cs =>
    if c == '_' then hexDigits? (count + 1) n cs
    else (Text.hexValue? c).bind fun v => hexDigits? count (16 * n + v) cs

/-- A hexadecimal digit, or an underscore. -/
def isHexPart (c : Char) : Bool := c == '_' || (Text.hexValue? c).isSome

/-- A code point and a closing brace, and the rest after it. -/
def bracedCode? (cs : List Char) : Option (Nat × List Char) :=
  let digits := (cs.takeWhile isHexPart).filter (· != '_')
  match cs.dropWhile isHexPart with
  | '\x7d' :: rest =>
    if digits.isEmpty then none
    else (Text.hexNumber? digits).bind fun n => if n ≤ 0x10FFFF then some (n, rest) else none
  | _ => none

/-- The units of an escape after `\u`, and the rest after it. If four digits open a pair and another
such escape follows, it has four digits too, and both are read together. -/
def unicodeEscape? : List Char → Option (List Nat × List Char)
  | '\x7b' :: cs => (bracedCode? cs).map fun (n, rest) => ([n], rest)
  | cs =>
    (hexDigits? 4 0 cs).bind fun (n, rest) =>
      match Text.isHighSurrogate n, rest with
      | true, '\\' :: 'u' :: more => (hexDigits? 4 0 more).map fun (m, rest) => ([n, m], rest)
      | _, _ => some ([n], rest)

/-- The units that one escape spells, and the rest after it. A line end after a backslash spells
nothing. Templates have no octal escapes. -/
def escape? (template : Bool) : List Char → Option (List Nat × List Char)
  | [] => none
  | '\r' :: '\n' :: cs => some ([], cs)
  | c :: cs =>
    if c == 'u' then unicodeEscape? cs
    else if c == 'x' then (hexDigits? 2 0 cs).map fun (n, rest) => ([n], rest)
    else if isLineEnd c then some ([], cs)
    else if isOctal c then
      if template && opensOctal c cs then none
      else
        let digits := octalDigits (c :: cs)
        let value := digits.foldl (fun n d => 8 * n + (d.toNat - '0'.toNat)) 0
        some ([value], (c :: cs).drop digits.length)
    else some ([(letterEscape c).toNat], cs)

/-- What raw text spells: the units up to its last escape, if it has one, and the plain text behind
it. -/
structure Spelling where
  escaped : Option (List Nat)
  plain : List Nat

namespace Spelling

/-- Nothing. -/
def empty : Spelling := ⟨none, []⟩

/-- A spelling with a plain character in front. -/
def pushPlain (u : Nat) (s : Spelling) : Spelling :=
  match s.escaped with
  | some us => { s with escaped := some (u :: us) }
  | none => { s with plain := u :: s.plain }

/-- A spelling with an escape in front. -/
def pushEscape (us : List Nat) (s : Spelling) : Spelling :=
  { s with escaped := some (us ++ s.escaped.getD []) }

/-- All units. -/
def units (s : Spelling) : List Nat := s.escaped.getD [] ++ s.plain

end Spelling

/-- What raw text spells. It fails with the number of bytes before an escape that is malformed. A
template has a line feed for each line end of the ASCII block. -/
def spell (template : Bool) : Nat → Nat → List Char → Except Nat Spelling
  | _, _, [] => .ok .empty
  | 0, o, _ :: _ => .error o
  | fuel + 1, o, c :: cs =>
    if c == '\\' then
      match escape? template cs with
      | none => .error o
      | some (us, rest) =>
        let taken := cs.take (cs.length - rest.length)
        (spell template fuel (o + 1 + Text.byteLength taken) rest).map (·.pushEscape us)
    else if template && c == '\r' then
      if cs.head? == some '\n' then spell template fuel (o + 1) cs
      else (spell template fuel (o + 1) cs).map (·.pushPlain 10)
    else (spell template fuel (o + c.utf8Size) cs).map (·.pushPlain c.toNat)

/-- The text of a string; a value of `none` means that its units are no text. -/
def stringValue (e : Extent) : Except Nat (Option String) :=
  (spell false e.raw.length 0 e.raw).map fun s =>
    (Text.ofUnits? (if e.closed then s.units else s.plain)).map String.ofList

/-- The text of a template piece: what it spells, or its raw text where the units are no text. It
fails with the number of bytes before an escape that is malformed. -/
def chunkText (raw : List Char) : Except Nat String :=
  (spell true raw.length 0 raw).map fun s =>
    match Text.ofUnits? s.units with
    | some cs => String.ofList cs
    | none => String.ofList raw

end Quoted

end SchemaDoc.Script
