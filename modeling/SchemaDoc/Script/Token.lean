import SchemaDoc.Script.Comment
import SchemaDoc.Script.Numeral
import SchemaDoc.Script.Word

/-!
# Tokens

A token is read from a place in the text and knows the place after it. Three things depend on where
a token stands and are decided later, by whoever reads the grammar: a slash may open a regular
expression, a closing brace may continue a template, and several `>` may be one operator or several
closing brackets. So a slash, a backquote and a single `>` are tokens of their own, and the readers
`Token.regex?`, `Token.chunk?` and `Token.joined` go on from there.

Text that is no token is a token of kind `invalid`, which nothing in the grammar accepts.

A name may be written with escapes. One that starts with an escape is a plain name, even if it
spells a keyword; in any other place an escape in a reserved word is a fault.
-/

namespace SchemaDoc.Script

/-- A punctuation mark. -/
inductive Punct where
  | braceOpen | braceClose | parenOpen | parenClose | bracketOpen | bracketClose
  | dot | ellipsis | semicolon | comma | colon | question | arrow | backquote | hash | at
  | less | lessEq | greater | greaterEq | eqEq | notEq | eqEqEq | notEqEq
  | plus | minus | star | slash | percent | starStar | plusPlus | minusMinus
  | shiftLeft | shiftRight | shiftRightZero
  | and | or | xor | not | tilde | andAnd | orOr | nullish
  | assign | plusAssign | minusAssign | starAssign | slashAssign | percentAssign | starStarAssign
  | shiftLeftAssign | shiftRightAssign | shiftRightZeroAssign
  | andAssign | orAssign | xorAssign | andAndAssign | orOrAssign | nullishAssign
deriving DecidableEq, Repr

/-- The marks as they are written, a longer one before a shorter one that it starts with. The marks
that start with `>` are missing but for the shortest: they are only joined where an operator may
stand. -/
def Punct.table : List (List Char × Punct) :=
  [("\x7b", .braceOpen), ("\x7d", .braceClose), ("(", .parenOpen), (")", .parenClose),
    ("[", .bracketOpen), ("]", .bracketClose), (";", .semicolon), (",", .comma), (":", .colon),
    ("...", .ellipsis), (".", .dot), ("\x60", .backquote), ("~", .tilde),
    ("<<=", .shiftLeftAssign), ("<<", .shiftLeft), ("<=", .lessEq), ("<", .less), (">", .greater),
    ("===", .eqEqEq), ("==", .eqEq), ("=>", .arrow), ("=", .assign),
    ("!==", .notEqEq), ("!=", .notEq), ("!", .not),
    ("++", .plusPlus), ("+=", .plusAssign), ("+", .plus),
    ("--", .minusMinus), ("-=", .minusAssign), ("-", .minus),
    ("**=", .starStarAssign), ("**", .starStar), ("*=", .starAssign), ("*", .star),
    ("/=", .slashAssign), ("/", .slash), ("%=", .percentAssign), ("%", .percent),
    ("&&=", .andAndAssign), ("&&", .andAnd), ("&=", .andAssign), ("&", .and),
    ("||=", .orOrAssign), ("||", .orOr), ("|=", .orAssign), ("|", .or),
    ("^=", .xorAssign), ("^", .xor),
    ("??=", .nullishAssign), ("??", .nullish), ("?", .question), ("#", .hash), ("@", .at)].map
    fun (text, p) => (text.toList, p)

/-- What a token is. -/
inductive Kind where
  /-- A name or a keyword; a plain name is no keyword, whatever it spells. -/
  | name (text : String) (plain : Bool)
  /-- A name after `#`. -/
  | privateName
  | punct (p : Punct)
  | numeral (n : Numeral)
  /-- A string; it has no value if its units are no text. -/
  | string (value : Option String)
  /-- The end of the file. -/
  | eof
  /-- Text that is no token, with the offset of what is wrong. -/
  | invalid (fault : Nat)
deriving DecidableEq

/-- How many bytes a token takes at least. -/
def Kind.width : Kind → Nat
  | .punct _ => 1
  | .name text _ => if text = "" then 0 else 1
  | _ => 0

/-- A kind whose fault, if it has one, is counted from an offset. -/
def Kind.shift (o : Nat) : Kind → Kind
  | .invalid fault => .invalid (o + fault)
  | kind => kind

@[simp] theorem Kind.width_shift (o : Nat) (kind : Kind) : (kind.shift o).width = kind.width := by
  cases kind <;> rfl

/-- A token. -/
structure Token where
  kind : Kind
  lo : Nat
  after : Cursor
  /-- Whether a line ends between the token before and this one. -/
  newlineBefore : Bool
  width_le : lo + kind.width ≤ after.offset

namespace Token

/-- Where a token ends. -/
def hi (t : Token) : Nat := t.after.offset

theorem lo_le_hi (t : Token) : t.lo ≤ t.hi := Nat.le_trans (Nat.le_add_right _ _) t.width_le

/-- A token without its place: how many bytes it takes, and the rest after it. The fault of an
invalid one is counted from its start. -/
structure Lexeme where
  kind : Kind
  size : Nat
  rest : List Char

/-- Text that is no token, of which so many characters are taken. -/
def Lexeme.bad (fault taken : Nat) (cs : List Char) : Lexeme :=
  ⟨.invalid fault, Text.byteLength (cs.take taken), cs.drop taken⟩

/-! ### Names -/

/-- The characters of a name. -/
structure NameChars where
  chars : List Char
  /-- The bytes that the name takes. -/
  size : Nat
  rest : List Char
  /-- Whether the name has an escape. -/
  escaped : Bool

/-- The characters of a name, escapes resolved. An escape may spell any character. It fails on a
malformed escape. -/
def nameChars : Nat → List Char → Option NameChars
  | fuel + 1, '\\' :: cs =>
    match cs with
    | 'u' :: cs =>
      (Quoted.unicodeEscape? cs).bind fun (us, rest) =>
        (Text.ofUnits? us).bind fun name =>
          (nameChars fuel rest).map fun n =>
            { n with
              chars := name ++ n.chars
              size := n.size + (cs.length - rest.length) + 2
              escaped := true }
    | _ => none
  | fuel + 1, c :: cs =>
    if Text.isIdentifierPart c then
      (nameChars fuel cs).map fun n => { n with chars := c :: n.chars, size := n.size + c.utf8Size }
    else some ⟨[], 0, c :: cs, false⟩
  | _, cs => some ⟨[], 0, cs, false⟩

/-- A character that may stand in a name or in an escape. -/
def isNamePart (c : Char) : Bool :=
  Text.isIdentifierPart c || c == '\\' || c == '\x7b' || c == '\x7d'

/-- The characters of a name at the front of a text. -/
def nameFront? (cs : List Char) : Option NameChars :=
  nameChars ((cs.takeWhile isNamePart).length + 1) cs

/-- A name at the front of a text that starts one. -/
def name (s : Surroundings) (cs : List Char) : Lexeme :=
  match nameFront? cs with
  | none => .bad 0 1 cs
  | some n =>
    let text := String.ofList n.chars
    let plain := cs.head? == some '\\'
    if n.escaped && !plain && s.reserves text then ⟨.invalid 0, n.size, n.rest⟩
    else ⟨.name text plain, n.size, n.rest⟩

/-! ### Other tokens -/

/-- Whether a name starts at the front of a text. -/
def startsName (cs : List Char) : Bool :=
  match cs with
  | c :: _ => Text.isIdentifierStart c || c == '\\'
  | [] => false

/-- A string at the front of a text, with its opening quote. -/
def string (quote : Char) (cs : List Char) : Lexeme :=
  let e := Quoted.untilQuote quote cs
  match Quoted.stringValue e with
  | .ok s => ⟨.string s, Text.byteLength e.raw + (if e.closed then 2 else 1), e.rest⟩
  | .error o => .bad (o + 1) (e.raw.length + 1) (quote :: cs)

/-- A character that may stand in a numeral. -/
def isNumeralPart (c : Char) : Bool :=
  Text.isAsciiDigit c || Text.isAsciiLetter c || c == '_' || c == '.' || c == '+' || c == '-'

/-- A numeral at the front of a text. A name may not follow it directly, unless the numeral has
another form than most. -/
def numeral (cs : List Char) : Lexeme :=
  let front := cs.takeWhile isNumeralPart
  match Numeral.read front with
  | none => .bad 0 1 cs
  | some r =>
    let size := front.length - r.rest.length
    let rest := cs.drop size
    match rest with
    | c :: _ =>
      if Text.isIdentifierStart c && !r.nameMayFollow then .bad size size cs
      else ⟨.numeral r.value, size, rest⟩
    | [] => ⟨.numeral r.value, size, rest⟩

/-- A mark at the front of a text. -/
def punct (cs : List Char) : Lexeme :=
  match Punct.table.find? fun (text, _) => text.isPrefixOf cs with
  | some (text, p) => ⟨.punct p, text.length, cs.drop text.length⟩
  | none => .bad 0 1 cs

/-- A name after `#`, or the mark alone. -/
def hash (cs : List Char) : Lexeme :=
  if startsName cs then
    match nameFront? cs with
    | some n => ⟨.privateName, n.size + 1, n.rest⟩
    | none => .bad 0 1 ('#' :: cs)
  else ⟨.punct .hash, 1, cs⟩

/-- The token at the front of a text. -/
def lexeme (s : Surroundings) (cs : List Char) : Lexeme :=
  match cs with
  | [] => ⟨.eof, 0, []⟩
  | c :: rest =>
    if startsName cs then name s cs
    else if Text.isAsciiDigit c then numeral cs
    else if c == '.' && (rest.head?.map Text.isAsciiDigit).getD false then numeral cs
    else if c == '"' || c == '\'' then string c rest
    else if c == '#' then hash rest
    else punct cs

/-! ### Widths -/

/-- A name with characters in it takes bytes. -/
theorem nameChars_size {fuel : Nat} {cs : List Char} {n : NameChars}
    (hn : nameChars fuel cs = some n) (hchars : n.chars ≠ []) : 0 < n.size := by
  unfold nameChars at hn
  split at hn
  · split at hn
    · obtain ⟨_, _, hn⟩ := Option.bind_eq_some_iff.1 hn
      obtain ⟨_, _, hn⟩ := Option.bind_eq_some_iff.1 hn
      obtain ⟨m, _, rfl⟩ := Option.map_eq_some_iff.1 hn
      exact Nat.succ_pos _
    · nomatch hn
  · next c _ _ =>
    split at hn
    · obtain ⟨m, _, rfl⟩ := Option.map_eq_some_iff.1 hn
      exact Nat.lt_of_lt_of_le c.utf8Size_pos (Nat.le_add_left _ _)
    · cases hn
      exact absurd rfl hchars
  · cases hn
    exact absurd rfl hchars

theorem width_name_le (s : Surroundings) (cs : List Char) :
    (name s cs).kind.width ≤ (name s cs).size := by
  unfold name
  split
  · exact Nat.zero_le _
  · next n hn =>
    dsimp only
    split
    · exact Nat.zero_le _
    · dsimp only [Kind.width]
      split
      · exact Nat.zero_le _
      · next htext => exact nameChars_size hn fun h => htext (by rw [h])

theorem width_string_le (quote : Char) (cs : List Char) :
    (string quote cs).kind.width ≤ (string quote cs).size := by
  unfold string
  dsimp only
  split <;> exact Nat.zero_le _

theorem width_numeral_le (cs : List Char) : (numeral cs).kind.width ≤ (numeral cs).size := by
  unfold numeral
  dsimp only
  split
  · exact Nat.zero_le _
  · split
    · split <;> exact Nat.zero_le _
    · exact Nat.zero_le _

theorem length_of_mem_table : ∀ row ∈ Punct.table, 1 ≤ row.1.length := by decide

theorem width_punct_le (cs : List Char) : (punct cs).kind.width ≤ (punct cs).size := by
  unfold punct
  split
  · next hfound => exact length_of_mem_table _ (List.mem_of_find?_eq_some hfound)
  · exact Nat.zero_le _

theorem width_hash_le (cs : List Char) : (hash cs).kind.width ≤ (hash cs).size := by
  unfold hash
  split
  · split <;> exact Nat.zero_le _
  · exact Nat.le_refl 1

theorem width_lexeme_le (s : Surroundings) (cs : List Char) :
    (lexeme s cs).kind.width ≤ (lexeme s cs).size := by
  unfold lexeme
  split
  · exact Nat.le_refl 0
  · repeat' split
    · exact width_name_le s _
    · exact width_numeral_le _
    · exact width_numeral_le _
    · exact width_string_le _ _
    · exact width_hash_le _
    · exact width_punct_le _

/-! ### Tokens at a place -/

/-- The token at the end of a gap. -/
def here (s : Surroundings) (gap : Gap) (hgap : gap.start ≤ gap.after.offset) : Token :=
  let l := lexeme s gap.after.rest
  let o := gap.after.offset
  { kind := l.kind.shift o
    lo := gap.start
    after := ⟨l.rest, o + l.size⟩
    newlineBefore := gap.newline
    width_le := by
      rw [Kind.width_shift]
      exact Nat.add_le_add hgap (width_lexeme_le s _) }

/-- The token after a place, and the comments in front of it, last one first. -/
def next (s : Surroundings) (c : Cursor) : Token × List RawComment :=
  (here s (Gap.read c false) (Gap.read_start_le c false), (Gap.read c false).comments)

theorem le_next (s : Surroundings) (c : Cursor) : c.offset ≤ (next s c).1.lo :=
  Gap.le_read_start c false

/-- The first token of a file, and the comments in front of it, last one first. -/
def first (s : Surroundings) (c : Cursor) : Token × List RawComment :=
  (here s (Gap.read c true) (Gap.read_start_le c true), (Gap.read c true).comments)

/-! ### Readings that depend on the grammar -/

/-- The flags of a regular expression at the front of a text. -/
def flags? (cs : List Char) : Option NameChars :=
  if startsName cs then nameFront? cs else some ⟨[], 0, cs, false⟩

/-- The regular expression that a slash opens: its pattern, its flags, and the place after it. -/
def regex? (t : Token) : Option (String × String × Cursor) :=
  let isAssign := t.kind == .punct .slashAssign
  let body := if isAssign then '=' :: t.after.rest else t.after.rest
  let start := if isAssign then t.hi - 1 else t.hi
  (Quoted.untilSlash false body).bind fun (pattern, rest) =>
    (flags? rest).map fun flags =>
      (String.ofList pattern, String.ofList flags.chars,
        ⟨flags.rest, start + Text.byteLength pattern + 1 + flags.size⟩)

/-- The template piece after a backquote or a closing brace: its raw text, whether the template
ends there, and the place after it. -/
def chunk? (t : Token) : Option (List Char × Bool × Cursor) :=
  (Quoted.untilSubstitution t.after.rest).map fun (raw, last, rest) =>
    (raw, last, ⟨rest, t.hi + Text.byteLength raw + (if last then 1 else 2)⟩)

/-- The mark that a `>` is together with the text directly after it, and how much of that text
belongs to it. -/
def joinedMark : List Char → Punct × Nat
  | '>' :: '>' :: '=' :: _ => (.shiftRightZeroAssign, 3)
  | '>' :: '>' :: _ => (.shiftRightZero, 2)
  | '>' :: '=' :: _ => (.shiftRightAssign, 2)
  | '>' :: _ => (.shiftRight, 1)
  | '=' :: _ => (.greaterEq, 1)
  | _ => (.greater, 0)

/-- The token that a `>` is together with the `>` and `=` directly after it. -/
def joined (t : Token) : Token :=
  if h : t.kind = .punct .greater then
    let (p, n) := joinedMark t.after.rest
    { t with
      kind := .punct p
      after := ⟨t.after.rest.drop n, t.hi + n⟩
      width_le := by
        have hwidth := t.width_le
        rw [h] at hwidth
        exact Nat.le_trans hwidth (Nat.le_add_right _ _) }
  else t

@[simp] theorem joined_lo (t : Token) : t.joined.lo = t.lo := by
  unfold joined
  split <;> rfl

end Token

end SchemaDoc.Script
