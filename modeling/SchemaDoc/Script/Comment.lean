import SchemaDoc.Script.Quoted

/-!
# Gaps between tokens

Between two tokens stand blanks, line ends and comments. A gap is walked character by character;
what is remembered of it are its comments and whether a line ended in it, which is where a
semicolon may be left out.

Besides the two usual kinds, the rest of a line is a comment after `<!--`, after a `-->` that is the
first mark of its line, and after the marks that a merge leaves at the start of a line. Unlike the
usual ones these count as the beginning of the token that follows them.
-/

namespace SchemaDoc.Script

/-- The two ways to write a comment. -/
inductive CommentKind where
  | line
  | block
deriving DecidableEq, Repr

/-- A comment as it stands in a file: its text without delimiters, and where it starts. -/
structure RawComment where
  kind : CommentKind
  text : String
  pos : Nat
deriving DecidableEq, Repr

/-- A place in a text: what follows, and how many bytes came before. -/
structure Cursor where
  rest : List Char
  offset : Nat

/-- A gap: its comments, last one first, whether a line ends in it, where the token behind it counts
as started, and where the gap ends. A comment that is never closed reaches to the end of the text
and does not count. -/
structure Gap where
  comments : List RawComment
  newline : Bool
  start : Nat
  after : Cursor

namespace Gap

/-- A blank character. -/
def isBlank (c : Char) : Bool :=
  let n := c.toNat
  n == 0x9 || n == 0xB || n == 0xC || n == 0x20 || n == 0x85 || n == 0xA0 || n == 0x1680 ||
    (0x2000 ≤ n && n ≤ 0x200B) || n == 0x202F || n == 0x205F || n == 0x3000 || n == 0xFEFF

/-- A mark that makes a comment of the rest of its line: how it is written, whether it has to stand
at the start of the line, how many bytes of it come before the comment, and how many characters of
it stand before the comment's text. -/
structure LineMark where
  text : List Char
  atLineStart : Bool
  before : Nat
  size : Nat

/-- The marks that make a comment of the rest of their line. -/
def lineMarks : List LineMark :=
  [⟨"<!--".toList, false, 1, 4⟩, ⟨"-->".toList, true, 3, 3⟩, ⟨"<<<<<<< ".toList, true, 2, 7⟩,
    ⟨"=======".toList, true, 3, 7⟩, ⟨">>>>>>> ".toList, true, 3, 7⟩]

/-- The mark at the front of a text, if the rest of the line is a comment. -/
def lineMark? (atLineStart : Bool) (cs : List Char) : Option LineMark :=
  lineMarks.find? fun mark => (atLineStart || !mark.atLineStart) && mark.text.isPrefixOf cs

/-- What is being walked through: blanks, a comment with its start and its text so far, last
character first, or the remaining characters of a mark before a comment. -/
inductive Mode where
  | blank
  | line (start : Nat) (text : List Char)
  | block (start : Nat) (text : List Char)
  | mark (start : Nat) (size : Nat)

/-- Adds a finished comment. -/
def push (kind : CommentKind) (start : Nat) (text : List Char) (done : List RawComment) :
    List RawComment :=
  { kind, text := String.ofList text.reverse, pos := start } :: done

/-- The gap that ends at an offset. -/
def close (first : Option Nat) (nl : Bool) (done : List RawComment) (cs : List Char) (o : Nat) :
    Gap :=
  { comments := done, newline := nl, start := first.getD o, after := ⟨cs, o⟩ }

/-- Walks through a gap from the middle of it. -/
def walk : Mode → Nat → Option Nat → Bool → List RawComment → List Char → Gap
  | .line start text, o, first, nl, done, [] => close first nl (push .line start text done) [] o
  | _, o, first, nl, done, [] => close first nl done [] o
  | .blank, o, first, nl, done, '/' :: '/' :: cs => walk (.line o []) (o + 2) first nl done cs
  | .blank, o, first, nl, done, '/' :: '*' :: cs => walk (.block o []) (o + 2) first nl done cs
  | .blank, o, first, nl, done, c :: cs =>
    if isLineEnd c then walk .blank (o + c.utf8Size) first true done cs
    else if isBlank c then walk .blank (o + c.utf8Size) first nl done cs
    else
      match lineMark? nl (c :: cs) with
      | some mark =>
        walk (.mark (o + mark.before) (mark.size - 1)) (o + c.utf8Size) (some (first.getD o)) nl
          done cs
      | none => close first nl done (c :: cs) o
  | .line start text, o, first, nl, done, c :: cs =>
    if isLineEnd c then walk .blank (o + c.utf8Size) first true (push .line start text done) cs
    else walk (.line start (c :: text)) (o + c.utf8Size) first nl done cs
  | .block start text, o, first, nl, done, '*' :: '/' :: cs =>
    walk .blank (o + 2) first nl (push .block start text done) cs
  | .block start text, o, first, nl, done, c :: cs =>
    walk (.block start (c :: text)) (o + c.utf8Size) first (nl || isLineEnd c) done cs
  | .mark start size, o, first, nl, done, c :: cs =>
    walk (if size ≤ 1 then .line start [] else .mark start (size - 1)) (o + c.utf8Size) first nl
      done cs

/-- The gap at a place, which may be the start of a line. -/
def read (place : Cursor) (atLineStart : Bool) : Gap :=
  walk .blank place.offset none atLineStart [] place.rest

/-! ### Bounds -/

/-- The start of the token stays where it was found, or moves on with the walk. -/
theorem getD_bounds {lo o : Nat} {first : Option Nat} (k : Nat)
    (h : lo ≤ first.getD o ∧ first.getD o ≤ o) :
    lo ≤ first.getD (o + k) ∧ first.getD (o + k) ≤ o + k := by
  cases first with
  | none => exact ⟨Nat.le_trans h.1 (Nat.le_add_right o k), Nat.le_refl _⟩
  | some n => exact ⟨h.1, Nat.le_trans h.2 (Nat.le_add_right o k)⟩

theorem walk_bounds (lo : Nat) (mode : Mode) (o : Nat) (first : Option Nat) (nl : Bool)
    (done : List RawComment) (cs : List Char) (h : lo ≤ first.getD o ∧ first.getD o ≤ o) :
    lo ≤ (walk mode o first nl done cs).start ∧
      (walk mode o first nl done cs).start ≤ (walk mode o first nl done cs).after.offset := by
  fun_induction walk mode o first nl done cs with
  | case1 | case2 | case8 => exact h
  -- A mark counts as the beginning of the token, unless one was found before it.
  | case7 o first nl done c cs _ _ _ _ mark _ ih => exact ih (getD_bounds _ (by simpa using h))
  | case3 | case4 | case5 | case6 | case9 | case10 | case11 | case12 | case13 =>
    rename_i ih
    exact ih (getD_bounds _ h)

/-- The token behind a gap does not start before the gap. -/
theorem le_read_start (place : Cursor) (atLineStart : Bool) :
    place.offset ≤ (read place atLineStart).start :=
  (walk_bounds place.offset _ _ _ _ _ _ ⟨Nat.le_refl _, Nat.le_refl _⟩).1

/-- The token behind a gap does not start behind the gap's end. -/
theorem read_start_le (place : Cursor) (atLineStart : Bool) :
    (read place atLineStart).start ≤ (read place atLineStart).after.offset :=
  (walk_bounds place.offset _ _ _ _ _ _ ⟨Nat.le_refl _, Nat.le_refl _⟩).2

end Gap

end SchemaDoc.Script
