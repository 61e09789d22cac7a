import SchemaDoc.Script.Token
import SchemaDoc.Script.Tree

/-!
# Parsers

A parser reads tokens one at a time. Its state is the next token, already read, and where the token
before it ended; the comments in front of the tokens are collected on the way.

A parser that fails keeps its state: it stops at the token that does not fit. That is what makes it
possible to go on from there (`recover`). Trying something and going back if it does not work out
(`attempt`) is reserved for the few places where a single token does not tell.
-/

namespace SchemaDoc.Script

/-- The extensions of the language that a file is written in. -/
structure Language where
  /-- Type annotations. -/
  types : Bool
  /-- Markup elements as expressions. -/
  markup : Bool
deriving DecidableEq, Repr

/-- What a parser knows of the text around it. -/
structure Context where
  language : Language
  /-- A bound on the number of steps of every loop: each of them takes a token. -/
  limit : Nat
  surroundings : Surroundings
  /-- Whether `in` is an operator here. -/
  inAllowed : Bool
  /-- Whether this is inside the parameters of a function, and not inside another body there. -/
  inParameters : Bool
  /-- Whether `super` has properties here. -/
  superAllowed : Bool
  /-- Whether a declaration only gives types. -/
  ambient : Bool
  /-- Whether this is inside the head of a loop. -/
  inLoopHead : Bool
  /-- Whether this is one of the two results of a conditional expression. -/
  inConditional : Bool
  /-- Whether a colon has to follow that belongs to a conditional expression. -/
  colonExpected : Bool
  /-- Whether a type may be a conditional one here. -/
  conditionalTypes : Bool
  /-- The offset at which an arrow function may start. -/
  arrowAt : Option Nat

/-- Where a parser stands. -/
structure State where
  /-- The next token. -/
  token : Token
  /-- The end of the token before. -/
  last : Nat
  /-- The comments before the next token, last one first. -/
  comments : List RawComment
  last_le : last ≤ token.lo

namespace State

/-- A state is at or before another one if that one has read as much of the text. -/
instance : LE State := ⟨fun s t => s.last ≤ t.last ∧ s.token.lo ≤ t.token.lo⟩

theorem le_refl (s : State) : s ≤ s := ⟨Nat.le_refl _, Nat.le_refl _⟩

theorem le_trans {s t u : State} (hst : s ≤ t) (htu : t ≤ u) : s ≤ u :=
  ⟨Nat.le_trans hst.1 htu.1, Nat.le_trans hst.2 htu.2⟩

/-- The state at another place. -/
def moved (c : Context) (place : Cursor) (s : State) : State :=
  { token := (Token.next c.surroundings place).1
    last := place.offset
    comments := (Token.next c.surroundings place).2 ++ s.comments
    last_le := Token.le_next _ _ }

theorem le_moved {c : Context} {place : Cursor} {s : State} (h : s.token.lo ≤ place.offset) :
    s ≤ moved c place s :=
  ⟨Nat.le_trans s.last_le h, Nat.le_trans h (Token.le_next _ _)⟩

/-- The state after the next token. -/
def advanced (c : Context) (s : State) : State := moved c s.token.after s

theorem le_advanced (c : Context) (s : State) : s ≤ s.advanced c := le_moved s.token.lo_le_hi

end State

/-- Why a parser fails: a stretch of the text that does not fit, or no fuel. -/
inductive Failure where
  | unexpected (span : Span)
  | exhausted

/-- How a run of a parser ends. -/
inductive Outcome (α : Type) where
  | ok (a : α) (s : State)
  | error (failure : Failure) (s : State)

/-- The state in which a run ends. -/
def Outcome.state {α : Type} : Outcome α → State
  | .ok _ s => s
  | .error _ s => s

/-- A parser. It never goes back behind the token that it starts at. -/
structure Parser (α : Type) where
  run : Context → State → Outcome α
  forward : ∀ c s, s ≤ (run c s).state

namespace Parser

variable {α β σ : Type}

/-- Reads off something without taking a token. -/
@[inline] def look (f : Context → State → α) : Parser α :=
  ⟨fun c s => .ok (f c s) s, fun _ s => s.le_refl⟩

/-- One parser after another. -/
@[inline] protected def bind (p : Parser α) (f : α → Parser β) : Parser β where
  run c s :=
    match p.run c s with
    | .ok a s => (f a).run c s
    | .error failure s => .error failure s
  forward c s := by
    have hp := p.forward c s
    split
    · next a s' hrun =>
      rw [hrun] at hp
      exact State.le_trans hp ((f a).forward c s')
    · next hrun =>
      rw [hrun] at hp
      exact hp

@[always_inline] instance : Monad Parser where
  pure a := look fun _ _ => a
  bind := Parser.bind

@[always_inline] instance : MonadReaderOf Context Parser where
  read := look fun c _ => c

@[always_inline] instance : MonadWithReaderOf Context Parser where
  withReader f p := ⟨fun c s => p.run (f c) s, fun c s => p.forward (f c) s⟩

/-! ### Tokens -/

/-- The next token. -/
def peek : Parser Token := look fun _ s => s.token

/-- What the next token is. -/
def kind : Parser Kind := look fun _ s => s.token.kind

/-- The start of the next token. -/
def position : Parser Nat := look fun _ s => s.token.lo

/-- Whether a line ends before the next token. -/
def newlineBefore : Parser Bool := look fun _ s => s.token.newlineBefore

/-- The token after the next one. -/
def second : Parser Token := look fun c s => (Token.next c.surroundings s.token.after).1

/-- The two tokens after the next one. -/
def secondAndThird : Parser (Token × Token) := look fun c s =>
  let second := (Token.next c.surroundings s.token.after).1
  (second, (Token.next c.surroundings second.after).1)

/-- Goes on from a place that is not before the next token. -/
def moveTo (place : Cursor) : Parser Unit where
  run c s :=
    if s.token.lo ≤ place.offset then .ok () (s.moved c place)
    else .error (.unexpected ⟨place.offset, s.token.lo⟩) s
  forward c s := by
    split
    · next h => exact State.le_moved h
    · exact s.le_refl

/-- Takes the next token. -/
def advance : Parser Unit := ⟨fun c s => .ok () (s.advanced c), fun c s => s.le_advanced c⟩

/-- The stretch from an offset to the end of the token taken last. -/
def spanFrom (lo : Nat) : Parser Span := look fun _ s => .upTo lo s.last

/-- The end of the token taken last. -/
def lastEnd : Parser Nat := look fun _ s => s.last

/-- Whether a file is written with type annotations. -/
def hasTypes : Parser Bool := look fun c _ => c.language.types

/-! ### Failure -/

/-- Fails at a stretch of the text. A token that is none is taken at the same time. -/
def failAt (span : Span) : Parser α where
  run c s :=
    match s.token.kind with
    | .invalid fault => .error (.unexpected ⟨fault, fault⟩) (s.advanced c)
    | _ => .error (.unexpected span) s
  forward c s := by
    split
    · exact s.le_advanced c
    · exact s.le_refl

/-- Fails at the next token. -/
def fail : Parser α := do
  let t := (← peek).joined
  failAt ⟨t.lo, t.hi⟩

/-- Fails at the next token because it starts something that has no end. What follows is no token
then. -/
def unfinished : Parser α where
  run _ s :=
    let lo := s.token.lo
    .error (.unexpected ⟨lo, lo⟩)
      { s with token := { s.token with kind := .invalid lo, width_le := s.token.lo_le_hi } }
  forward _ _ := ⟨Nat.le_refl _, Nat.le_refl _⟩

/-- Fails because a bound is reached. -/
def exhausted : Parser α := ⟨fun _ s => .error .exhausted s, fun _ s => s.le_refl⟩

/-- What a reading that may be at fault gives. -/
def ofExcept (r : Except Span α) : Parser α :=
  match r with
  | .ok a => pure a
  | .error span => failAt span

/-- Runs a parser. If it fails, the result is the stretch where it failed, and reading goes on from
where it stopped. -/
def recover (p : Parser α) : Parser (Except Span α) where
  run c s :=
    match p.run c s with
    | .ok a s => .ok (.ok a) s
    | .error (.unexpected span) s => .ok (.error span) s
    | .error .exhausted s => .error .exhausted s
  forward c s := by
    have hp := p.forward c s
    split <;> (next hrun => rw [hrun] at hp; exact hp)

/-- Tries a parser; nothing happens if it fails or has no result. -/
def attempt (p : Parser (Option α)) : Parser (Option α) where
  run c s :=
    match p.run c s with
    | .ok (some a) s => .ok (some a) s
    | .ok none _ => .ok none s
    | .error (.unexpected _) _ => .ok none s
    | .error .exhausted s => .error .exhausted s
  forward c s := by
    have hp := p.forward c s
    split
    · next hrun => rw [hrun] at hp; exact hp
    · exact s.le_refl
    · exact s.le_refl
    · next hrun => rw [hrun] at hp; exact hp

/-- What a parser says about the text that follows. Nothing is read; failure means no. -/
def ahead (p : Parser Bool) : Parser Bool where
  run c s :=
    match p.run c s with
    | .ok b _ => .ok b s
    | .error (.unexpected _) _ => .ok false s
    | .error .exhausted s => .error .exhausted s
  forward c s := by
    have hp := p.forward c s
    split
    · exact s.le_refl
    · exact s.le_refl
    · next hrun => rw [hrun] at hp; exact hp

/-! ### Loops -/

/-- Repeats a step until it gives a result, a bounded number of times. -/
def loop (step : σ → Parser (σ ⊕ β)) : Nat → σ → Parser β
  | 0, _ => exhausted
  | n + 1, s => do
    match ← step s with
    | .inl s => loop step n s
    | .inr b => pure b

/-- Repeats a step that takes a token until it gives a result. -/
def iterate (init : σ) (step : σ → Parser (σ ⊕ β)) : Parser β := do
  loop step (← read).limit init

/-! ### Marks and words -/

/-- Whether the next token is a mark. -/
def isPunct (p : Punct) : Parser Bool := look fun _ s => s.token.kind == .punct p

/-- Whether the next token is one of several marks. -/
def isAnyPunct (ps : List Punct) : Parser Bool := look fun _ s =>
  match s.token.kind with
  | .punct p => ps.contains p
  | _ => false

/-- Whether the next token is a word. -/
def isWord (w : String) : Parser Bool := look fun _ s => s.token.kind == .name w false

/-- Whether the next token is one of several words. -/
def isAnyWord (ws : List String) : Parser Bool := look fun _ s =>
  match s.token.kind with
  | .name w false => ws.contains w
  | _ => false

/-- Takes a mark if it comes next. -/
def accept (p : Punct) : Parser Bool := do
  if ← isPunct p then advance; return true else return false

/-- Takes one of several marks if it comes next. -/
def acceptAny (ps : List Punct) : Parser Bool := do
  if ← isAnyPunct ps then advance; return true else return false

/-- Takes a word if it comes next. -/
def acceptWord (w : String) : Parser Bool := do
  if ← isWord w then advance; return true else return false

/-- Takes a mark that has to come next. -/
def expect (p : Punct) : Parser Unit := do
  if ← isPunct p then advance else fail

/-- Takes a word that has to come next. -/
def expectWord (w : String) : Parser Unit := do
  if ← isWord w then advance else fail

/-- Whether a statement may end before a token. -/
def endsStatement (t : Token) : Bool :=
  t.kind == .punct .semicolon || t.kind == .punct .braceClose || t.kind == .eof || t.newlineBefore

/-- Whether a statement may end here: at a semicolon, or where it may be left out. -/
def atEnd : Parser Bool := look fun _ s => endsStatement s.token

/-- Takes the end of a statement, if it is here. -/
def acceptEnd : Parser Bool := do
  if ← accept .semicolon then return true else atEnd

/-- Takes the end of a statement. -/
def semicolon : Parser Unit := do
  if ← acceptEnd then return else fail

/-! ### Contexts -/

/-- Runs a parser in other surroundings. -/
def withSurroundings (f : Surroundings → Surroundings) (p : Parser α) : Parser α :=
  withReader (fun c => { c with surroundings := f c.surroundings }) p

/-- Runs a parser in strict code. -/
def inStrictCode (p : Parser α) : Parser α := withSurroundings ({ · with strict := true }) p

/-- Runs a parser where `in` is an operator. -/
def allowingIn (p : Parser α) : Parser α := withReader ({ · with inAllowed := true }) p

/-- Runs a parser where `in` is no operator. -/
def forbiddingIn (p : Parser α) : Parser α := withReader ({ · with inAllowed := false }) p

/-- Runs a parser where no colon is expected. -/
def withoutColon (p : Parser α) : Parser α := withReader ({ · with colonExpected := false }) p

/-- Runs a parser between brackets, where nothing outside them matters. -/
def insideBrackets (p : Parser α) : Parser α :=
  withReader ({ · with inAllowed := true, colonExpected := false, conditionalTypes := true }) p

/-- Runs a parser where types may be conditional ones, or where they may not. -/
def withConditionalTypes (allowed : Bool) (p : Parser α) : Parser α :=
  withReader ({ · with conditionalTypes := allowed }) p

/-- Items with commas between them and perhaps after them, up to a closing mark, which is taken. -/
def commaList (close : Punct) (item : Parser α) : Parser (List α) :=
  iterate [] fun done => do
    if ← accept close then return .inr done.reverse
    let done := (← item) :: done
    if ← accept .comma then return .inl done
    expect close
    return .inr done.reverse

/-! ### Names -/

/-- Whether a token may be used as a name here. -/
def isName (t : Token) : Parser Bool := do
  match t.kind with
  | .name w plain => return plain || !(← read).surroundings.reserves w
  | _ => return false

/-- Whether a name comes next. -/
def atName : Parser Bool := do isName (← peek)

/-- Whether a token is a word of any kind. -/
def isAnyName (t : Token) : Bool :=
  match t.kind with
  | .name _ _ => true
  | _ => false

/-- A name or any other word. -/
def word : Parser String := do
  match ← kind with
  | .name w _ => advance; return w
  | _ => fail

/-- Whether a word that has been taken cannot be the name of something. Words that are only reserved
in strict code can, and with types `this` can too. -/
def refusesName (c : Context) (w : String) : Bool :=
  if w == "await" then
    !c.ambient && (c.surroundings.isModule || c.surroundings.inAsync || c.surroundings.inStaticBlock)
  else if w == "this" then !c.language.types
  else w != "enum" && reservedWords.contains w

/-- The name of something that is declared. -/
def name : Parser String := do
  let t ← peek
  match t.kind with
  | .name w plain =>
    advance
    if !plain && refusesName (← read) w then failAt ⟨t.lo, t.hi⟩
    return w
  | _ => fail

/-- The name of something with a lexical scope, which is not `let`. -/
def lexicalName : Parser String := do
  if ← isWord "let" then fail
  name

/-- The name of a function or a class, if one comes next. -/
def name? (reader : Parser String) : Parser (Option String) := do
  if (← atName) || ((← hasTypes) && (← isWord "this")) then return some (← reader) else return none

end Parser

end SchemaDoc.Script
