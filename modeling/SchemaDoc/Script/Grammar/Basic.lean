import SchemaDoc.Script.Parser
import SchemaDoc.Script.Cover

/-!
# The rules of the grammar

The grammar refers to itself in a dozen places. Each of them is a `Rule`, named with what it reads,
and a `Grammar` says how every rule is read. The modules of this folder define the bodies of the
rules over an arbitrary grammar for the places where they refer back; the knot is tied once, with
fuel, where all bodies are known.
-/

namespace SchemaDoc.Script

/-- The rules that the grammar refers back to, by what they read. -/
inductive Rule : Type → Type where
  /-- An expression without commas outside brackets. -/
  | assign : Rule Expr
  /-- The operators behind an operand that bind more tightly than a level, with their operands. -/
  | operators (left : Expr) (level : Nat) : Rule Expr
  /-- An operand with the operators in front of it and behind it. -/
  | unary : Rule Expr
  /-- An operand with the properties read from it, or a construction with `new`. -/
  | construct : Rule Expr
  /-- The left-hand side of a declaration, without a type. A name with a lexical scope is not
  `let`. -/
  | target (lexical : Bool) : Rule Pattern
  /-- The parameters of a function, up to the closing parenthesis. -/
  | params : Rule (List Param)
  /-- A statement, which may be a declaration or may not. -/
  | statement (declares : Bool) : Rule Statement
  /-- Statements between braces, of which the first may be a directive. -/
  | block (directive : Bool) : Rule (List Statement)
  /-- A class after its word, by its references. A declared one has a name. -/
  | classRest (named : Bool) : Rule References
  /-- Top-level items between braces. -/
  | itemBlock : Rule References
  /-- A markup element, up to its last mark, which is not taken. -/
  | element : Rule References
  /-- A type. -/
  | type : Rule References
  /-- A type that is not a conditional one. -/
  | plainType : Rule References
  /-- A type without unions and arrows outside brackets. -/
  | operandType : Rule References

/-- A way to read the rules. -/
abbrev Grammar := ∀ {α : Type}, Rule α → Parser α

namespace Grammar

open SchemaDoc.Script.Parser

/-- Expressions separated by commas. A single one is itself. -/
def expression (g : Grammar) : Parser Expr := do
  let first ← g .assign
  if !(← isPunct .comma) then return first
  iterate first.references fun refs => do
    if ← accept .comma then
      let e ← g .assign
      return .inl (refs ++ e.references)
    else return .inr (.other (← spanFrom first.span.lo) .sequence refs)

/-- The text of the template piece that starts with the next token, whether the template ends with
it, and the place after it. Escapes in a tagged template need not be well formed. -/
def chunk (tagged : Bool) : Parser (String × Bool × Cursor) := do
  let t ← peek
  match t.chunk? with
  | none => failAt ⟨t.lo, t.hi⟩
  | some (raw, isLast, place) =>
    match Quoted.chunkText raw with
    | .ok text => return (text, isLast, place)
    | .error o =>
      if tagged then return (String.ofList raw, isLast, place)
      failAt ⟨t.hi + o, t.hi + o⟩

/-- Whether a word in front of something is a modifier: what it belongs to follows on the same
line. -/
def isModified (t : Token) : Bool :=
  !t.newlineBefore && match t.kind with
    | .name _ _ | .string _ | .numeral _ | .privateName => true
    | .punct p => [.bracketOpen, .braceOpen, .star, .ellipsis, .hash].contains p
    | _ => false

/-- Takes one of several words if it is a modifier of what follows. -/
def modifier? (words : List String) : Parser (Option String) := do
  match ← kind with
  | .name w false =>
    if !words.contains w || !(← hasTypes) then return none
    if !isModified (← second) then return none
    advance
    return some w
  | _ => return none

/-- Takes a word that says who may use what follows. The result is whether there is one; the words
for the direction of a type parameter are taken too but say nothing. -/
def acceptAccess : Parser Bool := do
  match ← modifier? ["public", "protected", "private", "in", "out"] with
  | some w => return w != "in" && w != "out"
  | none => return false

/-- Takes a word in front of a parameter or a key, if it is there only to say how that may be
used. -/
def acceptVisibility : Parser Unit := do
  if (← hasTypes) && (← isAnyWord ["public", "protected", "private", "readonly"]) then
    match (← second).kind with
    | .name _ _ | .punct .braceOpen | .punct .bracketOpen =>
      let _ ← modifier? ["public", "protected", "private", "readonly"]
    | _ => return

end Grammar

end SchemaDoc.Script
