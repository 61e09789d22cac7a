import SchemaDoc.Script.Grammar.Operands

/-!
# Operators

Operands joined by operators, conditional expressions and assignments. An operator has a level; one
of a higher level binds more tightly. An operator without a first operand gets an empty one, so that
reading can go on behind it.
-/

namespace SchemaDoc.Script.Grammar

open SchemaDoc.Script.Parser

variable (g : Grammar)

/-- The level of an operator, and which one it is if it is modelled. -/
def operator? (inAllowed : Bool) : Kind → Option (Nat × Option BinaryOp)
  | .punct .nullish => some (1, some .nullish)
  | .punct .orOr => some (1, some .or)
  | .punct .andAnd => some (2, some .and)
  | .punct .or => some (3, none)
  | .punct .xor => some (4, none)
  | .punct .and => some (5, none)
  | .punct .eqEq => some (6, some .eq)
  | .punct .notEq => some (6, some .notEq)
  | .punct .eqEqEq => some (6, some .strictEq)
  | .punct .notEqEq => some (6, some .strictNotEq)
  | .punct .less => some (7, some .lt)
  | .punct .lessEq => some (7, some .le)
  | .punct .greater => some (7, some .gt)
  | .punct .greaterEq => some (7, some .ge)
  | .name "instanceof" false => some (7, none)
  | .name "in" false => if inAllowed then some (7, none) else none
  | .punct .shiftLeft => some (8, none)
  | .punct .shiftRight => some (8, none)
  | .punct .shiftRightZero => some (8, none)
  | .punct .plus => some (9, some .add)
  | .punct .minus => some (9, some .sub)
  | .punct .star => some (10, some .mul)
  | .punct .slash => some (10, some .div)
  | .punct .percent => some (10, some .rem)
  | .punct .starStar => some (11, none)
  | _ => none

/-- The level of comparisons, at which types are asserted too. -/
def comparisonLevel : Nat := 7

/-- The level of powers, the one operator that groups to the right. -/
def powerLevel : Nat := 11

/-- Whether a token is a mark that joins two operands. -/
def isOperatorMark (t : Token) : Bool :=
  match t.joined.kind with
  | .punct p => (operator? true (.punct p)).isSome
  | _ => false

/-- An operation on two operands. -/
def operation (op : Option BinaryOp) (left right : Expr) : Expr :=
  let span := ⟨left.span.lo, right.span.hi⟩
  match op with
  | some op => .binary span op left right
  | none => .other span .operation (left.references ++ right.references)

/-- A type asserted of an operand, if one follows. -/
def assertion? (level : Nat) (left : Expr) : Parser (Option Expr) := do
  if !(← isAnyWord ["as", "satisfies"]) then return none
  if !(← hasTypes) || (← newlineBefore) then return none
  let isAs ← isWord "as"
  if isAs && level ≥ comparisonLevel then return none
  advance
  if isAs && (← isWord "const") then
    advance
    return some (.wrapped (← spanFrom left.span.lo) .constant left [])
  let types ← g .type
  return some (.wrapped (← spanFrom left.span.lo) .typed left types)

/-- Whether an operator stands in front of an operand. Such an operand is no base of a power. -/
def isPrefixed : Expr → Bool
  | .unary _ _ _ => true
  | e => e.hasForm [.prefixed, .await]

/-- The operators behind an operand that bind more tightly than a level, with their operands. -/
def operators (left : Expr) (level : Nat) : Parser Expr :=
  iterate left fun left => do
    match ← assertion? g level left with
    | some left => return .inl left
    | none =>
      let t := (← peek).joined
      match operator? (← read).inAllowed t.kind with
      | none => return .inr left
      | some (l, op) =>
        if l ≤ level then return .inr left
        moveTo t.after
        if l == powerLevel && isPrefixed left then fail
        let first ← g .unary
        let right ← g (.operators first (if l == powerLevel then l - 1 else l))
        return .inl (operation op left right)

/-- The first operand of operators. It may be missing: the operator is there, and what stands in
front of it is no operand. -/
def firstOperand : Parser Expr := do
  let lo ← position
  match ← recover (g .unary) with
  | .ok e => return e
  | .error span =>
    let t ← peek
    if t.kind == .eof then fail
    if (operator? (← read).inAllowed t.joined.kind).isSome then
      return .other (span.clip lo t.joined.hi) .missing []
    failAt span

/-- Operands joined by operators. -/
def binary : Parser Expr := do
  let first ← firstOperand g
  if first.isArrow then return first
  g (.operators first 0)

/-- Runs a parser for one of the two results of a conditional expression. -/
def insideConditional {α : Type} (colonExpected : Bool) (p : Parser α) : Parser α :=
  withReader ({ · with inConditional := true, colonExpected := colonExpected }) p

/-- A conditional expression from its question mark on. -/
def conditionalRest (lo : Nat) (test : Expr) : Parser Expr := do
  expect .question
  let yes ← insideConditional true (allowingIn (g .assign))
  expect .colon
  let no ← insideConditional false (g .assign)
  return .conditional ⟨lo, no.span.hi⟩ test yes no

/-- A conditional expression, or what stands before its question mark. -/
def conditional : Parser Expr := do
  let lo ← position
  let test ← binary g
  if test.isArrow || !(← isPunct .question) then return test
  conditionalRest g lo test

/-- The marks of assignments that compute something. -/
def compoundMarks : List Punct :=
  [.plusAssign, .minusAssign, .starAssign, .slashAssign, .percentAssign, .starStarAssign,
    .shiftLeftAssign, .shiftRightAssign, .shiftRightZeroAssign, .andAssign, .orAssign, .xorAssign,
    .andAndAssign, .orOrAssign, .nullishAssign]

/-- An assignment behind its left-hand side, if there is one. -/
def assignRest (lo : Nat) (left : Expr) : Parser Expr := do
  let t := (← peek).joined
  match t.kind with
  | .punct .assign =>
    let build ← ofExcept left.assignTo
    advance
    let value ← g .assign
    return build (← spanFrom lo) value
  | .punct p =>
    if !compoundMarks.contains p then return left
    if !left.isTarget then failAt left.span
    moveTo t.after
    let value ← g .assign
    return .other (← spanFrom lo) .compoundAssignment (left.references ++ value.references)
  | _ => return left

end SchemaDoc.Script.Grammar
