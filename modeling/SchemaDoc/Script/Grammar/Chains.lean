import SchemaDoc.Script.Grammar.Arrows

/-!
# Operands and what stands behind them

An operand is followed by properties, calls and templates. Behind `new` a call belongs to the
construction and not to the operand, so it is only read where `calls` is set. With types, an operand
may also have type arguments; whether an angle bracket opens some shows only behind them.
-/

namespace SchemaDoc.Script.Grammar

open SchemaDoc.Script.Parser

variable (g : Grammar)

/-! ### Operands -/

/-- A name, or an arrow function that starts with one. -/
def nameOperand : Parser Expr := do
  let t ← peek
  let mayBeArrow := (← read).arrowAt == some t.lo
  let w ← name
  let operand := Expr.ident ⟨t.lo, t.hi⟩ w
  if !mayBeArrow || (← newlineBefore) then return operand
  if w == "async" && (← atName) then
    if (← read).inLoopHead && (← isWord "of") then
      if (← second).kind != .punct .arrow then return operand
    let param ← name
    if (← hasTypes) && param == "as" && !(← isPunct .arrow) then
      let types ← g .type
      return .wrapped (← spanFrom t.lo) .typed operand types
    nameArrow g t.lo true param
  else if ← isPunct .arrow then nameArrow g t.lo false w
  else return operand

/-- What starts with `async`. -/
def asyncOperand : Parser Expr := do
  let lo ← position
  let mayBeArrow := (← read).arrowAt == some lo
  let t ← second
  if t.kind == .name "function" false && !t.newlineBefore then
    advance
    advance
    return ← functionRest g lo true
  if mayBeArrow && t.kind == .punct .less && (← hasTypes) then
    match ← attempt (do advance; some <$> genericAsyncArrow g lo) with
    | some e => return e
    | none => pure ()
  if mayBeArrow && t.kind == .punct .parenOpen && !t.newlineBefore then
    advance
    return ← parentheses g lo true
  nameOperand g

/-- What starts with a word. -/
def wordOperand (w : String) : Parser Expr := do
  let lo ← position
  match w with
  | "null" => advance; return .literal (← spanFrom lo) .null
  | "true" => advance; return .literal (← spanFrom lo) (.bool true)
  | "false" => advance; return .literal (← spanFrom lo) (.bool false)
  | "this" => advance; return .other (← spanFrom lo) .this []
  | "async" => asyncOperand g
  | "function" => advance; functionRest g lo false
  | "class" =>
    advance
    let refs ← g (.classRest false)
    return .other (← spanFrom lo) .classExpression refs
  | _ => if w == "let" || (← atName) then nameOperand g else fail

/-- An operand without anything behind it. -/
def operand : Parser Expr := do
  let t ← peek
  match t.kind with
  | .numeral (.double x) => advance; return .literal ⟨t.lo, t.hi⟩ (.number x)
  | .numeral (.integer n) => advance; return .literal ⟨t.lo, t.hi⟩ (.bigint (toString n))
  | .string s => advance; return .string ⟨t.lo, t.hi⟩ s
  | .privateName => advance; return .other ⟨t.lo, t.hi⟩ .privateName []
  | .punct .slash | .punct .slashAssign => regex
  | .punct .backquote =>
    let (chunks, exprs) ← templateParts g false
    return .template (← spanFrom t.lo) chunks exprs
  | .punct .parenOpen => parentheses g t.lo false
  | .punct .bracketOpen =>
    advance
    let es ← arrayElements g
    return .array (← spanFrom t.lo) es
  | .punct .braceOpen =>
    advance
    let ms ← members g
    return .object (← spanFrom t.lo) ms
  | .name _ true => nameOperand g
  | .name w false => wordOperand g w
  | _ => fail

/-! ### Type arguments -/

/-- Whether a token may start an expression, as far as type arguments before it are concerned. -/
def startsExpression (t : Token) : Parser Bool := do
  match t.kind with
  | .name w false =>
    if ["this", "super", "null", "true", "false", "function", "class", "new", "delete", "typeof",
        "void", "await", "yield"].contains w then return true
    if w == "import" then
      return [.punct .parenOpen, .punct .less, .punct .dot].contains (← second).kind
    isName t
  | .name _ true | .numeral _ | .string _ | .privateName => return true
  | .punct p =>
    return [.backquote, .parenOpen, .bracketOpen, .braceOpen, .plus, .minus, .tilde, .not,
      .plusPlus, .minusMinus, .less].contains p
  | _ => return false

/-- The marks in front of which type arguments do not stand for themselves. -/
def refusesInstance (t : Token) : Bool :=
  match t.kind with
  | .punct p => [.less, .greater, .plus, .minus, .parenOpen, .backquote].contains p
  | _ => false

/-- Type arguments that stand for themselves: nothing follows that they could belong to. -/
def ownTypeArguments : Parser (Option References) := do
  openAngle
  let types ← insideBrackets <| iterate [] fun refs => do
    if ← isPunct .greater then return .inr refs
    let refs := refs ++ (← g .type)
    if ← accept .comma then return .inl refs else return .inr refs
  if (← peek).joined.kind != .punct .greater then return none
  advance
  let t ← peek
  if refusesInstance t then return none
  if t.newlineBefore || isOperatorMark t || !(← startsExpression t) then return some types
  return none

/-- An operand with type arguments that stand for themselves, if there are some. -/
def instantiated (e : Expr) : Parser Expr := do
  if !(← hasTypes) || !(← isPunct .less) then return e
  match ← attempt (ownTypeArguments g) with
  | none => return e
  | some types => return .other (← spanFrom e.span.lo) .instantiation (e.references ++ types)

/-- Type arguments with a call behind them, if there are some. -/
def callTypes? : Parser (Option References) := do
  if !(← hasTypes) || !(← atAngle) then return none
  attempt do
    let types ← typeArguments g
    if ← isPunct .parenOpen then return some types else return none

/-! ### Chains -/

/-- An expression between brackets, after the opening one. -/
def bracketed : Parser Expr := do
  let e ← insideBrackets (expression g)
  expect .bracketClose
  return e

/-- The property after a dot. -/
def dotProperty : Parser Property := do
  if (← kind) == .privateName then
    advance
    return .hidden
  return .named (← word)

/-- A property read from an operand, perhaps behind the mark of an optional chain. -/
def readProperty (isOptional : Bool) (e : Expr) (p : Property) : Parser Expr := do
  let span ← spanFrom e.span.lo
  instantiated g <|
    if isOptional || e.isChain then .other span .optionalChain (e.references ++ p.references)
    else .member span e p

/-- A call of an operand. -/
def callOf (lo : Nat) (isChain : Bool) (e : Expr) (args : List Element) (types : References) :
    Parser Expr := do
  let span ← spanFrom lo
  if isChain then
    return .other span .optionalChain (e.references ++ elementReferences args ++ types)
  return .call span false e args types

/-- A template tagged with an operand. -/
def tagged (e : Expr) (types : References) : Parser Expr := do
  let (_, exprs) ← templateParts g true
  return .other (← spanFrom e.span.lo) .taggedTemplate
    (e.references ++ types ++ exprReferences exprs)

/-- What follows the mark of an optional chain, from its dot on. -/
def optionalStep (lo : Nat) (e : Expr) : Parser Expr := do
  expect .dot
  match ← kind with
  | .punct .bracketOpen =>
    advance
    let key ← bracketed g
    readProperty g true e (.computed key)
  | .punct .parenOpen =>
    let args ← arguments g
    callOf lo true e args []
  | .punct .less =>
    if !(← hasTypes) then fail
    let types ← typeArguments g
    let args ← arguments g
    callOf lo true e args types
  | _ => readProperty g true e (← dotProperty)

/-- Type arguments behind an operand, with the call or the template that they belong to. The chain
goes on behind these, but not behind type arguments in front of an assignment or an assertion. -/
def typedStep (calls : Bool) (lo : Nat) (e : Expr) : Parser (Option (Expr ⊕ Expr)) := do
  let types ← typeArguments g
  match ← kind with
  | .punct .parenOpen =>
    if !calls then return none
    let args ← arguments g
    return some (.inl (← callOf lo (e.hasForm [.optionalChain]) e args types))
  | .punct .backquote => return some (.inl (← tagged g e types))
  | .punct .assign | .name "as" false | .name "satisfies" false =>
    return some (.inr (.other (← spanFrom lo) .instantiation (e.references ++ types)))
  | _ => return none

/-- One step of what stands behind an operand, in a chain that starts at an offset. -/
def chainStep (calls : Bool) (lo : Nat) (e : Expr) : Parser (Expr ⊕ Expr) := do
  let t ← peek
  match t.kind with
  | .punct .dot =>
    advance
    return .inl (← readProperty g false e (← dotProperty))
  | .punct .question =>
    if (← second).kind != .punct .dot then return .inr e
    advance
    return .inl (← optionalStep g lo e)
  | .punct .bracketOpen =>
    advance
    let key ← bracketed g
    return .inl (← readProperty g false e (.computed key))
  | .punct .parenOpen =>
    if !calls then return .inr e
    let args ← arguments g
    return .inl (← callOf lo e.isChain e args [])
  | .punct .backquote => return .inl (← tagged g e [])
  | .punct .not =>
    if !(← hasTypes) || t.newlineBefore then return .inr e
    advance
    return .inl (.wrapped (← spanFrom lo) .present e [])
  | .punct .less =>
    if !(← hasTypes) then return .inr e
    return (← attempt (typedStep g calls lo e)).getD (.inr e)
  | _ => return .inr e

/-- An operand with everything behind it. -/
def chain (calls : Bool) (e : Expr) : Parser Expr := iterate e (chainStep g calls e.span.lo)

/-! ### Operands that are only something together with what follows -/

/-- What starts with `super`. It has properties only inside methods, unless a file is written with
types. -/
def superOperand (calls : Bool) : Parser Expr := do
  let t ← peek
  advance
  let allowed := (← read).superAllowed || (← hasTypes)
  match ← kind with
  | .punct .parenOpen =>
    if !calls then fail
    let args ← arguments g
    chain g calls (.other (← spanFrom t.lo) .specialCall (elementReferences args))
  | .punct .dot =>
    advance
    match ← dotProperty with
    | .hidden => failAt ⟨t.lo, t.hi⟩
    | _ =>
      if !allowed then failAt ⟨t.lo, t.hi⟩
      chain g calls (← instantiated g (.other (← spanFrom t.lo) .superProperty []))
  | .punct .bracketOpen =>
    advance
    let key ← bracketed g
    if !allowed then failAt ⟨t.lo, t.hi⟩
    chain g calls (← instantiated g (.other (← spanFrom t.lo) .superProperty key.references))
  | .punct .question => if (← second).kind == .punct .dot then failAt ⟨t.lo, t.hi⟩ else fail
  | _ => fail

/-- The arguments of an import. Without types, no comma may stand behind the last one. -/
def importArguments : Parser (List Element) := do
  let lo ← position
  expect .parenOpen
  insideBrackets <| iterate [] fun done => do
    if ← isPunct .parenClose then
      if !done.isEmpty && !(← hasTypes) then failAt ⟨lo, lo⟩
      advance
      return .inr done.reverse
    let done := (← element g) :: done
    if ← accept .comma then return .inl done
    expect .parenClose
    return .inr done.reverse

/-- What starts with `import`. -/
def importOperand (calls : Bool) : Parser Expr := do
  let lo ← position
  advance
  if ← accept .dot then
    let w ← word
    if w == "meta" then return ← chain g calls (.other (← spanFrom lo) .metaProperty [])
    if w != "defer" && w != "source" then fail
  if !calls then fail
  let args ← importArguments g
  chain g calls (.other (← spanFrom lo) .specialCall (elementReferences args))

/-- An operand with the properties read from it, or a construction with `new`. -/
def construct : Parser Expr := do
  let lo ← position
  if ← isWord "super" then return ← superOperand g false
  if ← isWord "import" then return ← importOperand g false
  if ← acceptWord "new" then
    if ← accept .dot then
      expectWord "target"
      return ← chain g false (.other (← spanFrom lo) .metaProperty [])
    let callee ← g .construct
    if callee.isArrow then return callee
    if callee.hasForm [.optionalChain] then failAt callee.span
    let types ← callTypes? g
    if !(← isPunct .parenOpen) then return .call (← spanFrom lo) true callee [] []
    let args ← arguments g
    chain g false (.call (← spanFrom lo) true callee args (types.getD []))
  else
    let e ← operand g
    if e.isArrow then return e
    chain g false (← instantiated g e)

/-- An operand with everything behind it, calls included. -/
def callChain : Parser Expr := do
  let lo ← position
  if ← isWord "super" then return ← superOperand g true
  if ← isWord "import" then return ← importOperand g true
  if (← read).language.markup && (← isPunct .less) then
    if (← second).kind != .punct .not then
      let refs ← g .element
      expect .greater
      return .other (← spanFrom lo) .markup refs
  let e ← construct g
  if e.isArrow then return e
  let types ← callTypes? g
  if !(← isPunct .parenOpen) then return e
  let args ← arguments g
  chain g true (← callOf lo (e.hasForm [.optionalChain]) e args (types.getD []))

/-! ### Operators in front of an operand and behind it -/

/-- An operator in front of an operand, if it is one. -/
def unaryOp? : Kind → Option (Option UnaryOp)
  | .punct .minus => some (some .minus)
  | .punct .plus => some (some .plus)
  | .punct .not => some (some .not)
  | .name "typeof" false => some (some .typeOf)
  | .punct .tilde => some none
  | .name "void" false => some none
  | .name "delete" false => some none
  | _ => none

/-- The operand of an operator in front of it. If there is none, reading goes on where it stops. -/
def unaryOperand : Parser Expr := do
  let lo ← position
  match ← recover (g .unary) with
  | .ok e => return e
  | .error _ => return .other ⟨lo - 1, lo - 1⟩ .missing []

/-- A type asserted in front of an operand. -/
def frontAssertion : Parser Expr := do
  let lo ← position
  expect .less
  let isConstant ← acceptWord "const"
  let types ← if isConstant then pure [] else g .type
  expect .greater
  let e ← g .unary
  let span ← spanFrom lo
  if isConstant then return .wrapped span .constant e []
  return .other span .assertion (e.references ++ types)

/-- What starts with `await`. Outside of asynchronous functions it is a name if nothing follows that
it could wait for. -/
def awaiting : Parser Expr := do
  let lo ← position
  advance
  if ← isPunct .star then fail
  let span ← spanFrom lo
  if !(← read).surroundings.inAsync then
    if (← atEnd) || (← isAnyPunct [.parenClose, .bracketClose, .comma]) then
      return .ident span "await"
  let e ← g .unary
  return .other (← spanFrom lo) .await e.references

/-- An operand with the operators in front of it and behind it. -/
def unary : Parser Expr := do
  let t ← peek
  match unaryOp? t.kind with
  | some op =>
    advance
    let e ← unaryOperand g
    let span := ⟨t.lo, e.span.hi⟩
    match op with
    | some op => return .unary span op e
    | none => return .other span .prefixed e.references
  | none =>
    let language := (← read).language
    if t.kind == .punct .less && language.types && !language.markup then frontAssertion g
    else if t.kind == .punct .plusPlus || t.kind == .punct .minusMinus then
      advance
      let e ← g .unary
      return .other ⟨t.lo, e.span.hi⟩ .update e.references
    else if t.kind == .name "await" false then awaiting g
    else
      let e ← callChain g
      if e.isArrow || (← newlineBefore) then return e
      if !(← isAnyPunct [.plusPlus, .minusMinus]) then return e
      advance
      return .other (← spanFrom e.span.lo) .update e.references

end SchemaDoc.Script.Grammar
