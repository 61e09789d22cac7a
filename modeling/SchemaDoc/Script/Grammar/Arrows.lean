import SchemaDoc.Script.Grammar.Operators

/-!
# Parentheses and arrow functions

Whether parentheses hold an expression, the arguments of a call or the parameters of an arrow
function shows only behind them. So what stands between them is read once, as expressions if it can
be, and read again as patterns if an arrow follows.
-/

namespace SchemaDoc.Script.Grammar

open SchemaDoc.Script.Parser

variable (g : Grammar)

/-! ### Between parentheses -/

/-- A parameter with a type. -/
def withTypes (types : References) : Param → Param
  | .mk pattern _ default rest => .mk pattern types default rest

/-- A parameter with a default. One that has a default already, or takes all arguments, binds
nothing then. -/
def withDefault (default : Expr) : Param → Param
  | .mk pattern types none false => .mk pattern types (some default) false
  | p => .mk (.other (paramReferences [p])) [] (some default) false

/-- Whether a type may follow what stands between parentheses. -/
def takesType : Element → Bool
  | .spread _ _ => true
  | .plain (.ident _ _) => true
  | .plain (.object _ _) => true
  | .plain (.array _ _) => true
  | .plain _ => false

/-- An element as a parameter, once its expression is a pattern. -/
def elementParam (s : Slot) : Element → Param
  | .plain _ => s.param
  | .spread _ _ => s.restParam

/-- A parameter that has been read as an element, from its type on. -/
def typedParam (lo : Nat) (e : Element) : Parser Parenthesized := do
  let s ← ofExcept (e.value.slot .binding)
  let types ← if takesType e then annotated g else pure []
  let p := withTypes types (elementParam s e)
  if ← accept .assign then return .param lo (withDefault (← g .assign) p)
  return .param lo p

/-- An element between parentheses. With types, one that starts with a name ends before a question
mark, which may say that the name is an optional parameter. -/
def parenElement (lo : Nat) : Parser Element := do
  if !(← hasTypes) then return ← element g
  let t ← peek
  if t.kind == .punct .ellipsis && (← isName (← second)) then
    advance
    return .spread t.lo (← binary g)
  if ← isName t then return .plain (← assignRest g lo (← binary g))
  element g

/-- Whether a question mark in front of a token says that a parameter is optional. -/
def followsOptional (t : Token) : Bool :=
  [.punct .comma, .punct .colon, .punct .parenClose, .punct .assign].contains t.kind

/-- Takes the mark of an optional parameter, or goes on with a conditional expression. The result is
whether a parameter is optional. -/
def optionalElement (lo : Nat) (e : Element) : Parser (Element × Bool) := do
  if !(← hasTypes) || !(← isPunct .question) then return (e, false)
  if followsOptional (← second) then
    advance
    match e.value with
    | .ident _ _ => return (e, true)
    | _ => failAt ⟨e.lo, e.value.span.hi⟩
  else
    match e with
    | .plain test => return (.plain (← conditionalRest g lo test), false)
    | .spread _ _ => return (e, false)

/-- One of the things between parentheses. -/
def parenItem : Parser Parenthesized := do
  let lo ← position
  withReader ({ · with arrowAt := some lo }) do
    acceptVisibility
    let itemLo ← position
    let (e, isOptional) ← optionalElement g lo (← parenElement g lo)
    if isOptional || ((← hasTypes) && (← isPunct .colon)) then typedParam g itemLo e
    else return .element e

/-- Whether the first of the things between parentheses is a name. -/
def startsWithName : List Parenthesized → Bool
  | .element (.plain (.ident _ _)) :: _ => true
  | .element (.spread _ (.ident _ _)) :: _ => true
  | _ => false

/-- What stands between parentheses. An arrow behind one of them is no mistake if they start with a
name: they are the parameters of a further one. -/
def parenItems : Parser (List Parenthesized) := do
  expect .parenOpen
  insideBrackets <| iterate [] fun done => do
    if ← accept .parenClose then return .inr done.reverse
    let lo ← position
    let done := (← parenItem g) :: done
    let done ←
      if (← accept .arrow) && startsWithName done.reverse then
        let ps ← ofExcept (Parenthesized.params done.reverse)
        let body ← arrowBody g false
        pure (.element (.plain (.arrow (← spanFrom lo) ps body [])) :: done)
      else pure done
    if ← accept .comma then return .inl done
    expect .parenClose
    return .inr done.reverse

/-! ### Behind parentheses -/

/-- An arrow function with the type of its result, where a colon may also belong to a conditional
expression: if one has to follow, it does. -/
def conditionalArrow (lo : Nat) (isAsync : Bool) (items : List Parenthesized) :
    Parser (Option Expr) := do
  let result ← annotatedResult g
  expect .arrow
  let ps ← ofExcept (Parenthesized.params items)
  let body ← arrowBody g isAsync
  if (← read).colonExpected && !(← isPunct .colon) then return none
  return some (.arrow (← spanFrom lo) ps body result)

/-- The type of the result of an arrow function, if there is one with an arrow behind it. -/
def arrowResult? : Parser (Option References) := do
  if !(← hasTypes) || !(← isPunct .colon) || (← read).colonExpected then return none
  attempt do
    let result ← annotatedResult g
    if ← isPunct .arrow then return some result else return none

/-- An arrow function from its arrow on. A block body may be the first operand of operators. -/
def arrowRest (lo : Nat) (isAsync : Bool) (items : List Parenthesized) (result : References) :
    Parser Expr := do
  expect .arrow
  let ps ← ofExcept (Parenthesized.params items)
  let body ← arrowBody g isAsync
  let arrow := .arrow (← spanFrom lo) ps body result
  match body with
  | .block _ => if isOperatorMark (← peek) then g (.operators arrow 0) else return arrow
  | .expr _ => return arrow

/-- The expressions between parentheses, none of which is a spread. -/
def plainElements : List Element → Except Span (List Expr)
  | [] => .ok []
  | .plain e :: es => do
    let es ← plainElements es
    .ok (e :: es)
  | .spread _ e :: _ => .error e.span

/-- An expression between parentheses. -/
def parenthesized (lo : Nat) (elements : List Element) : Parser Expr := do
  let span ← spanFrom lo
  let es ← ofExcept (plainElements elements)
  match es with
  | [] => failAt span
  | [e] => return .wrapped span .parentheses e []
  | first :: rest =>
    let hi := (rest.getLast?.getD first).span.hi
    return .wrapped span .parentheses
      (.other (.upTo first.span.lo hi) .sequence (exprReferences es)) []

/-- Parentheses and what they turn out to be. They may stand behind `async`, where they start. -/
def parentheses (lo : Nat) (isAsync : Bool) : Parser Expr := do
  let mayBeArrow := (← read).arrowAt == some lo
  let items ← parenItems g
  if (← read).inConditional && (← hasTypes) && (← isPunct .colon) then
    match ← attempt (conditionalArrow g lo isAsync items) with
    | some e => return e
    | none => pure ()
  let result ← arrowResult? g
  if items.any (·.isParam) || result.isSome || (← isPunct .arrow) then
    if !mayBeArrow || (← newlineBefore) then failAt ⟨lo, lo⟩
    arrowRest g lo isAsync items (result.getD [])
  else
    let elements ← ofExcept (Parenthesized.elements items)
    if isAsync then
      return .call (← spanFrom lo) false (.ident ⟨lo, lo + 5⟩ "async") elements []
    parenthesized lo elements

/-- An arrow function with a single name as its head, from the arrow on. -/
def nameArrow (lo : Nat) (isAsync : Bool) (name : String) : Parser Expr := do
  expect .arrow
  let body ← arrowBody g isAsync
  return .arrow (← spanFrom lo) [.mk (.ident name) [] none false] body []

/-- An arrow function after `async`, from its type parameters on. -/
def genericAsyncArrow (lo : Nat) : Parser Expr := do
  let generics ← typeParameters g
  expect .parenOpen
  let ps ← g .params
  expect .parenClose
  let result ← annotatedResult g
  expect .arrow
  let body ← arrowBody g true
  return .arrow (← spanFrom lo) ps body (generics ++ result)

end SchemaDoc.Script.Grammar
