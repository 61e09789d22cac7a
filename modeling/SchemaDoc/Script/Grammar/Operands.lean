import SchemaDoc.Script.Grammar.Functions

/-!
# Literals of all kinds

Arguments, arrays, templates, regular expressions and object literals.
-/

namespace SchemaDoc.Script.Grammar

open SchemaDoc.Script.Parser

variable (g : Grammar)

/-- An element of an array or an argument of a call. -/
def element : Parser Element := do
  let lo ← position
  if ← accept .ellipsis then return .spread lo (← g .assign)
  return .plain (← g .assign)

/-- The arguments of a call. -/
def arguments : Parser (List Element) := do
  expect .parenOpen
  commaList .parenClose (insideBrackets (element g))

/-- The elements of an array after the opening bracket, some of which may be missing. -/
def arrayElements : Parser (List Element) :=
  insideBrackets <| iterate [] fun done => do
    if ← accept .bracketClose then return .inr done.reverse
    if ← accept .comma then return .inl done
    let done := (← element g) :: done
    if ← accept .comma then return .inl done
    expect .bracketClose
    return .inr done.reverse

/-- The chunks and the expressions of a template. -/
def templateParts (tagged : Bool) : Parser (List String × List Expr) :=
  iterate ([], []) fun (chunks, exprs) => do
    let (text, isLast, place) ← chunk tagged
    moveTo place
    let chunks := text :: chunks
    if isLast then return .inr (chunks.reverse, exprs.reverse)
    let e ← insideBrackets (expression g)
    if ← isPunct .braceClose then return .inl (chunks, e :: exprs) else fail

/-- A regular expression. -/
def regex : Parser Expr := do
  let t ← peek
  match t.regex? with
  | none => unfinished
  | some (pattern, flags, place) =>
    moveTo place
    return .regex ⟨t.lo, place.offset⟩ pattern flags

/-! ### Members of object literals -/

/-- A method after its key. -/
def methodMember (lo : Nat) (key : Key) (isAsync isGenerator : Bool) : Parser Member := do
  let c ← method g isAsync isGenerator
  return .method (← spanFrom lo) key c.params c.block c.types

/-- The parameters that belong to a setter: the one that is set, and `this` in front of it. -/
def setterParams : List Param → List Param
  | p :: q :: _ => [p, q]
  | ps => ps

/-- An accessor after its key. -/
def accessorMember (lo : Nat) (kind : Accessor) (key : Key) : Parser Member := do
  let c ← method g false false
  let refs := match kind with
    | .getter => c.result ++ c.block.references
    | .setter => paramReferences (setterParams c.params) ++ c.block.references
  return .accessor (← spanFrom lo) kind key refs

/-- The word of an accessor. -/
def accessor? (w : String) : Option Accessor :=
  if w == "get" then some .getter else if w == "set" then some .setter else none

/-- A member that starts with a name, where nothing that it could be alone comes next: what the name
says of the member that follows. -/
def wordMember (lo : Nat) (w : String) : Parser Member := do
  match accessor? w with
  | some kind => accessorMember g lo kind (← propertyKey g)
  | none =>
    if w != "async" then fail
    let isGenerator ← accept .star
    methodMember g lo (← propertyKey g) true isGenerator

/-- Whether a member of an object literal can go on with a token behind its key. -/
def continuesMember : Kind → Bool
  | .name _ _ | .string _ | .numeral _ => true
  | .punct p =>
    [.parenOpen, .bracketOpen, .colon, .comma, .question, .assign, .star, .less].contains p
  | _ => false

/-- A member of an object literal after its key, which starts at an offset. -/
def keyedMember (lo keyLo : Nat) (isName : Bool) (key : Key) : Parser Member := do
  let k ← kind
  if (← hasTypes) && !continuesMember k && !(k == .punct .braceClose && isName) then
    let span ← spanFrom lo
    return .keyed span key (.other span .missing [])
  if ← accept .colon then
    let value ← g .assign
    return .keyed ⟨keyLo, value.span.hi⟩ key value
  if k == .punct .parenOpen || ((← hasTypes) && k == .punct .less) then
    return ← methodMember g lo key false false
  match isName, key with
  | true, .text w =>
    let keySpan ← spanFrom keyLo
    let _ ← accept .question
    if ← accept .assign then
      let default ← g .assign
      return .defaulted (← spanFrom lo) w default
    if ← isAnyPunct [.comma, .braceClose] then return .shorthand keySpan w
    wordMember g lo w
  | _, _ => fail

/-- A member of an object literal. -/
def member : Parser Member := do
  let lo ← position
  if ← accept .ellipsis then
    let e ← g .assign
    return .spread ⟨lo, e.span.hi⟩ e
  if ← accept .star then return ← methodMember g lo (← propertyKey g) false true
  acceptVisibility
  let t ← peek
  let key ← propertyKey g
  keyedMember g lo t.lo (isAnyName t) key

/-- The members of an object literal after the opening brace. -/
def members : Parser (List Member) := commaList .braceClose (insideBrackets (member g))

end SchemaDoc.Script.Grammar
