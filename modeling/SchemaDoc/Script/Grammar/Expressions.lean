import SchemaDoc.Script.Grammar.Chains

/-!
# Expressions

An expression without commas outside brackets: an assignment, an arrow function, the result of a
generator, or operands joined by operators.
-/

namespace SchemaDoc.Script.Grammar

open SchemaDoc.Script.Parser

variable (g : Grammar)

/-- The keywords that may start the value of `yield`. -/
def yieldedKeywords : List String :=
  ["await", "function", "throw", "new", "this", "super", "class", "import", "yield", "typeof",
    "void", "delete", "null", "true", "false"]

/-- Whether a token may start the value of `yield`. -/
def startsYielded (k : Kind) : Bool :=
  match k with
  | .name w plain => plain || !isKeyword w || yieldedKeywords.contains w
  | .numeral _ | .string _ | .privateName => true
  | .punct p =>
    [.plus, .minus, .percent, .not, .tilde, .plusPlus, .minusMinus, .parenOpen, .bracketOpen,
      .braceOpen, .backquote, .star, .slash, .slashAssign, .hash].contains p
  | _ => false

/-- What a generator gives away. -/
def yielding : Parser Expr := do
  let t ← peek
  advance
  if (← read).inParameters then failAt ⟨t.lo, t.hi⟩
  if (← atEnd) || !startsYielded (← kind) then return .other (← spanFrom t.lo) .yield []
  let _ ← accept .star
  let e ← g .assign
  return .other (← spanFrom t.lo) .yield e.references

/-- Whether an arrow function with type parameters may start here. Beside markup, its first type
parameter has to show that this is no element. -/
def startsGenericArrow : Parser Bool := do
  let language := (← read).language
  if !language.types || !(← isPunct .less) then return false
  if !isAnyName (← second) then return false
  if !language.markup then return true
  ahead do
    expect .less
    if (← isWord "const") && isAnyName (← second) then advance
    let _ ← word
    if ← isAnyPunct [.comma, .assign] then return true
    expectWord "extends"
    return !(← isAnyPunct [.assign, .greater, .slash])

/-- An arrow function with type parameters, if this is one. -/
def genericArrow : Parser (Option Expr) := withoutColon do
  let lo ← position
  let generics ← typeParameters g
  match ← g .assign with
  | .arrow span ps body types => return some (.arrow ⟨lo, span.hi⟩ ps body (generics ++ types))
  | _ => return none

/-- Whether an arrow function may start with a token. -/
def startsArrow (k : Kind) : Bool :=
  match k with
  | .name w plain => plain || !isKeyword w || w == "yield"
  | .punct .parenOpen => true
  | _ => false

/-- An expression without commas outside brackets. -/
def assign : Parser Expr := do
  if ← startsGenericArrow then
    match ← attempt (genericArrow g) with
    | some e => return e
    | none => pure ()
  let t ← peek
  if (← read).surroundings.inGenerator && t.kind == .name "yield" false then return ← yielding g
  let arrowAt := if startsArrow t.kind then some t.lo else none
  let left ← withReader ({ · with arrowAt }) (conditional g)
  if left.isArrow || left.isOperation then return left
  assignRest g t.lo left

end SchemaDoc.Script.Grammar
