import SchemaDoc.Script.Grammar.Types

/-!
# Patterns and parameters

The left-hand sides of declarations and the parameters of functions. Of a pattern the documentation
looks at names and at object patterns whose properties are names; deeper patterns only contribute
their references.
-/

namespace SchemaDoc.Script.Grammar

open SchemaDoc.Script.Parser

variable (g : Grammar)

/-- The text of a numeral as a key. -/
def numeralKey : Numeral → String
  | .double x => x.format
  | .integer n => toString n

/-- A property key. With types, a computed one may be a sequence. -/
def propertyKey : Parser Key := do
  match ← kind with
  | .name w _ => advance; return .text w
  | .string s => advance; return .text (s.getD "")
  | .numeral n => advance; return .text (numeralKey n)
  | .punct .bracketOpen =>
    advance
    let e ← allowingIn (if ← hasTypes then expression g else g .assign)
    expect .bracketClose
    return .computed e.span e.references
  | _ => fail

/-- The default after an equals sign, if there is one. -/
def default? : Parser (Option Expr) := do
  if ← accept .assign then return some (← allowingIn (g .assign)) else return none

/-- A pattern inside another one, with its default. -/
def slot : Parser Slot := do
  let pattern ← g (.target false)
  return ⟨pattern, ← default? g⟩

/-! ### Patterns -/

/-- A property of an object pattern, and where it stands if it is a rest that is no name. -/
def patternProperty : Parser (PatternProperty × Option Span) := do
  let t ← peek
  if ← accept .ellipsis then
    match ← g (.target false) with
    | .ident _ => return (.other [], none)
    | p => return (.other p.references, some (← spanFrom t.lo))
  let key ← propertyKey g
  if ← accept .colon then return ((← slot g).property key, none)
  match t.kind, key with
  | .name _ _, .text name => return (.bind key name (← default? g), none)
  | _, _ => fail

/-- The properties of an object pattern after the opening brace. The last of them is only a rest if
it is a name. -/
def patternProperties : Parser (List PatternProperty) := do
  let ps ← withoutColon (commaList .braceClose (patternProperty g))
  match ps.getLast? with
  | some (_, some span) => failAt span
  | _ => return ps.map Prod.fst

/-- The elements of an array pattern after the opening bracket, some of which may be missing, by
their references. -/
def patternElements : Parser References :=
  iterate [] fun refs => do
    if ← accept .bracketClose then return .inr refs
    if ← accept .comma then return .inl refs
    let element ←
      if ← accept .ellipsis then pure (← g (.target false)).references
      else pure (← slot g).references
    let refs := refs ++ element
    if ← accept .comma then return .inl refs
    expect .bracketClose
    return .inr refs

/-- Takes the mark of something that may be missing, where a declaration only gives types. -/
def acceptOptional : Parser Unit := do
  if (← read).ambient && (← isPunct .question) then advance

/-- The left-hand side of a declaration, without a type. -/
def target (lexical : Bool) : Parser Pattern := do
  match ← kind with
  | .punct .braceOpen =>
    advance
    let ps ← patternProperties g
    acceptOptional
    return .object ps
  | .punct .bracketOpen =>
    advance
    let refs ← patternElements g
    acceptOptional
    return .other refs
  | _ => return .ident (← if lexical then lexicalName else name)

/-! ### Parameters -/

/-- A parameter that is no rest. Behind a default there may be a type, which counts for nothing, and
another default. -/
def plainParam : Parser Param := do
  acceptVisibility
  let s ← slot g
  if (← hasTypes) && (← isPunct .question) then
    let t ← peek
    advance
    if s.default.isSome && !(← read).ambient then failAt ⟨t.lo, t.hi⟩
  let types ← annotated g
  if ← accept .assign then
    let default ← g .assign
    match s.default with
    | none => return .mk s.pattern types (some default) false
    | some _ => return .mk (.other s.references) [] (some default) false
  return .mk s.pattern (if s.default.isNone then types else []) s.default false

/-- A parameter of a function. -/
def param : Parser Param := do
  if !(← accept .ellipsis) then return ← plainParam g
  let pattern ← g (.target false)
  let default ← if ← accept .assign then some <$> g .assign else pure none
  let types ← annotated g
  if (← hasTypes) && (← isPunct .question) then advance
  match default with
  | none => return .mk pattern types none true
  | some _ => return .mk (.other (pattern.references ++ optionReferences default)) types none true

/-- Parameters up to the closing parenthesis, which is not taken. -/
def paramList (one : Parser Param) : Parser (List Param) :=
  iterate [] fun done => do
    if ← isPunct .parenClose then return .inr done.reverse
    let done := (← one) :: done
    if !(← isPunct .parenClose) then expect .comma
    return .inl done

/-- The parameters of a function, up to the closing parenthesis. -/
def params : Parser (List Param) := paramList (param g)

/-- A parameter that a constructor may keep as a property. Such a one is a name, or has a
default. -/
def constructorParam : Parser Param := do
  if ← accept .ellipsis then
    let pattern ← g (.target false)
    return .mk pattern (← annotated g) none true
  let access ← acceptAccess
  let overrides ← modifier? ["override"]
  let isReadonly ← modifier? ["readonly"]
  let lo ← position
  let p ← plainParam g
  if access || overrides.isSome || isReadonly.isSome then
    match p with
    | .mk (.ident _) _ _ _ | .mk _ _ (some _) _ => return p
    | _ => failAt ⟨lo, lo⟩
  return p

/-- The parameters of a constructor, up to the closing parenthesis. -/
def constructorParams : Parser (List Param) := paramList (constructorParam g)

end SchemaDoc.Script.Grammar
