import SchemaDoc.Script.Grammar.Basic

/-!
# Types

Types are read for the references in them and forgotten otherwise. An expression can stand in a
type only as a computed key or inside the pattern of a parameter.

The reader is lenient: it accepts empty lists, dots with nothing behind them and modifiers that make
no sense where they stand.
-/

namespace SchemaDoc.Script.Grammar

open SchemaDoc.Script.Parser

variable (g : Grammar)

/-- Takes an opening angle bracket, which may be the first half of two. -/
def openAngle : Parser Unit := do
  let t ← peek
  if t.kind == .punct .shiftLeft then moveTo ⟨'<' :: t.after.rest, t.hi - 1⟩ else expect .less

/-- Whether an opening angle bracket comes next, which may be the first half of two. -/
def atAngle : Parser Bool := isAnyPunct [.less, .shiftLeft]

/-- Type arguments. -/
def typeArguments : Parser References := do
  openAngle
  return (← commaList .greater (insideBrackets (g .type))).flatten

/-- Type arguments on the same line, if there are any. -/
def typeArgumentsHere : Parser References := do
  if (← atAngle) && !(← newlineBefore) then typeArguments g else return []

/-- A type after a mark or a word, if it comes next. -/
def typeAfter (isNext : Parser Bool) : Parser References := do
  if ← isNext then
    advance
    g .type
  else return []

/-- The words that may stand before the name of a type parameter. -/
def typeParameterModifiers : List String :=
  ["public", "private", "protected", "readonly", "abstract", "const", "override", "in", "out"]

/-- Takes all words of a list that are modifiers of what follows. -/
def skipModifiers (words : List String) : Parser Unit :=
  iterate () fun _ => do
    match ← modifier? words with
    | some _ => return .inl ()
    | none => return .inr ()

/-- A type parameter, with its bound and its default. -/
def typeParameter : Parser References := do
  skipModifiers typeParameterModifiers
  let _ ← word
  let bound ← typeAfter g (isWord "extends")
  let default ← typeAfter g (isPunct .assign)
  return bound ++ default

/-- Type parameters, if there are any. -/
def typeParameters : Parser References := do
  if ← accept .less then
    return (← commaList .greater (insideBrackets (typeParameter g))).flatten
  else return []

/-- A type after a colon, if there is one. -/
def annotated : Parser References := do
  if ← hasTypes then typeAfter g (isPunct .colon) else return []

/-- The type of a result: a type, or a predicate on a parameter. -/
def resultType : Parser References := do
  let asserts ← if ← isWord "asserts" then isName (← second) else pure false
  if asserts then advance
  let t ← second
  let isTest := (← atName) && t.kind == .name "is" false && !t.newlineBefore
  if asserts || isTest then
    let _ ← word
    if isTest then
      advance
      g .type
    else return []
  else g .type

/-- The type of a result after a colon, if there is one. -/
def annotatedResult : Parser References := do
  if (← hasTypes) && (← isPunct .colon) then
    advance
    resultType g
  else return []

/-- Whether a parameter has a default. -/
def hasDefault : Param → Bool
  | .mk _ _ default _ => default.isSome

/-- The parameters of a signature, which have no defaults. -/
def signatureParams : Parser (List Param) := do
  expect .parenOpen
  let ps ← g .params
  if ps.any hasDefault then fail
  expect .parenClose
  return ps

/-- The head and the result of a function type. -/
def functionType : Parser References := do
  let generics ← typeParameters g
  let ps ← signatureParams g
  expect .arrow
  let result ← resultType g
  return paramReferences ps ++ generics ++ result

/-! ### Members of object types -/

/-- Takes the end of a member: a comma, or the end of a statement. -/
def memberEnd : Parser Unit := do
  if ← accept .comma then return else semicolon

/-- The signature of a call, after the key of a method if it has one. -/
def callSignature : Parser References := do
  let generics ← typeParameters g
  let ps ← signatureParams g
  let result ← annotatedResult g
  memberEnd
  return paramReferences ps ++ result ++ generics

/-- Whether an index signature starts here. -/
def startsIndex : Parser Bool := do
  if !(← isPunct .bracketOpen) then return false
  let (t, after) ← secondAndThird
  return (← isName t) && (after.kind == .punct .colon || after.kind == .punct .comma)

/-- An index signature. -/
def indexSignature : Parser References := do
  expect .bracketOpen
  let _ ← word
  if !(← accept .comma) then expect .colon
  let index ← g .type
  expect .bracketClose
  let value ← annotated g
  memberEnd
  return index ++ value

/-- The key of a member, by its references. -/
def memberKey : Parser References := do
  if ← accept .bracketOpen then
    let key ← insideBrackets (g .assign)
    expect .bracketClose
    return key.references
  match ← kind with
  | .string _ | .numeral (.double _) => return (← g .construct).references
  | .privateName => advance; return []
  | _ => let _ ← word; return []

/-- A member that reads or writes a property. -/
def accessorSignature : Parser References := do
  let reads ← acceptWord "get"
  if !reads then expectWord "set"
  let key ← memberKey g
  if reads then
    expect .parenOpen
    expect .parenClose
    let result ← annotated g
    memberEnd
    return key ++ result
  let ps ← signatureParams g
  match ps with
  | [] => fail
  | p :: _ =>
    memberEnd
    return key ++ paramReferences [p]

/-- A property or a method. -/
def propertySignature (isReadonly : Bool) : Parser References := do
  let key ← memberKey g
  let _ ← accept .question
  if ← isAnyPunct [.parenOpen, .less] then
    if isReadonly then fail
    return key ++ (← callSignature g)
  let value ← annotated g
  memberEnd
  return key ++ value

/-- A member of an object type. -/
def typeMember : Parser References := do
  if ← isAnyPunct [.parenOpen, .less] then return ← callSignature g
  if ← isWord "new" then
    if [.punct .parenOpen, .punct .less].contains (← second).kind then
      advance
      return ← callSignature g
  let isReadonly := (← modifier? ["readonly"]).isSome
  if ← startsIndex then return ← indexSignature g
  if !isReadonly && (← isAnyWord ["get", "set"]) then
    match ← attempt (some <$> accessorSignature g) with
    | some refs => return refs
    | none => propertySignature g false
  else propertySignature g isReadonly

/-- The members of an object type, between braces. -/
def typeMembers : Parser References := do
  expect .braceOpen
  insideBrackets <| iterate [] fun refs => do
    if ← accept .braceClose then return .inr refs
    return .inl (refs ++ (← typeMember g))

/-- Whether a mapped type starts here. -/
def startsMapped : Parser Bool := ahead do
  expect .braceOpen
  if ← acceptAny [.plus, .minus] then isWord "readonly"
  else
    let _ ← acceptWord "readonly"
    if !(← accept .bracketOpen) then return false
    if !(← atName) then return false
    advance
    isWord "in"

/-- A mapped type. -/
def mappedType : Parser References := do
  expect .braceOpen
  if ← acceptAny [.plus, .minus] then expectWord "readonly"
  else let _ ← acceptWord "readonly"
  expect .bracketOpen
  let _ ← word
  expectWord "in"
  let keys ← g .type
  let names ← typeAfter g (isWord "as")
  expect .bracketClose
  if ← acceptAny [.plus, .minus] then expect .question
  else let _ ← accept .question
  let value ← annotated g
  semicolon
  expect .braceClose
  return keys ++ names ++ value

/-! ### Types without operators -/

/-- Takes the label of a tuple element. -/
def tupleLabel : Parser Unit := do
  let _ ← accept .ellipsis
  let _ ← word
  let _ ← accept .question
  expect .colon

/-- An element of a tuple type: it may have a label, and may be spread or missing. -/
def tupleElement : Parser References := do
  let _ ← attempt (some <$> tupleLabel)
  if ← accept .ellipsis then return ← g .type
  let refs ← g .type
  let _ ← accept .question
  return refs

/-- The names behind a dotted name. A last dot may have nothing behind it. -/
def dottedRest (part : Parser String) : Parser Unit :=
  iterate () fun _ => do
    if !(← accept .dot) then return .inr ()
    match ← kind with
    | .name _ _ | .privateName | .punct .hash =>
      let _ ← part
      return .inl ()
    | _ => return .inr ()

/-- A dotted name. -/
def dottedName : Parser Unit := do
  let _ ← word
  dottedRest word

/-- The attributes of a type that an import names, by their references. -/
def importOptions : Parser References := do
  expect .braceOpen
  expectWord "with"
  expect .colon
  if !(← isPunct .braceOpen) then fail
  let attributes ← g .construct
  let _ ← accept .comma
  expect .braceClose
  return attributes.references

/-- A type that an import names. Any token may stand for the module. -/
def importType : Parser References := do
  expectWord "import"
  expect .parenOpen
  if (← kind) == .eof then fail
  if let .invalid _ ← kind then fail
  advance
  let hasMore ← accept .comma
  let options ← if hasMore && (← isPunct .braceOpen) then importOptions g else pure []
  expect .parenClose
  if ← accept .dot then
    let _ ← word
    dottedRest name
  let types ← if ← atAngle then typeArguments g else pure []
  return types ++ options

/-- A template as a type. -/
def templateType : Parser References :=
  iterate [] fun refs => do
    let (_, isLast, place) ← chunk false
    moveTo place
    if isLast then return .inr refs
    let refs := refs ++ (← insideBrackets (g .type))
    if ← isPunct .braceClose then return .inl refs else fail

/-- The words that are types of their own and take no arguments. -/
def keywordTypes : List String :=
  ["any", "unknown", "never", "void", "undefined", "null", "object", "string", "number", "boolean",
    "bigint", "symbol", "intrinsic"]

/-- The keywords that a type may start with as if they were names. -/
def typeNameKeywords : List String := ["void", "yield", "null", "await", "break"]

/-- The predicate behind `this`, if there is one. -/
def thisTest : Parser References := typeAfter g (isWord "is")

/-- A type that starts with a word. -/
def wordType (w : String) (plain : Bool) : Parser References := do
  if plain || !isKeyword w || typeNameKeywords.contains w then
    let t ← second
    if !plain && w == "asserts" && t.kind == .name "this" false then
      advance
      advance
      thisTest g
    else if !plain && keywordTypes.contains w && t.kind != .punct .dot then
      advance
      return []
    else
      acceptVisibility
      dottedName
      typeArgumentsHere g
  else match w with
    | "true" | "false" => advance; return []
    | "import" => importType g
    | "this" =>
      advance
      if ← newlineBefore then return [] else thisTest g
    | "typeof" =>
      advance
      if ← isWord "import" then importType g
      else
        dottedName
        typeArgumentsHere g
    | _ => fail

/-- A type without operators. -/
def primaryType : Parser References := do
  match ← kind with
  | .punct .parenOpen =>
    advance
    let refs ← insideBrackets (g .type)
    expect .parenClose
    return refs
  | .punct .bracketOpen =>
    advance
    return (← commaList .bracketClose (insideBrackets (tupleElement g))).flatten
  | .punct .braceOpen => if ← startsMapped then insideBrackets (mappedType g) else typeMembers g
  | .punct .backquote => templateType g
  | .punct .minus =>
    advance
    match ← kind with
    | .numeral _ => advance; return []
    | _ => fail
  | .string _ | .numeral _ => advance; return []
  | .name w plain => wordType g w plain
  | _ => fail

/-! ### Operators -/

/-- A type with the brackets behind it. -/
def suffixedType : Parser References := withConditionalTypes true do
  let first ← primaryType g
  iterate first fun refs => do
    if (← newlineBefore) || !(← isPunct .bracketOpen) then return .inr refs
    advance
    if ← accept .bracketClose then return .inl refs
    let refs := refs ++ (← insideBrackets (g .type))
    expect .bracketClose
    return .inl refs

/-- The bound of a type that is inferred, if there is one. A question mark behind it would make it
the condition of a conditional type instead. -/
def inferredBound : Parser References := do
  let bound ← attempt do
    expectWord "extends"
    let bound ← g .plainType
    if (← read).conditionalTypes && (← isPunct .question) then return none else return some bound
  return bound.getD []

/-- A type with the operators in front of it. -/
def operandType : Parser References := do
  if ← isAnyWord ["keyof", "unique", "readonly"] then
    advance
    g .operandType
  else if ← acceptWord "infer" then
    let _ ← word
    inferredBound g
  else suffixedType g

/-- Types joined by a mark, which may also stand before the first one. -/
def joinedTypes (mark : Punct) (operand : Parser References) : Parser References := do
  let _ ← accept mark
  let first ← operand
  iterate first fun refs => do
    if ← accept mark then return .inl (refs ++ (← operand)) else return .inr refs

/-- A union of intersections. -/
def unionType : Parser References := joinedTypes .or (joinedTypes .and (g .operandType))

/-- Whether the parameters of a function type start here, as far as the first of them shows. -/
def startsParams : Parser Bool := ahead do
  expect .parenOpen
  if ← isAnyPunct [.parenClose, .ellipsis] then return true
  acceptVisibility
  match ← kind with
  | .name _ _ => advance
  | .punct .braceOpen | .punct .bracketOpen => let _ ← g (.target false)
  | _ => fail
  if ← isAnyPunct [.colon, .comma, .question, .assign] then return true
  expect .parenClose
  isPunct .arrow

/-- A type that is not a conditional one. -/
def plainType : Parser References := do
  if (← isPunct .less) || (← startsParams g) then functionType g
  else if ← acceptWord "new" then functionType g
  else if (← isWord "abstract") && (← second).kind == .name "new" false then
    advance
    advance
    functionType g
  else unionType g

/-- A type. What a conditional type compares with is no conditional type itself. -/
def type : Parser References := do
  let left ← plainType g
  if !(← read).conditionalTypes || (← newlineBefore) then return left
  if !(← acceptWord "extends") then return left
  let right ← withConditionalTypes false (g .plainType)
  expect .question
  let yes ← g .type
  expect .colon
  let no ← g .type
  return left ++ right ++ yes ++ no

end SchemaDoc.Script.Grammar
