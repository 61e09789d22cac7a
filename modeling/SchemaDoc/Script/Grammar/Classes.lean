import SchemaDoc.Script.Grammar.Expressions

/-!
# Classes

A class is read for its references only. The references of its body come before those of the class
that it extends, and those before the ones in types.

Several words in front of a member are also the names of members. What follows them tells: a method
or a property with such a name has its parameters or its value directly behind it.
-/

namespace SchemaDoc.Script.Grammar

open SchemaDoc.Script.Parser

variable (g : Grammar)

/-! ### Members -/

/-- The key of a class member. -/
structure ClassKey where
  /-- The word that the key is, if it is one. -/
  word : Option String
  isConstructor : Bool
  references : References
  span : Span

/-- The key that a word is. -/
def ClassKey.ofWord (w : String) (span : Span) : ClassKey := ⟨some w, w == "constructor", [], span⟩

/-- The key of a class member. -/
def classKey : Parser ClassKey := do
  let t ← peek
  if t.kind == .privateName then
    advance
    return ⟨none, false, [], ⟨t.lo, t.hi⟩⟩
  let key ← propertyKey g
  let word := match t.kind with
    | .name w _ => some w
    | _ => none
  let isConstructor := match key with
    | .text s => s == "constructor"
    | .computed _ _ => false
  return ⟨word, isConstructor, key.references, ⟨t.lo, t.hi⟩⟩

/-- Whether a method goes on here behind its key. -/
def continuesMethod : Parser Bool := do
  return (← isPunct .parenOpen) || ((← hasTypes) && (← isPunct .less))

/-- Whether a property goes on here behind its key, or ends. It may end without a semicolon only
where that is asked for. -/
def continuesProperty (endMayBeMissing : Bool) : Parser Bool := do
  if ← isAnyPunct [.assign, .braceClose, .semicolon] then return true
  if (← hasTypes) && (← isAnyPunct [.not, .colon]) then return true
  if endMayBeMissing then atEnd else return false

/-- Takes the mark of an optional member. -/
def acceptOptionalMark : Parser Bool := do
  if ← hasTypes then accept .question else return false

/-- A method of a class after its key. -/
def classMethod (key : ClassKey) (isAsync isGenerator : Bool) : Parser References := do
  return key.references ++ (← method g isAsync isGenerator).references

/-- A constructor after its key. Its types count for nothing. -/
def constructorRest (key : ClassKey) : Parser References := do
  if ← hasTypes then
    let _ ← typeParameters g
  expect .parenOpen
  let ps ← constructorParams g
  expect .parenClose
  let _ ← annotated g
  let body ← insideBody false false (body? g)
  return key.references ++ paramReferences ps ++ (body.getD (.block [])).references

/-- A property of a class after its key. It needs no semicolon. -/
def classProperty (key : ClassKey) (isOptional : Bool) : Parser References := do
  if key.isConstructor then failAt key.span
  if (← hasTypes) && !isOptional then
    let _ ← accept .not
  let types ← annotated g
  let value ←
    if ← accept .assign then pure (← allowingIn (g .assign)).references else pure []
  let _ ← acceptEnd
  return key.references ++ value ++ types

/-- A member whose name is a word that has been taken as a modifier, if it is one. -/
def namedMember? (w : String) (endMayBeMissing : Bool) : Parser (Option References) := do
  let hi ← lastEnd
  let key := ClassKey.ofWord w ⟨hi, hi⟩
  if ← continuesMethod then return some (← classMethod g key false false)
  if (← continuesProperty endMayBeMissing) || ((← hasTypes) && (← isPunct .question)) then
    let isOptional ← acceptOptionalMark
    return some (← classProperty g key isOptional)
  return none

/-- A block that runs when the class is made. -/
def staticBlock : Parser References :=
  withSurroundings ({ · with inStaticBlock := true }) do
    return statementReferences (← g (.block false))

/-- Whether a static block starts here with its word. -/
def startsStaticBlock : Parser Bool := do
  if ← isWord "static" then return (← second).kind == .punct .braceOpen else return false

/-- The words in front of a member, but for those that open a static block. -/
def memberModifiers : Parser (List String) :=
  iterate [] fun words => do
    if ← startsStaticBlock then return .inr words
    match ← modifier? ["abstract", "readonly", "override", "static"] with
    | some w => return .inl (w :: words)
    | none => return .inr words

/-- A member of a class from its key on, with the modifiers in front of it. -/
def memberFromKey (lo : Nat) (isReadonly : Bool) : Parser References := do
  if ← accept .star then return ← classMethod g (← classKey g) false true
  let key ← classKey g
  let isOptional ← acceptOptionalMark
  if ← continuesMethod then
    if isReadonly then failAt ⟨lo, lo⟩
    if key.isConstructor then return ← constructorRest g key
    return ← classMethod g key false false
  let startsGenerator := (← newlineBefore) && (← isPunct .star)
  let isAccessor := (key.word == some "get" || key.word == some "set") &&
    !(← continuesProperty false) && !startsGenerator
  if !isAccessor && (← continuesProperty true) then return ← classProperty g key isOptional
  if key.word == some "async" && !(← newlineBefore) then
    let _ ← modifier? ["override"]
    let isGenerator ← accept .star
    let key ← classKey g
    if key.isConstructor then failAt key.span
    if isReadonly then failAt ⟨lo, lo⟩
    let _ ← acceptOptionalMark
    classMethod g key true isGenerator
  else if isAccessor then classMethod g (← classKey g) false false
  else fail

/-- A member of a class after the words in front of it. -/
def memberRest (lo : Nat) (hasAccess isStatic : Bool) : Parser References := do
  let words ← memberModifiers
  let isReadonly := words.contains "readonly"
  if (← hasTypes) && !isReadonly then
    let _ ← acceptWord "accessor"
  if (isStatic || words.contains "static") && (← isPunct .braceOpen) then return ← staticBlock g
  if ← startsStaticBlock then
    advance
    return ← staticBlock g
  if (← hasTypes) && !words.contains "abstract" && !words.contains "override" && !hasAccess then
    if ← startsIndex then return ← indexSignature g
  memberFromKey g lo isReadonly

/-- A member of a class, by its references. -/
def classMember : Parser References := do
  let lo ← position
  let types ← hasTypes
  let declaredFirst ← if types then acceptWord "declare" else pure false
  let hasAccess ← acceptAccess
  let declaredLater ← if types && !declaredFirst then acceptWord "declare" else pure false
  if declaredFirst || declaredLater then
    if let some refs ← namedMember? g "declare" true then return refs
  let isStatic ← acceptWord "static"
  let isAccessor ← if types then acceptWord "accessor" else pure false
  if isStatic then
    if let some refs ← namedMember? g "static" false then return refs
  if isAccessor then
    if let some refs ← namedMember? g "accessor" true then return refs
  memberRest g lo hasAccess isStatic

/-- The members of a class after the opening brace. At the end of a file the closing brace may be
missing. -/
def classBody : Parser References :=
  withSuper true <| iterate [] fun refs => do
    if (← kind) == .eof then return .inr refs
    if ← accept .braceClose then return .inr refs
    if ← accept .semicolon then return .inl refs
    return .inl (refs ++ (← classMember g))

/-! ### Heads -/

/-- A type that a class implements or an interface extends. -/
def heritageElement : Parser References := do
  let t ← peek
  let w ← word
  let e ← chain g false (.ident ⟨t.lo, t.hi⟩ w)
  let types ← if ← isPunct .less then typeArguments g else pure []
  return e.references ++ types

/-- Whether a list of types that a class implements ends here. -/
def endsHeritage : Parser Bool := do
  return (← isPunct .braceOpen) || (← isAnyWord ["implements", "extends"])

/-- The types that a class implements or an interface extends. -/
def heritage : Parser References :=
  iterate [] fun refs => do
    if ← endsHeritage then return .inr refs
    let refs := refs ++ (← heritageElement g)
    if ← accept .comma then return .inl refs
    if ← endsHeritage then return .inr refs else fail

/-- The class that another one extends, and the references in its type arguments. -/
def superClass : Parser (References × References) := do
  let e ← callChain g
  let types ← if (← hasTypes) && (← isPunct .less) then typeArguments g else pure []
  return (e.references, types)

/-- The class that a class extends, if it does. Further ones count for nothing. -/
def superClass? : Parser (Option (References × References)) := do
  if !(← acceptWord "extends") then return none
  let base ← superClass g
  if (← hasTypes) && (← isPunct .comma) then
    advance
    let _ ← heritage g
  if ← acceptWord "extends" then
    let _ ← superClass g
  return some base

/-- The types that a class implements, and a class that it extends behind them. -/
def implemented : Parser (References × Option (References × References)) := do
  if !(← hasTypes) then return ([], none)
  let first ← if ← acceptWord "implements" then heritage g else pure []
  let more ← if ← acceptWord "implements" then heritage g else pure []
  let base ← if ← acceptWord "extends" then some <$> superClass g else pure none
  return (first ++ more, base)

/-- A class after its word, by its references. -/
def classRest (named : Bool) : Parser References := inStrictCode do
  let _ ← if named then some <$> lexicalName else name? lexicalName
  let generics ← if ← hasTypes then typeParameters g else pure []
  let base ← superClass? g
  let (interfaces, later) ← implemented g
  let (base, types) := (base.or later).getD ([], [])
  expect .braceOpen
  let body ← classBody g
  return body ++ base ++ generics ++ types ++ interfaces

end SchemaDoc.Script.Grammar
