import SchemaDoc.Script.Grammar.Declarations

/-!
# Statements

Declarations and returned values are kept, and everything else only for its references. The
references of a statement are listed in the order of its parts; the test of a `do` loop counts
before its body.
-/

namespace SchemaDoc.Script.Grammar

open SchemaDoc.Script.Parser

variable (g : Grammar)

/-- The references of a statement inside another one, where nothing is declared. -/
def nested : Parser References := return (← g (.statement false)).references

/-- The references of the next block. -/
def blockReferences : Parser References := return statementReferences (← g (.block false))

/-- An expression in parentheses, by its references. -/
def condition : Parser References := do
  expect .parenOpen
  let e ← expression g
  expect .parenClose
  return e.references

/-! ### Loops -/

/-- The part of the head of a loop behind `of` or `in`, which come next. The result says which. -/
def loopSubject : Parser (References × Bool) := do
  let isOf ← isWord "of"
  advance
  let subject ← if isOf then g .assign else expression g
  return (subject.references, isOf)

/-- The head of a loop after its first semicolon. -/
def loopRest : Parser References := do
  let test ←
    if ← accept .semicolon then pure []
    else do
      let test ← expression g
      let _ ← accept .semicolon
      pure test.references
  let step ← if ← isPunct .parenClose then pure [] else pure (← expression g).references
  return test ++ step

/-- Whether an expression is the word that declares resources. -/
def isUsing : Expr → Bool
  | .ident _ name => name == "using"
  | _ => false

/-- Whether a resource is the variable of a loop. Its word has been read as an expression. -/
def usesResource (e : Expr) : Parser Bool := do
  if !(← hasTypes) || !isUsing e || (← isWord "of") then return false
  let t ← second
  return t.kind == .name "of" false || t.kind == .name "in" false

/-- The head of a loop that starts with an expression. -/
def expressionHead : Parser (References × Bool) := do
  let isAwait ← isWord "await"
  if isAwait && (← hasTypes) && (← second).kind == .name "using" false then
    let resource ← ahead do
      advance
      advance
      if ← isWord "of" then return false
      return (← isAnyName <$> peek) && [.name "of" false, .name "in" false].contains (← second).kind
    if resource then
      advance
      advance
      let _ ← name
      return ← loopSubject g
  let e ← withReader ({ · with inLoopHead := true }) (forbiddingIn (expression g))
  if ← usesResource e then
    let _ ← name
    return ← loopSubject g
  if ← isAnyWord ["of", "in"] then
    let target ← ofExcept (e.slot .assignment)
    let (subject, isOf) ← loopSubject g
    return (target.references ++ subject, isOf)
  expect .semicolon
  return (e.references ++ (← loopRest g), false)

/-- Whether the head of a loop declares variables. -/
def declaresInHead : Parser Bool := do
  match ← kind with
  | .name "const" false | .name "var" false => return true
  | .name "let" false => return followsLet (← second)
  | _ => return false

/-- The head of a loop, and whether it runs over the elements of something. -/
def loopHead : Parser (References × Bool) := do
  if ← declaresInHead then
    let keyword ← word
    let ds ← declarators g keyword true
    let refs := declaratorReferences ds
    if ← isAnyWord ["of", "in"] then
      let (subject, isOf) ← loopSubject g
      return (refs ++ subject, isOf)
    expect .semicolon
    return (refs ++ (← loopRest g), false)
  if ← accept .semicolon then return (← loopRest g, false)
  expressionHead g

/-- A `for` loop after its word. Only one that runs over elements may wait for them. -/
def forRest : Parser References := do
  let t ← peek
  let waits ← acceptWord "await"
  expect .parenOpen
  let (head, isOf) ← loopHead g
  expect .parenClose
  let body ← nested g
  if waits && !isOf then failAt ⟨t.lo, t.hi⟩
  return head ++ body

/-- A `do` loop after its word. Its semicolon may always be left out. -/
def doRest : Parser References := do
  let body ← nested g
  expectWord "while"
  let test ← condition g
  let _ ← accept .semicolon
  return test ++ body

/-! ### Branches -/

/-- A conditional statement after its word. -/
def ifRest : Parser References := do
  let test ← condition g
  let yes ← nested g
  let no ← if ← acceptWord "else" then nested g else pure []
  return test ++ yes ++ no

/-- The statements of a case of a switch. -/
def caseBody : Parser References :=
  iterate [] fun refs => do
    if (← isAnyWord ["case", "default"]) || (← isPunct .braceClose) || (← kind) == .eof then
      return .inr refs
    return .inl (refs ++ (← g (.statement true)).references)

/-- A switch after its word. At most one of its cases is the default. -/
def switchRest : Parser References := do
  let subject ← condition g
  expect .braceOpen
  iterate (subject, false) fun (refs, hasDefault) => do
    let isDefault ← isWord "default"
    if isDefault || (← isWord "case") then
      advance
      if isDefault && hasDefault then fail
      let test ← if isDefault then pure [] else pure (← expression g).references
      expect .colon
      return .inl (refs ++ test ++ (← caseBody g), hasDefault || isDefault)
    expect .braceClose
    return .inr refs

/-- The handler of a `try` statement, if it has one. -/
def handler : Parser References := do
  if !(← acceptWord "catch") then return []
  let param ←
    if ← accept .parenOpen then do
      let pattern ← g (.target false)
      let types ← annotated g
      expect .parenClose
      pure (pattern.references ++ types)
    else pure []
  return param ++ (← blockReferences g)

/-- What a `try` statement does at its end. -/
def finalizer : Parser References := do
  if ← acceptWord "finally" then blockReferences g else return []

/-- A handler without anything that it handles is skipped; what is left is nothing. -/
def strayHandler : Parser Statement := do
  let t ← peek
  if ← isWord "catch" then
    let _ ← recover (handler g)
  let _ ← recover (finalizer g)
  return .expression (.other ⟨t.lo, t.hi⟩ .missing [])

/-! ### Other statements -/

/-- A `return` statement after its word. -/
def returnRest : Parser Statement := do
  if ← acceptEnd then return .returns none
  let e ← expression g
  semicolon
  return .returns (some e)

/-- A jump after its word, with its label if it has one. It refers to nothing. -/
def jumpRest : Parser References := do
  if !(← acceptEnd) then
    let _ ← name
    semicolon
  return []

/-- Resources after `using`, by their references. -/
def resources : Parser References := do
  let ds ← iterate [] fun done => do
    if ← atEnd then return .inr done.reverse
    let done := (← declarator g "var" false) :: done
    if ← accept .comma then return .inl done else return .inr done.reverse
  semicolon
  return declaratorReferences ds

/-- Whether resources are declared with a word, by what follows it. -/
def followsUsing (t : Token) : Parser Bool := do
  if t.newlineBefore then return false else isName t

/-- Resources that are waited for, if they are declared here, by their references. -/
def awaitedResources? : Parser (Option References) := do
  let (t, after) ← secondAndThird
  if t.kind != .name "using" false || !(← followsUsing after) then return none
  advance
  advance
  return some (← resources g)

/-- A statement with a label, after the colon, by its references. -/
def labelled : Parser References := do
  let lo ← position
  if ← acceptWord "function" then return (← functionDeclaration g lo false).references
  nested g

/-- An expression as a statement, which may turn out to be a label or a declaration. -/
def expressionStatement : Parser Statement := do
  let lo ← position
  let e ← expression g
  if let .ident _ w := e then
    if w == "interface" && (← newlineBefore) then
      let _ ← acceptEnd
      return .expression e
    if ← hasTypes then
      if let some s ← typeDeclaration? g lo w then return s
    if ← accept .colon then return .other (← labelled g)
  if ← acceptEnd then return .expression e
  if isOperatorMark (← peek) then return .expression (← g (.operators e 0))
  fail

/-- A statement that starts with a word of its own, if it does. -/
def wordStatement? (w : String) (declares : Bool) : Parser (Option Statement) := do
  let lo ← position
  let other (p : Parser References) : Parser (Option Statement) := do
    advance
    referring p
  match w with
  | "function" => advance; some <$> functionDeclaration g lo false
  | "class" => other (g (.classRest true))
  | "if" => other (ifRest g)
  | "for" => other (forRest g)
  | "while" => other (return (← condition g) ++ (← nested g))
  | "with" => other (return (← condition g) ++ (← nested g))
  | "do" => other (doRest g)
  | "switch" => other (switchRest g)
  | "try" => other (return (← blockReferences g) ++ (← handler g) ++ (← finalizer g))
  | "catch" | "finally" => some <$> strayHandler g
  | "return" => advance; some <$> returnRest g
  | "throw" => other do
    if ← newlineBefore then fail
    let e ← expression g
    semicolon
    return e.references
  | "break" | "continue" => other jumpRest
  | "debugger" => other do semicolon; return []
  | "var" => some <$> variableDeclaration g
  | "const" => if declares then some <$> variableDeclaration g else return none
  | "let" =>
    if !declares then return none
    if followsLet (← second) then some <$> variableDeclaration g else return none
  | "using" =>
    if !declares then return none
    if ← followsUsing (← second) then other (resources g) else return none
  | "await" => if declares then return (← awaitedResources? g).map .other else return none
  | "async" =>
    if !(← startsAsyncFunction) then return none
    advance
    advance
    some <$> functionDeclaration g lo true
  | _ => return none

/-- A declaration of a type that a word opens, if another word follows on the same line, by its
references. -/
def typedStatement? (w : String) : Parser (Option References) := do
  if !(← hasTypes) then return none
  let t ← second
  if w == "const" && t.kind == .name "enum" false then
    advance
    advance
    return some (← enumRest g)
  if !isAnyName t || t.newlineBefore then return none
  match w with
  | "interface" => advance; some <$> interfaceRest g
  | "type" => advance; some <$> aliasRest g
  | "enum" => advance; some <$> enumRest g
  | _ => return none

/-- An import inside a statement is an expression. -/
def importStatement : Parser Statement := do
  match (← second).kind with
  | .punct .parenOpen | .punct .dot =>
    let e ← expression g
    let _ ← acceptEnd
    return .expression e
  | _ => fail

/-- A statement. -/
def statement (declares : Bool) : Parser Statement := do
  match ← kind with
  | .punct .braceOpen => return .other (← blockReferences g)
  | .punct .semicolon => advance; return .other []
  | .name "import" false => importStatement g
  | .name "export" false => fail
  | .name w false => allowingIn <| withoutColon do
    if ["const", "interface", "type", "enum"].contains w then
      if let some refs ← typedStatement? g w then return .other refs
    if let some s ← wordStatement? g w declares then return s
    expressionStatement g
  | _ => allowingIn (withoutColon (expressionStatement g))

/-- Whether a statement at the start of a body asks for strict code. -/
def isStrictDirective : Statement → Bool
  | .expression (.string span (some s)) => s == "use strict" && span.hi == span.lo + 12
  | _ => false

/-- Statements between braces. At the end of a file the closing brace may be missing. -/
def block (directive : Bool) : Parser (List Statement) := do
  expect .braceOpen
  allowingIn <| withoutColon <| iterate ([], false) fun (done, strict) => do
    if (← kind) == .eof then return .inr done.reverse
    if ← accept .braceClose then return .inr done.reverse
    let s ← (if strict then inStrictCode else id) (g (.statement true))
    return .inl (s :: done, strict || (directive && done.isEmpty && isStrictDirective s))

end SchemaDoc.Script.Grammar
