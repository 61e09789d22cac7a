import SchemaDoc.Script.Grammar.Statements

/-!
# Top-level items

Imports and exports, and statements besides. Exports that take their names from another module are
not followed, and neither is what they mention. From the first import or export on, a file is
strict code.
-/

namespace SchemaDoc.Script.Grammar

open SchemaDoc.Script.Parser

variable (g : Grammar)

/-! ### Imports -/

/-- A name in an import or an export, which may be written as a string. -/
def moduleName : Parser String := do
  match ← kind with
  | .string s => advance; return s.getD ""
  | _ => word

/-- Takes the attributes of an import. They belong to the extension with types. -/
def importAttributes : Parser Unit := do
  if !(← hasTypes) || (← newlineBefore) then return
  if ← isAnyWord ["with", "assert"] then
    advance
    expect .braceOpen
    let _ ← members g

/-- The source of an import or an export, with its attributes. -/
def moduleSource : Parser (Option String) := do
  match ← kind with
  | .string s =>
    advance
    importAttributes g
    return s
  | _ => fail

/-- Whether the word `type` marks the name after it as the name of a type. In front of `as` it is a
name itself, unless `as` is the name, which shows in what comes after. -/
def marksType (s : Surroundings) (next : Token) : Bool :=
  match next.kind with
  | .name "as" _ =>
    let third := (Token.next s next.after).1
    match third.kind with
    | .name "as" _ => isAnyName (Token.next s third.after).1
    | .name _ _ => false
    | _ => true
  | .name _ _ | .string _ => true
  | _ => false

/-- Takes a word that only marks the name after it as the name of a type. -/
def skipTypeMark : Parser Unit := do
  if !(← hasTypes) then return
  match ← kind with
  | .name "type" _ => if marksType (← read).surroundings (← second) then advance
  | _ => return

/-- A name between the braces of an import. -/
def importName : Parser ImportBinding := do
  skipTypeMark
  let t ← peek
  let imported ← moduleName
  if ← acceptWord "as" then return .named imported (← name)
  if isAnyName t then return .named imported imported else failAt ⟨t.lo, t.hi⟩

/-- The bindings of an import between braces or behind a star, if there are any. -/
def importRest : Parser (List ImportBinding) := do
  if ← accept .star then
    expectWord "as"
    return [.whole (← name)]
  if ← accept .braceOpen then commaList .braceClose importName else return []

/-- The end of an import that gives a name to a namespace, after its equals sign. -/
def importEquals : Parser ItemKind := do
  if (← isWord "require") && (← second).kind == .punct .parenOpen then
    advance
    advance
    if !(← atString) then fail
    advance
    expect .parenClose
  else
    let _ ← word
    dottedRest name
  semicolon
  return .other []

/-- The source of an import after its bindings. -/
def importSource (bindings : List ImportBinding) : Parser ItemKind := do
  expectWord "from"
  let source ← moduleSource g
  semicolon
  return .imports source bindings

/-- Whether a word in front of an import is a mark and not the name that is imported: another name
follows, and it is not the word in front of the source. -/
def marksImport (mark : String) : Parser Bool := do
  if !(← atName) then return false
  if !(← isWord "from") then return true
  let t ← second
  return t.kind == .name "from" false || (mark == "type" && t.kind == .punct .assign)

/-- An import that starts with a name. -/
def namedImport : Parser ItemKind := do
  let first ← name
  let isMark := first == "source" || first == "defer" || (first == "type" && (← hasTypes))
  if isMark && (← isAnyPunct [.star, .braceOpen]) then
    return ← importSource g (← importRest)
  let first ← if isMark && (← marksImport first) then name else pure first
  if (← hasTypes) && (← isPunct .assign) then
    advance
    return ← importEquals
  if !(← isWord "from") then expect .comma
  importSource g (.default first :: (← importRest))

/-- An import after its word. -/
def importItem : Parser ItemKind := do
  match ← kind with
  | .string _ =>
    let source ← moduleSource g
    let _ ← acceptEnd
    return .imports source []
  | _ =>
    if ← atName then namedImport g else importSource g (← importRest)

/-! ### Exports -/

/-- A name between the braces of an export, and the name it is exported under. -/
def exportName : Parser (String × String) := do
  skipTypeMark
  let name ← moduleName
  if ← acceptWord "as" then return (name, ← moduleName)
  return (name, name)

/-- Takes the source of names that are exported from another module. -/
def exportSource : Parser ItemKind := do
  expectWord "from"
  let _ ← moduleSource g
  semicolon
  return .other []

/-- Names that are exported, unless they come from another module. -/
def exportNames : Parser ItemKind := do
  expect .braceOpen
  let names ← commaList .braceClose exportName
  if ← isWord "from" then exportSource g
  else
    let _ ← acceptEnd
    return .exportNames names

/-- Everything that another module exports, or names that are exported. -/
def exportMany : Parser ItemKind := do
  if ← accept .star then
    if ← acceptWord "as" then
      let _ ← moduleName
    exportSource g
  else exportNames g

/-- A function as the default export, after the word that opens it. -/
def defaultFunction (lo : Nat) (isAsync : Bool) : Parser ItemKind := do
  let isGenerator ← accept .star
  let n ← name? name
  let c ← withSuper false (callable g isAsync isGenerator (g .params))
  return .exportDefault (.function (← spanFrom lo) n c.params c.block c.types)

/-- The default export after its word. -/
def exportDefault : Parser ItemKind := do
  let lo ← position
  if ← hasTypes then
    if ← isWord "abstract" then
      let t ← second
      if t.kind == .name "class" false && !t.newlineBefore then
        advance
        advance
        return .other (← g (.classRest false))
    if ← acceptWord "interface" then return .other (← interfaceRest g)
  if ← acceptWord "class" then return .other (← g (.classRest false))
  if ← startsAsyncFunction then
    advance
    advance
    return ← defaultFunction g lo true
  if ← acceptWord "function" then return ← defaultFunction g lo false
  let e ← allowingIn (g .assign)
  semicolon
  return .exportDefault e

/-- A declaration as an exported item. -/
def exported : Statement → ItemKind
  | .declare ds => .exported ds
  | s => .other s.references

/-- A declaration that is exported, if one of those without types comes next. -/
def exportDeclaration? : Parser (Option Statement) := do
  let lo ← position
  match ← kind with
  | .name "class" false => advance; referring (g (.classRest true))
  | .name "function" false => advance; some <$> functionDeclaration g lo false
  | .name "async" false =>
    if !(← startsAsyncFunction) then return none
    advance
    advance
    some <$> functionDeclaration g lo true
  | .name "var" false => some <$> variableDeclaration g
  | .name "const" false =>
    if (← hasTypes) && (← second).kind == .name "enum" false then
      advance
      advance
      referring (enumRest g)
    else some <$> variableDeclaration g
  | .name "let" false =>
    if followsLet (← second) then some <$> variableDeclaration g else return none
  | _ => return none

/-- An export of the extension with types, if it is one. A declaration that is none after all is
read in another way. -/
def typedExport? : Parser (Option ItemKind) := do
  let lo ← position
  if ← acceptWord "declare" then
    if let some s ← ambientDeclaration? g lo then return some (exported s)
  if let .name w _ ← kind then
    if let some refs ← attempt (wordDeclaration? g w true) then return some (.other refs)
  if ← acceptWord "import" then
    if (← isWord "type") && (← isName (← second)) then advance
    let _ ← word
    expect .assign
    return some (← importEquals)
  if ← accept .assign then
    let e ← expression g
    semicolon
    return some (.other e.references)
  if ← acceptWord "as" then
    expectWord "namespace"
    let _ ← name
    semicolon
    return some (.other [])
  if ← acceptWord "type" then return some (← exportMany g)
  return none

/-- An export after its word. -/
def exportItem : Parser ItemKind := do
  if ← hasTypes then
    if let some i ← typedExport? g then return i
  if ← acceptWord "default" then return ← exportDefault g
  match ← exportDeclaration? g with
  | some s => return exported s
  | none => exportMany g

/-! ### Items -/

/-- Whether an import comes next that is no expression. -/
def startsImport : Parser Bool := do
  if !(← isWord "import") then return false
  match (← second).kind with
  | .punct .parenOpen | .punct .dot => return false
  | _ => return true

/-- What a top-level item is. -/
def itemKind : Parser ItemKind := do
  if ← startsImport then
    advance
    importItem g
  else if ← acceptWord "export" then exportItem g
  else return .statement (← g (.statement true))

/-- A top-level item. Where only a stray keyword is left of it, that is all there is of it. -/
def item : Parser Item := do
  let lo ← position
  let kind ← itemKind g
  match kind with
  | .statement (.expression (.other span .missing _)) => return ⟨kind, span⟩
  | _ => return ⟨kind, ← spanFrom lo⟩

/-- Runs a parser in a file that has imports or exports. -/
def insideModule {α : Type} (p : Parser α) : Parser α :=
  withSurroundings ({ · with strict := true, isModule := true }) p

/-- Top-level items up to a closing brace, if they stand between braces, or to the end of the file.
Exports between braces do not make a module. -/
def itemList (braces : Bool) : Parser (List Item) :=
  iterate ([], false) fun (done, isModule) => do
    if (← kind) == .eof then return .inr done.reverse
    if braces && (← isPunct .braceClose) then
      advance
      return .inr done.reverse
    let isModule := isModule || (← startsImport) || (!braces && (← isWord "export"))
    let i ← (if isModule then insideModule else id) (item g)
    return .inl (i :: done, isModule)

/-- Top-level items between braces, by their references. -/
def itemBlock : Parser References := do
  expect .braceOpen
  return (← allowingIn (withoutColon (itemList g true))).flatMap Item.references

end SchemaDoc.Script.Grammar
