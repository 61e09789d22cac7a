import SchemaDoc.Script.Grammar.Classes

/-!
# Declarations

Variables and functions, and with types also interfaces, aliases, enumerations and namespaces. Of
these only variables and functions are kept; the others count for their references.
-/

namespace SchemaDoc.Script.Grammar

open SchemaDoc.Script.Parser

variable (g : Grammar)

/-! ### Variables -/

/-- Whether a token behind `let` shows that variables are declared, and that `let` is no name. -/
def followsLet (t : Token) : Bool :=
  match t.kind with
  | .name w plain => plain || !isKeyword w || w == "let" || w == "yield" || w == "await"
  | .punct p => p == .braceOpen || p == .bracketOpen
  | _ => false

/-- A declared variable. A pattern needs a value to take apart, unless a loop supplies it or the
declaration only gives types or a constant. -/
def declarator (keyword : String) (inLoop : Bool) : Parser Declarator := do
  let lo ← position
  let pattern ← g (.target (keyword != "var"))
  if let .ident _ := pattern then
    if ← hasTypes then
      let _ ← accept .not
  let types ← annotated g
  if inLoop && (← isAnyWord ["in", "of"]) then return .mk pattern types none
  if ← accept .assign then return .mk pattern types (some (← g .assign))
  if (← read).ambient || (keyword == "const" && !inLoop) then return .mk pattern types none
  match pattern with
  | .ident _ => return .mk pattern types none
  | _ => failAt (← spanFrom lo)

/-- Whether the variable of a loop is missing. -/
def lacksVariable : Parser Bool := do
  if !(← hasTypes) || !(← isAnyWord ["in", "of"]) then return false
  ahead do
    advance
    let _ ← g .assign
    isPunct .parenClose

/-- The variables after `var`, `let` or `const`. In the head of a loop, `in` ends a value after
`var`. -/
def declarators (keyword : String) (inLoop : Bool) : Parser (List Declarator) := do
  if inLoop then
    if ← lacksVariable g then return []
  let allow := if inLoop && keyword == "var" then forbiddingIn else allowingIn
  iterate [] fun done => do
    if (← isPunct .semicolon) || (← kind) == .eof then return .inr done.reverse
    let done := (← allow (declarator g keyword inLoop)) :: done
    if ← accept .comma then return .inl done else return .inr done.reverse

/-- Takes tokens up to the end of a statement. -/
def skipStatement : Parser Unit := do
  let _ ← recover (expression g)
  iterate () fun _ => do
    if ← acceptEnd then return .inr ()
    advance
    match ← kind with
    | .invalid _ => return .inr ()
    | _ => return .inl ()

/-- A declaration of variables from its keyword on. What stands between it and the end of the
statement is skipped. -/
def variableDeclaration : Parser Statement := do
  let keyword ← word
  let ds ← declarators g keyword false
  if !(← acceptEnd) then skipStatement g
  return .declare ds

/-! ### Functions -/

/-- A function declaration after the word that opens it. -/
def functionDeclaration (lo : Nat) (isAsync : Bool) : Parser Statement := do
  let isGenerator ← accept .star
  let n ← name
  let c ← withSuper false (callable g isAsync isGenerator (g .params))
  let f := Expr.function (← spanFrom lo) (some n) c.params c.block c.types
  return .declare [.mk (.ident n) [] (some f)]

/-- Whether an asynchronous function is declared here. -/
def startsAsyncFunction : Parser Bool := do
  if !(← isWord "async") then return false
  let t ← second
  return t.kind == .name "function" false && !t.newlineBefore

/-! ### Types -/

/-- An interface after its word, by its references. -/
def interfaceRest : Parser References := do
  let _ ← word
  let generics ← typeParameters g
  let bases ← if ← acceptWord "extends" then heritage g else pure []
  if ← isWord "extends" then
    iterate () fun _ => do
      if (← isPunct .braceOpen) || (← kind) == .eof then return .inr ()
      advance
      return .inl ()
  let members ← typeMembers g
  return generics ++ bases ++ members

/-- A name for a type after its word, by its references. -/
def aliasRest : Parser References := do
  let _ ← word
  let generics ← typeParameters g
  expect .assign
  let type ← g .type
  semicolon
  return generics ++ type

/-- The value of a member of an enumeration, by its references. Anything but a value stands for the
comma behind the member. -/
def enumValue : Parser References := do
  if ← accept .assign then
    let value ← g .assign
    if !(← isPunct .braceClose) then expect .comma
    return value.references
  if (← isPunct .braceClose) || (← kind) == .eof then return []
  advance
  return []

/-- A member of an enumeration, with the comma behind it. -/
def enumMember : Parser References := do
  match ← kind with
  | .string _ | .numeral (.double _) => advance
  | .punct .bracketOpen =>
    advance
    let _ ← expression g
    expect .bracketClose
  | _ => let _ ← word
  enumValue g

/-- An enumeration after its word, by its references. -/
def enumRest : Parser References := do
  let _ ← word
  expect .braceOpen
  iterate [] fun refs => do
    if ← accept .braceClose then return .inr refs
    return .inl (refs ++ (← enumMember g))

/-- A namespace after its word, by its references. -/
def namespaceRest : Parser References := do
  iterate () fun _ => do
    let _ ← word
    if ← accept .dot then return .inl () else return .inr ()
  g .itemBlock

/-- A module from its name on, which is a text or a single word, by its references. -/
def moduleRest : Parser References := do
  advance
  if ← isPunct .braceOpen then return ← g .itemBlock
  semicolon
  return []

/-- Whether a text comes next. -/
def atString : Parser Bool := do
  match ← kind with
  | .string _ => return true
  | _ => return false

/-- A declaration that a word opens, if it does, by its references. The word has been taken already,
unless it comes next; then it opens one whatever follows. -/
def wordDeclaration? (w : String) (isNext : Bool) : Parser (Option References) := do
  let take : Parser Unit := if isNext then advance else pure ()
  let opens := isNext || (← atName)
  match w with
  | "abstract" =>
    if !isNext && (!(← isWord "class") || (← newlineBefore)) then return none
    take
    expectWord "class"
    some <$> g (.classRest true)
  | "enum" => if opens then take; some <$> enumRest g else return none
  | "interface" => if opens then take; some <$> interfaceRest g else return none
  | "namespace" => if opens then take; some <$> namespaceRest g else return none
  | "type" =>
    if !isNext && ((← newlineBefore) || !opens) then return none
    take
    some <$> aliasRest g
  | "module" =>
    if ← newlineBefore then return none
    take
    if (← kind) == .eof then fail
    if ← atString then some <$> moduleRest g
    else if opens then some <$> namespaceRest g
    else return none
  | _ => return none

/-- A declaration that only counts for its references. -/
def referring (p : Parser References) : Parser (Option Statement) := return some (.other (← p))

/-- A declaration that only gives types, after `declare`, if there is one. A function starts at the
offset of that word. -/
def ambientDeclaration? (lo : Nat) : Parser (Option Statement) :=
  withReader ({ · with ambient := true }) do
    match ← kind with
    | .name "function" false => advance; some <$> functionDeclaration g lo false
    | .name "class" false => advance; referring (g (.classRest true))
    | .name "const" false =>
      if (← second).kind == .name "enum" false then
        advance
        advance
        referring (enumRest g)
      else some <$> variableDeclaration g
    | .name "var" false | .name "let" false => some <$> variableDeclaration g
    | .name "global" _ => referring (moduleRest g)
    | .name w _ => return (← wordDeclaration? g w true).map .other
    | _ => return none

/-- A declaration of the extension with types whose first word has been read as a name, if it is
one. -/
def typeDeclaration? (lo : Nat) (w : String) : Parser (Option Statement) := do
  match w with
  | "declare" => ambientDeclaration? g lo
  | "global" =>
    if ← isPunct .braceOpen then referring (g .itemBlock) else return none
  | _ => return (← wordDeclaration? g w false).map .other

end SchemaDoc.Script.Grammar
