import SchemaDoc.Script.Grammar.Expressions

/-!
# Markup elements

An element among expressions is read for its references only. The text between its tags is no
sequence of tokens: after the mark that closes a tag, the next brace or tag is looked for in the
text itself. Names and quoted values in a tag have their own rules, too: a name may have hyphens in
it, and a quoted value ends at the next quote.
-/

namespace SchemaDoc.Script.Grammar

open SchemaDoc.Script.Parser

variable (g : Grammar)

/-- The place after some text. -/
def past (text : List Char) (c : Cursor) : Cursor :=
  ⟨c.rest.drop text.length, c.offset + Text.byteLength text⟩

/-- Goes on inside an element, after the next token, at the next brace or tag. -/
def enterText : Parser Unit := do
  let place := (← peek).after
  moveTo (past (place.rest.takeWhile fun c => c != '<' && c != '\x7b') place)

/-! ### Tags -/

/-- A name without colons and dots. -/
def tagWord : Parser String := do
  let t ← peek
  match t.kind with
  | .name w _ =>
    let more := t.after.rest.takeWhile fun c => Text.isIdentifierPart c || c == '-'
    moveTo (past more t.after)
    return w ++ String.ofList more
  | _ => fail

/-- A name that may have another one in front of it, with a colon between them. -/
def spacedName : Parser String := do
  let first ← tagWord
  if ← accept .colon then return first ++ ":" ++ (← tagWord) else return first

/-- The name of a tag, which may be dotted. -/
def tagName : Parser String := do
  let first ← spacedName
  iterate first fun name => do
    if ← accept .dot then return .inl (name ++ "." ++ (← tagWord)) else return .inr name

/-- The value between quotes after the next token, which is an equals sign: its end. -/
def quotedEnd? (c : Cursor) : Option Cursor :=
  let start := (Gap.read c false).after
  match start.rest with
  | quote :: rest =>
    if quote != '"' && quote != '\'' then none
    else
      let text := rest.takeWhile (· != quote)
      if text.length == rest.length then none else some (past (quote :: text ++ [quote]) start)
  | [] => none

/-- The value of an attribute after the next token, which is an equals sign. -/
def attributeValue : Parser References := do
  let quoted := quotedEnd? (← peek).after
  advance
  match quoted with
  | some place => moveTo place; return []
  | none =>
    let t ← peek
    match t.kind with
    | .punct .braceOpen =>
      advance
      if ← isPunct .braceClose then failAt ⟨t.lo, t.lo⟩
      let e ← expression g
      expect .braceClose
      return e.references
    | .punct .less =>
      let refs ← g .element
      expect .greater
      return refs
    | _ => fail

/-- An attribute of a tag. -/
def tagAttribute : Parser References := do
  if ← accept .braceOpen then
    expect .ellipsis
    let e ← g .assign
    expect .braceClose
    return e.references
  let _ ← spacedName
  if ← isPunct .assign then
    withReader ({ · with inConditional := false, colonExpected := false }) (attributeValue g)
  else return []

/-- The attributes of a tag. -/
def tagAttributes : Parser References :=
  iterate [] fun refs => do
    if ← isAnyPunct [.slash, .greater] then return .inr refs
    return .inl (refs ++ (← tagAttribute g))

/-! ### Elements -/

/-- An expression among the children of an element; a spread counts as one, and so does nothing. The
closing brace is not taken. -/
def braced : Parser References := do
  expect .braceOpen
  if ← isPunct .braceClose then return []
  let _ ← accept .ellipsis
  let e ← expression g
  if ← isPunct .braceClose then return e.references else fail

/-- A closing tag from its name on, up to its last mark. -/
def closingName : Parser String := do
  let name ← if ← isPunct .greater then pure "" else tagName
  if ← isPunct .greater then return name else fail

/-- What stands inside an element, up to the last mark of its closing tag, which has the same
name. -/
def children (name : String) : Parser References :=
  iterate [] fun refs => do
    let t ← peek
    match t.kind with
    | .punct .braceOpen =>
      let more ← braced g
      enterText
      return .inl (refs ++ more)
    | .punct .less =>
      if (← second).kind == .punct .slash then
        advance
        advance
        if (← closingName) == name then return .inr refs else failAt ⟨t.lo, t.hi⟩
      else
        let more ← g .element
        enterText
        return .inl (refs ++ more)
    | _ => fail

/-- An element, up to its last mark, which is not taken. One without a name has no attributes. -/
def markup : Parser References := do
  expect .less
  if ← isPunct .greater then
    enterText
    return ← children g ""
  let name ← tagName
  let types ←
    if (← hasTypes) && (← isPunct .less) then
      pure ((← attempt (some <$> typeArguments g)).getD [])
    else pure []
  let refs ← tagAttributes g
  if ← accept .slash then
    if ← isPunct .greater then return refs ++ types else fail
  if !(← isPunct .greater) then fail
  enterText
  return refs ++ types ++ (← children g name)

end SchemaDoc.Script.Grammar
