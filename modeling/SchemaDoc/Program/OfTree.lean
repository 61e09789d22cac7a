import SchemaDoc.Number.Notation
import SchemaDoc.Program.Basic
import SchemaDoc.Script.References

/-!
# Programs from syntax trees

Turning a tree into a program drops what is not modelled and gives comments to nodes by their
position alone: the comments between two top-level statements lead the second one; inside a literal
the comments in the gap before an entry lead it, and those behind the last entry trail it if they
start on the line it ends on.

So a comment behind an entry on the same line leads the next entry at first;
`Program.reattach` moves it.
-/

namespace SchemaDoc

open Script (Span Literal)

/-- What is known of a file besides its tree. -/
structure Layout where
  /-- The text that offsets refer to. -/
  text : List Char
  /-- Where the lines after the first one start. -/
  lineStarts : List Nat
  /-- All comments, in the order of the text. -/
  comments : List Comment

namespace Layout

/-- The line of an offset. -/
def line (l : Layout) (offset : Nat) : Nat := Text.lineAt l.lineStarts offset

/-- Where a stretch stands. It ends on the line of its last byte. -/
def loc (l : Layout) (s : Span) : Loc :=
  { lo := s.lo, hi := s.hi, startLine := l.line s.lo, endLine := l.line (max (s.hi - 1) s.lo) }

/-- The comments that start between two offsets. -/
def between (l : Layout) (lo hi : Nat) : List Comment :=
  l.comments.filter fun c => lo ≤ c.pos && c.pos < hi

/-- Puts a comment at its place among comments in the order of the text, and in the place of one
that starts where it does. -/
def insertComment (c : Comment) : List Comment → List Comment
  | [] => [c]
  | d :: ds =>
    if c.pos < d.pos then c :: d :: ds
    else if c.pos = d.pos then c :: ds
    else d :: insertComment c ds

/-- Comments in the order of the text; of several that start at one place the first one counts. -/
def inOrder (cs : List Comment) : List Comment := cs.foldr insertComment []

/-- The layout of a text with its comments. -/
def of (text : List Char) (raw : List Script.RawComment) : Layout :=
  let lineStarts := Text.lineStarts 0 text
  { text
    lineStarts
    comments := inOrder <| raw.map fun c =>
      { kind := c.kind, text := c.text, pos := c.pos, line := Text.lineAt lineStarts c.pos } }

/-! ### Comments of literals -/

/-- Gives every entry the comments between the end of the one before and its start. -/
def attachLeading (l : Layout) : Nat → List Entry → List Entry
  | _, [] => []
  | from', e :: es =>
    e.withComments { e.comments with leading := l.between from' e.loc.lo } ::
      attachLeading l e.loc.hi es

/-- Gives the last entry the comments behind it that start on its last line. -/
def attachTrailing (l : Layout) (hi : Nat) : List Entry → List Entry
  | [] => []
  | [e] =>
    let behind := (l.between e.loc.hi hi).filter (·.line == e.loc.endLine)
    [e.withComments { e.comments with trailing := behind }]
  | e :: es => e :: attachTrailing l hi es

/-- The entries of a literal with the comments between them. -/
def attach (l : Layout) (loc : Loc) (entries : List Entry) : List Entry :=
  l.attachTrailing loc.hi (l.attachLeading loc.lo entries)

/-! ### Expressions -/

/-- The text of a key; a computed one is shown as its source between brackets. -/
def keyText (l : Layout) : Script.Key → String
  | .text s => s
  | .computed span _ =>
    "[" ++ String.ofList ((Text.slice? l.text span.lo span.hi).getD []) ++ "]"

/-- The name of a property, if the program knows it. -/
def propertyName? : Script.Property → Option String
  | .named name => some name
  | .computed key =>
    match key.unwrapped with
    | .string _ s => s
    | .literal _ (.number x) => some x.format
    | _ => none
  | .hidden => none

/-- Whether an assignment to an expression is modelled: names and properties are. -/
def isAssignable : Script.Expr → Bool
  | .ident _ _ => true
  | .member _ _ _ => true
  | _ => false

mutual
/-- An expression that stands at a place. -/
def exprAt (l : Layout) (loc : Loc) : Script.Expr → Expr
  | .string _ s => .lit loc (.string (s.getD ""))
  | .literal _ v => .lit loc v
  | .regex _ pattern flags => .regex loc pattern flags
  | .template _ chunks es => .template loc chunks (exprs l es)
  | .ident _ name => .ident loc name
  | .object _ ms => .object loc (l.attach loc (members l ms))
  | .array _ es => .array loc (l.attach loc (elements l es))
  | .call _ constructs callee args _ =>
    .call loc constructs (exprAt l (l.loc callee.span) callee) (arguments l args)
  | .member _ object property =>
    match propertyName? property with
    | some name => .member loc (exprAt l (l.loc object.span) object) name
    | none => .unmodelled loc "computed member"
  | .function _ name ps b _ => .function loc (.mk name (params l ps) (body l b))
  | .arrow _ ps b _ => .function loc (.mk none (params l ps) (body l b))
  | .assign _ target value =>
    if isAssignable target then
      .assign loc (exprAt l (l.loc target.span) target) (exprAt l (l.loc value.span) value)
    else .unmodelled loc "destructuring assignment"
  | .destructure _ _ _ => .unmodelled loc "destructuring assignment"
  | .unary _ op arg => .unary loc op (exprAt l (l.loc arg.span) arg)
  | .binary _ op left right =>
    .binary loc op (exprAt l (l.loc left.span) left) (exprAt l (l.loc right.span) right)
  | .conditional _ test yes no =>
    .conditional loc (exprAt l (l.loc test.span) test) (exprAt l (l.loc yes.span) yes)
      (exprAt l (l.loc no.span) no)
  | .wrapped _ _ inner _ => exprAt l loc inner
  | .other _ form _ => .unmodelled loc form.label

/-- Expressions where they stand. -/
def exprs (l : Layout) : List Script.Expr → List Expr
  | [] => []
  | e :: es => exprAt l (l.loc e.span) e :: exprs l es

/-- The arguments of a call; a spread one is not modelled. -/
def arguments (l : Layout) : List Script.Element → List Expr
  | [] => []
  | .plain e :: es => exprAt l (l.loc e.span) e :: arguments l es
  | .spread lo e :: es => .unmodelled (l.loc ⟨lo, e.span.hi⟩) "spread argument" :: arguments l es

/-- The entries of an array. -/
def elements (l : Layout) : List Script.Element → List Entry
  | [] => []
  | .plain e :: es =>
    .mk .element (exprAt l (l.loc e.span) e) (l.loc e.span) .none :: elements l es
  | .spread lo e :: es =>
    .mk .spread (exprAt l (l.loc e.span) e) (l.loc ⟨lo, e.span.hi⟩) .none :: elements l es

/-- The entry of a member of an object. -/
def entry (l : Layout) : Script.Member → Entry
  | .keyed span key value =>
    .mk (.keyed (l.keyText key)) (exprAt l (l.loc value.span) value) (l.loc span) .none
  | .shorthand span name => .mk (.keyed name) (.ident (l.loc span) name) (l.loc span) .none
  | .defaulted span name _ =>
    .mk (.keyed name) (.unmodelled (l.loc span) "assignment property") (l.loc span) .none
  | .method span key ps b _ =>
    .mk (.keyed (l.keyText key))
      (.function (l.loc span) (.mk (some (l.keyText key)) (params l ps) (body l b)))
      (l.loc span) .none
  | .accessor span kind key _ =>
    .mk (.keyed (l.keyText key)) (.unmodelled (l.loc span) kind.label) (l.loc span) .none
  | .spread span value => .mk .spread (exprAt l (l.loc value.span) value) (l.loc span) .none

/-- The entries of an object. -/
def members (l : Layout) : List Script.Member → List Entry
  | [] => []
  | m :: ms => entry l m :: members l ms

/-- An expression that may be missing. -/
def expr? (l : Layout) : Option Script.Expr → Option Expr
  | none => none
  | some e => some (exprAt l (l.loc e.span) e)

/-- The left-hand side of a declaration. -/
def binding (l : Layout) : Script.Pattern → Binding
  | .ident name => .ident name
  | .object ps => .object (properties l ps)
  | .other _ => .unsupported

/-- The properties of a pattern that bind a name. -/
def properties (l : Layout) : List Script.PatternProperty → List PatternProp
  | [] => []
  | .bind key name default :: ps =>
    .mk (l.keyText key) name (expr? l default) :: properties l ps
  | .other _ :: ps => properties l ps

/-- The parameters of a function. -/
def params (l : Layout) : List Script.Param → List Param
  | [] => []
  | .mk pattern _ default rest :: ps =>
    .mk (binding l pattern) (expr? l default) rest :: params l ps

/-- The body of a function. -/
def body (l : Layout) : Script.Body → FunctionBody
  | .expr e => .expr (exprAt l (l.loc e.span) e)
  | .block ss => .block (bodyStatements l ss)

/-- The statements of a body. -/
def bodyStatements (l : Layout) : List Script.Statement → List BodyStatement
  | [] => []
  | .declare ds :: ss => .declare (declarators l ds) :: bodyStatements l ss
  | .returns e :: ss => .returns (expr? l e) :: bodyStatements l ss
  | .expression _ :: ss => .other :: bodyStatements l ss
  | .other _ :: ss => .other :: bodyStatements l ss

/-- Declared variables. -/
def declarators (l : Layout) : List Script.Declarator → List Declarator
  | [] => []
  | .mk pattern _ init :: ds => .mk (binding l pattern) (expr? l init) :: declarators l ds
end

/-- An expression where it stands. -/
def expr (l : Layout) (e : Script.Expr) : Expr := l.exprAt (l.loc e.span) e

/-! ### Statements -/

/-- What a top-level item is. -/
def statementKind (l : Layout) : Script.ItemKind → StatementKind
  | .statement (.declare ds) => .declare false (l.declarators ds)
  | .statement (.expression e) => .expression (l.expr e)
  | .statement (.returns _) => .other
  | .statement (.other _) => .other
  | .exported ds => .declare true (l.declarators ds)
  | .imports source bindings => .imports (source.getD "") bindings
  | .exportDefault e => .exportDefault (l.expr e)
  | .exportNames names => .exportNames names
  | .other _ => .other

/-- The statements of a file, each with the comments between the end of the one before and its
start. -/
def statements (l : Layout) : Nat → List Script.Item → List Statement
  | _, [] => []
  | from', item :: items =>
    let loc := l.loc item.span
    { kind := l.statementKind item.kind
      loc
      comments := { leading := l.between from' loc.lo, trailing := [] } } ::
      statements l loc.hi items

end Layout

end SchemaDoc
