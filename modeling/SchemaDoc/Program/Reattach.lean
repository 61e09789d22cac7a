import SchemaDoc.Program.Basic

/-!
# Comments behind an entry

A line comment behind an entry, on the line the entry starts on, is about that entry, although it
stands in the gap before the next one. Reattaching moves such comments from the leading comments of
the next entry to the trailing comments of the entry before it, in every literal of a program.
Block comments stay where they are. Nothing is left to move afterwards, so a second pass changes
nothing.
-/

namespace SchemaDoc

/-- Whether a comment is a line comment on the line that an entry starts on. -/
def Entry.owns (e : Entry) (c : Comment) : Bool :=
  c.kind == .line && c.line == e.loc.startLine

/-- Moves comments between an entry and the entries after it. -/
def reattachAfter : Entry → List Entry → List Entry
  | e, [] => [e]
  | e, next :: rest =>
    let moved := next.comments.leading.filter e.owns
    let kept := next.comments.leading.filter (!e.owns ·)
    e.withComments { e.comments with trailing := e.comments.trailing ++ moved } ::
      reattachAfter (next.withComments { next.comments with leading := kept }) rest

/-- Moves comments between adjacent entries. -/
def reattachSiblings : List Entry → List Entry
  | [] => []
  | e :: rest => reattachAfter e rest

mutual
/-- An expression with the comments of all its literals moved. -/
def Expr.reattach : Expr → Expr
  | .lit loc v => .lit loc v
  | .regex loc pattern flags => .regex loc pattern flags
  | .template loc chunks exprs => .template loc chunks (reattachExprs exprs)
  | .ident loc name => .ident loc name
  | .object loc entries => .object loc (reattachSiblings (reattachValues entries))
  | .array loc entries => .array loc (reattachSiblings (reattachValues entries))
  | .call loc constructs callee args =>
    .call loc constructs callee.reattach (reattachExprs args)
  | .member loc object property => .member loc object.reattach property
  | .function loc f => .function loc f.reattach
  | .assign loc target value => .assign loc target.reattach value.reattach
  | .unary loc op arg => .unary loc op arg.reattach
  | .binary loc op left right => .binary loc op left.reattach right.reattach
  | .conditional loc test yes no => .conditional loc test.reattach yes.reattach no.reattach
  | .unmodelled loc label => .unmodelled loc label

/-- Expressions with their comments moved. -/
def reattachExprs : List Expr → List Expr
  | [] => []
  | e :: es => e.reattach :: reattachExprs es

/-- Entries with the comments inside their values moved. -/
def reattachValues : List Entry → List Entry
  | [] => []
  | .mk kind value loc comments :: es =>
    .mk kind value.reattach loc comments :: reattachValues es

/-- A function with the comments of its defaults and its body moved. Defaults inside patterns are
left alone. -/
def FunctionLit.reattach : FunctionLit → FunctionLit
  | .mk name params body => .mk name (reattachParams params) body.reattach

/-- Parameters with the comments of their defaults moved. -/
def reattachParams : List Param → List Param
  | [] => []
  | .mk binding default rest :: ps => .mk binding (reattach? default) rest :: reattachParams ps

/-- An expression that may be missing, with its comments moved. -/
def reattach? : Option Expr → Option Expr
  | none => none
  | some e => some e.reattach

/-- The body of a function with its comments moved. -/
def FunctionBody.reattach : FunctionBody → FunctionBody
  | .expr value => .expr value.reattach
  | .block statements => .block (reattachBody statements)

/-- The statements of a body with their comments moved. -/
def reattachBody : List BodyStatement → List BodyStatement
  | [] => []
  | .declare ds :: ss => .declare (reattachDeclarators ds) :: reattachBody ss
  | .returns e :: ss => .returns (reattach? e) :: reattachBody ss
  | .other :: ss => .other :: reattachBody ss

/-- Declarators with the comments of their initializers moved. -/
def reattachDeclarators : List Declarator → List Declarator
  | [] => []
  | .mk binding init :: ds => .mk binding (reattach? init) :: reattachDeclarators ds
end

/-- A statement with the comments of its literals moved. -/
def Statement.reattach (s : Statement) : Statement :=
  { s with
    kind := match s.kind with
      | .declare exported ds => .declare exported (reattachDeclarators ds)
      | .expression e => .expression e.reattach
      | .exportDefault e => .exportDefault e.reattach
      | .imports source bindings => .imports source bindings
      | .exportNames names => .exportNames names
      | .other => .other }

/-- A program with the comments of its literals moved. -/
def Program.reattach (p : Program) : Program := { p with body := p.body.map Statement.reattach }

end SchemaDoc
