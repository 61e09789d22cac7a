import SchemaDoc.Program.Basic

/-!
# The expressions of a program

An expression may stand deep inside another one: in the body of a function, in an argument, in the
value of an entry, in what a parameter or a property of a pattern is if it is missing. This file says
which expressions an expression is made of directly (`Expr.parts`), and which ones a program has at
all (`Program.Has`). The names of a pattern and the keys of an object are no expressions.
-/

namespace SchemaDoc

/-- What the properties of a pattern are if they are missing. -/
def Binding.defaults : Binding → List Expr
  | .object properties => properties.filterMap PatternProp.default
  | _ => []

/-- The expressions of a parameter. -/
def Param.parts (p : Param) : List Expr := p.binding.defaults ++ p.default.toList

/-- The expressions of a declared variable. -/
def Declarator.parts (d : Declarator) : List Expr := d.binding.defaults ++ d.init.toList

/-- The expressions of a statement in the body of a function. -/
def BodyStatement.parts : BodyStatement → List Expr
  | .declare declarators => declarators.flatMap Declarator.parts
  | .returns value => value.toList
  | .other => []

/-- The expressions of the body of a function. -/
def FunctionBody.parts : FunctionBody → List Expr
  | .expr value => [value]
  | .block statements => statements.flatMap BodyStatement.parts

/-- The expressions of a function. -/
def FunctionLit.parts (f : FunctionLit) : List Expr :=
  f.params.flatMap Param.parts ++ f.body.parts

/-- The expressions that an expression is made of, one level below it. -/
def Expr.parts : Expr → List Expr
  | .template _ _ exprs => exprs
  | .object _ entries => entries.map Entry.value
  | .array _ entries => entries.map Entry.value
  | .call _ _ callee args => callee :: args
  | .member _ owner _ => [owner]
  | .function _ f => f.parts
  | .assign _ target value => [target, value]
  | .unary _ _ arg => [arg]
  | .binary _ _ left right => [left, right]
  | .conditional _ test yes no => [test, yes, no]
  | .lit _ _ | .regex _ _ _ | .ident _ _ | .unmodelled _ _ => []

/-- The expressions of a top-level statement. -/
def StatementKind.parts : StatementKind → List Expr
  | .declare _ declarators => declarators.flatMap Declarator.parts
  | .expression value => [value]
  | .exportDefault value => [value]
  | .imports _ _ | .exportNames _ | .other => []

/-- A program has an expression: it stands in a statement, or in another expression. -/
inductive Program.Has (p : Program) : Expr → Prop
  | top {s : Statement} {e : Expr} (hs : s ∈ p.body) (he : e ∈ s.kind.parts) : p.Has e
  | inside {e part : Expr} (he : p.Has e) (hpart : part ∈ e.parts) : p.Has part

end SchemaDoc
