import SchemaDoc.Program.Basic

/-!
# Names

The names that a program introduces at top level. Resolving a name may lead to another one, and the
names that there are bound how far that goes.
-/

namespace SchemaDoc

/-- The names that a binding introduces. -/
def Binding.names : Binding → List String
  | .ident name => [name]
  | .object properties => properties.map PatternProp.name
  | .unsupported => []

/-- The names that a statement introduces at top level. -/
def Statement.names (s : Statement) : List String :=
  match s.kind with
  | .declare _ ds => ds.flatMap fun d => d.binding.names
  | .imports _ bindings => bindings.map Script.ImportBinding.localName
  | _ => []

/-- The names that a program introduces at top level, as often as it does. -/
def Program.names (p : Program) : List String := p.body.flatMap Statement.names

end SchemaDoc
