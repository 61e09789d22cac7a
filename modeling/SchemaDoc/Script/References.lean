import SchemaDoc.Script.Tree

/-!
# References to modules

The module specifiers that a file mentions: the source of every import, and the argument of every
call of `require` that is written plainly, wherever it stands. They are listed in the order of the
text, each one once.
-/

namespace SchemaDoc.Script

/-- The name that a call refers to a module by. -/
def requireName : String := "require"

/-- The specifier of a call, if it refers to a module. -/
def specifierOf (callee : Expr) (args : List Element) : References :=
  match callee, args with
  | .ident _ name, .plain (.string _ (some s)) :: _ => if name == requireName then [s] else []
  | .ident _ name, .spread _ (.string _ (some s)) :: _ => if name == requireName then [s] else []
  | _, _ => []

/-- The references in a key. -/
def Key.references : Key → References
  | .text _ => []
  | .computed _ refs => refs

mutual
/-- The references in an expression. -/
def Expr.references : Expr → References
  | .string _ _ => []
  | .literal _ _ => []
  | .regex _ _ _ => []
  | .template _ _ exprs => exprReferences exprs
  | .ident _ _ => []
  | .object _ members => memberReferences members
  | .array _ elements => elementReferences elements
  | .call _ constructs callee args types =>
    (if constructs then [] else specifierOf callee args) ++ callee.references ++
      elementReferences args ++ types
  | .member _ object property => object.references ++ property.references
  | .function _ _ params body types => paramReferences params ++ body.references ++ types
  | .arrow _ params body types => paramReferences params ++ body.references ++ types
  | .assign _ target value => target.references ++ value.references
  | .destructure _ target value => target.references ++ value.references
  | .unary _ _ arg => arg.references
  | .binary _ _ left right => left.references ++ right.references
  | .conditional _ test yes no => test.references ++ yes.references ++ no.references
  | .wrapped _ _ inner types => inner.references ++ types
  | .other _ _ refs => refs

/-- The references in expressions. -/
def exprReferences : List Expr → References
  | [] => []
  | e :: es => e.references ++ exprReferences es

/-- The references in a property. -/
def Property.references : Property → References
  | .named _ => []
  | .computed key => key.references
  | .hidden => []

/-- The references in elements. -/
def elementReferences : List Element → References
  | [] => []
  | .plain e :: es => e.references ++ elementReferences es
  | .spread _ e :: es => e.references ++ elementReferences es

/-- The references in members. -/
def memberReferences : List Member → References
  | [] => []
  | m :: ms => m.references ++ memberReferences ms

/-- The references in a member. -/
def Member.references : Member → References
  | .keyed _ key value => key.references ++ value.references
  | .shorthand _ _ => []
  | .defaulted _ _ default => default.references
  | .method _ key params body types =>
    key.references ++ paramReferences params ++ body.references ++ types
  | .accessor _ _ key refs => key.references ++ refs
  | .spread _ value => value.references

/-- The references in a pattern. -/
def Pattern.references : Pattern → References
  | .ident _ => []
  | .object properties => patternReferences properties
  | .other refs => refs

/-- The references in the properties of a pattern. -/
def patternReferences : List PatternProperty → References
  | [] => []
  | .bind key _ default :: ps =>
    key.references ++ optionReferences default ++ patternReferences ps
  | .other refs :: ps => refs ++ patternReferences ps

/-- The references in an expression that may be missing. -/
def optionReferences : Option Expr → References
  | none => []
  | some e => e.references

/-- The references in parameters. -/
def paramReferences : List Param → References
  | [] => []
  | .mk pattern types default _ :: ps =>
    pattern.references ++ types ++ optionReferences default ++ paramReferences ps

/-- The references in the body of a function. -/
def Body.references : Body → References
  | .expr value => value.references
  | .block statements => statementReferences statements

/-- The references in declarators. -/
def declaratorReferences : List Declarator → References
  | [] => []
  | .mk pattern types init :: ds =>
    pattern.references ++ types ++ optionReferences init ++ declaratorReferences ds

/-- The references in a statement. -/
def Statement.references : Statement → References
  | .declare declarators => declaratorReferences declarators
  | .expression value => value.references
  | .returns value => optionReferences value
  | .other refs => refs

/-- The references in statements. -/
def statementReferences : List Statement → References
  | [] => []
  | s :: ss => s.references ++ statementReferences ss
end

/-- The references in a top-level item. -/
def Item.references (item : Item) : References :=
  match item.kind with
  | .statement s => s.references
  | .exported declarators => declaratorReferences declarators
  | .imports source _ => source.toList
  | .exportDefault value => value.references
  | .exportNames _ => []
  | .other refs => refs

/-- The references of a file, each one once, in the order of first mention. -/
def File.references (file : File) : References :=
  (file.items.flatMap Item.references).eraseDups

end SchemaDoc.Script
