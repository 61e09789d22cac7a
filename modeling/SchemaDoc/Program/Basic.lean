import SchemaDoc.Script.Comment
import SchemaDoc.Script.Tree
import SchemaDoc.Text.Source

/-!
# Programs

A program as the documentation sees it: a closed set of expressions, with the comments attached to
the entries of literals and to the top-level statements. Whatever a script can contain besides is
an `unmodelled` expression or an `other` statement.

Every node knows where it stands, in bytes and in lines.
-/

namespace SchemaDoc

open Script (Literal UnaryOp BinaryOp ImportBinding CommentKind)

/-- Where a node stands. -/
structure Loc where
  /-- The offset of its first byte. -/
  lo : Nat
  /-- The offset after its last byte. -/
  hi : Nat
  startLine : Nat
  endLine : Nat
deriving DecidableEq, Repr

/-- A comment, without its delimiters. -/
structure Comment where
  kind : CommentKind
  text : String
  /-- The offset of its first byte. -/
  pos : Nat
  line : Nat
deriving DecidableEq, Repr

/-- The comments that belong to a node. -/
structure Comments where
  leading : List Comment
  trailing : List Comment
deriving DecidableEq, Repr

/-- No comments. -/
def Comments.none : Comments := ⟨[], []⟩

/-- What an entry of a literal is. -/
inductive EntryKind where
  | keyed (key : String)
  | spread
  | element
deriving DecidableEq, Repr

mutual
/-- An expression. -/
inductive Expr where
  | lit (loc : Loc) (value : Literal)
  | regex (loc : Loc) (pattern flags : String)
  /-- A template; there is one more chunk than expressions. -/
  | template (loc : Loc) (chunks : List String) (exprs : List Expr)
  | ident (loc : Loc) (name : String)
  | object (loc : Loc) (entries : List Entry)
  | array (loc : Loc) (entries : List Entry)
  /-- A call, or a construction with `new`. -/
  | call (loc : Loc) (constructs : Bool) (callee : Expr) (args : List Expr)
  | member (loc : Loc) (object : Expr) (property : String)
  | function (loc : Loc) (f : FunctionLit)
  | assign (loc : Loc) (target value : Expr)
  | unary (loc : Loc) (op : UnaryOp) (arg : Expr)
  | binary (loc : Loc) (op : BinaryOp) (left right : Expr)
  | conditional (loc : Loc) (test yes no : Expr)
  /-- Any other expression, by the name of its shape. -/
  | unmodelled (loc : Loc) (label : String)

/-- An entry of an object or an array literal. -/
inductive Entry where
  | mk (kind : EntryKind) (value : Expr) (loc : Loc) (comments : Comments)

/-- A function. -/
inductive FunctionLit where
  | mk (name : Option String) (params : List Param) (body : FunctionBody)

/-- A parameter of a function. -/
inductive Param where
  | mk (binding : Binding) (default : Option Expr) (rest : Bool)

/-- The left-hand side of a declaration or a parameter. -/
inductive Binding where
  | ident (name : String)
  | object (properties : List PatternProp)
  | unsupported

/-- A property of an object pattern: what is read, and the name it is bound to. -/
inductive PatternProp where
  | mk (key name : String) (default : Option Expr)

/-- The body of a function. -/
inductive FunctionBody where
  | expr (value : Expr)
  | block (statements : List BodyStatement)

/-- A statement in the body of a function. -/
inductive BodyStatement where
  | declare (declarators : List Declarator)
  | returns (value : Option Expr)
  | other

/-- A declared variable. -/
inductive Declarator where
  | mk (binding : Binding) (init : Option Expr)
end

namespace Entry

/-- How an entry is written. -/
def kind : Entry → EntryKind
  | .mk kind _ _ _ => kind

/-- The value of an entry. -/
def value : Entry → Expr
  | .mk _ value _ _ => value

/-- Where an entry stands. -/
def loc : Entry → Loc
  | .mk _ _ loc _ => loc

/-- The comments of an entry. -/
def comments : Entry → Comments
  | .mk _ _ _ comments => comments

/-- The entry with other comments. -/
def withComments (e : Entry) (comments : Comments) : Entry :=
  .mk e.kind e.value e.loc comments

/-- The key of a keyed entry. -/
def key? (e : Entry) : Option String :=
  match e.kind with
  | .keyed key => some key
  | _ => none

end Entry

namespace FunctionLit

/-- The name of a function, if it has one. -/
def name : FunctionLit → Option String
  | .mk name _ _ => name

/-- The parameters of a function. -/
def params : FunctionLit → List Param
  | .mk _ params _ => params

/-- The body of a function. -/
def body : FunctionLit → FunctionBody
  | .mk _ _ body => body

end FunctionLit

namespace Param

/-- What a parameter binds. -/
def binding : Param → Binding
  | .mk binding _ _ => binding

/-- The value of a parameter that is not given. -/
def default : Param → Option Expr
  | .mk _ default _ => default

/-- Whether a parameter takes all arguments that are left. -/
def rest : Param → Bool
  | .mk _ _ rest => rest

end Param

namespace PatternProp

/-- The property that is read. -/
def key : PatternProp → String
  | .mk key _ _ => key

/-- The name that is bound to it. -/
def name : PatternProp → String
  | .mk _ name _ => name

/-- The value if there is no such property. -/
def default : PatternProp → Option Expr
  | .mk _ _ default => default

end PatternProp

namespace Declarator

/-- What a variable binds. -/
def binding : Declarator → Binding
  | .mk binding _ => binding

/-- The initial value of a variable, if it has one. -/
def init : Declarator → Option Expr
  | .mk _ init => init

end Declarator

/-- Whether a binding introduces a name. -/
def Binding.binds (name : String) : Binding → Bool
  | .ident n => n == name
  | .object properties => properties.any (·.name == name)
  | .unsupported => false

/-- The value of the last entry with a key. -/
def entryValue? (key : String) (entries : List Entry) : Option Expr :=
  (entries.reverse.find? (·.key? == some key)).map Entry.value

namespace Expr

/-- Where an expression stands. -/
def loc : Expr → Loc
  | .lit l _ => l
  | .regex l _ _ => l
  | .template l _ _ => l
  | .ident l _ => l
  | .object l _ => l
  | .array l _ => l
  | .call l _ _ _ => l
  | .member l _ _ => l
  | .function l _ => l
  | .assign l _ _ => l
  | .unary l _ _ => l
  | .binary l _ _ _ => l
  | .conditional l _ _ _ => l
  | .unmodelled l _ => l

/-- The name of the shape of an expression. -/
def shapeName : Expr → String
  | .lit _ _ => "literal"
  | .regex _ _ _ => "regular expression"
  | .template _ _ _ => "template literal"
  | .ident _ _ => "identifier"
  | .object _ _ => "object literal"
  | .array _ _ => "array literal"
  | .call _ _ _ _ => "call expression"
  | .member _ _ _ => "member expression"
  | .function _ _ => "function"
  | .assign _ _ _ => "assignment"
  | .unary _ _ _ => "unary expression"
  | .binary _ _ _ _ => "binary expression"
  | .conditional _ _ _ _ => "conditional expression"
  | .unmodelled _ label => label

/-- The name, if the expression is one. -/
def ident? : Expr → Option String
  | .ident _ name => some name
  | _ => none

/-- The entries, if the expression is an object literal. -/
def objectEntries? : Expr → Option (List Entry)
  | .object _ entries => some entries
  | _ => none

/-- The text, if the expression is a string literal. -/
def string? : Expr → Option String
  | .lit _ (.string s) => some s
  | _ => none

end Expr

/-- What a top-level statement is. -/
inductive StatementKind where
  /-- Declared variables and functions. -/
  | declare (exported : Bool) (declarators : List Declarator)
  | expression (value : Expr)
  | imports (source : String) (bindings : List ImportBinding)
  | exportDefault (value : Expr)
  /-- Names that are exported, each with the name it is exported under. -/
  | exportNames (names : List (String × String))
  /-- A statement that is not looked into. -/
  | other

/-- A top-level statement. -/
structure Statement where
  kind : StatementKind
  loc : Loc
  comments : Comments

/-- A parsed file. -/
structure Program where
  /-- The text of the file, as it was given. -/
  source : String
  body : List Statement

namespace Program

/-- The source between two offsets, empty if there is none. -/
def textBetween (p : Program) (lo hi : Nat) : String :=
  String.ofList ((Text.slice? p.source.toList lo hi).getD [])

/-- The source of a node. -/
def text (p : Program) (loc : Loc) : String := p.textBetween loc.lo loc.hi

/-- The initializer that a declarator gives a name. -/
def initOf? (name : String) (d : Declarator) : Option Expr :=
  match d.binding with
  | .ident n => if n == name then d.init else none
  | _ => none

/-- The initializer of the first top-level declaration of a name that has one. -/
def declaredInit? (p : Program) (name : String) : Option Expr :=
  p.body.findSome? fun s =>
    match s.kind with
    | .declare _ ds => ds.findSome? (initOf? name)
    | _ => none

end Program

end SchemaDoc
