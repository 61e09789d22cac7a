import SchemaDoc.Number.Double

/-!
# Syntax trees

What the grammar of scripts reads from a file. The tree keeps apart what the documentation can look
into – literals, names, calls, functions, declarations – and gives everything else as an
unmodelled node, of which only its form and the module specifiers mentioned inside it are kept.

Parentheses and type annotations around an expression are kept as `Expr.wrapped`, because a call
only refers to a module if its callee and its argument are written plainly. Types are read for the
specifiers mentioned in them and forgotten otherwise. All positions are byte offsets.
-/

namespace SchemaDoc.Script

/-- A stretch of a file, from its first byte to the byte after its last one. -/
structure Span where
  lo : Nat
  hi : Nat
deriving DecidableEq, Repr

/-- The stretch from an offset to another one; it is empty if that is before. -/
def Span.upTo (lo hi : Nat) : Span := ⟨lo, max lo hi⟩

@[simp, grind =] theorem Span.lo_upTo (lo hi : Nat) : (Span.upTo lo hi).lo = lo := rfl

@[simp, grind =] theorem Span.hi_upTo (lo hi : Nat) : (Span.upTo lo hi).hi = max lo hi := rfl

theorem Span.upTo_le (lo hi : Nat) : (Span.upTo lo hi).lo ≤ (Span.upTo lo hi).hi :=
  Nat.le_max_left _ _

/-- What of a stretch lies between two offsets. -/
def Span.clip (span : Span) (lo hi : Nat) : Span :=
  .upTo (max lo (min span.lo hi)) (min span.hi hi)

/-- A literal value. -/
inductive Literal where
  | string (s : String)
  | number (x : Double)
  | bool (b : Bool)
  | null
  /-- An integer without bounds, by its decimal digits. -/
  | bigint (digits : String)
deriving DecidableEq, Repr

/-- An operator with one operand. -/
inductive UnaryOp where
  | minus
  | plus
  | not
  | typeOf
deriving DecidableEq, Repr

/-- An operator with two operands. -/
inductive BinaryOp where
  | add | sub | mul | div | rem
  | strictEq | strictNotEq | eq | notEq
  | lt | le | gt | ge
  | and | or | nullish
deriving DecidableEq, Repr

/-- What may stand around an expression without changing its value. -/
inductive Wrapper where
  | parentheses
  /-- The expression has a type. -/
  | typed
  /-- The expression is a constant. -/
  | constant
  /-- The expression is never missing. -/
  | present
deriving DecidableEq, Repr

/-- The forms of expression that are not looked into. -/
inductive Form where
  | this
  | optionalChain
  | classExpression
  | taggedTemplate
  | await
  | sequence
  /-- An operator in front of an operand that is not modelled. -/
  | prefixed
  /-- An operator between two operands that is not modelled. -/
  | operation
  | compoundAssignment
  /-- A call of `super` or `import`. -/
  | specialCall
  /-- A name after `super`. -/
  | superProperty
  /-- An operand with type arguments and nothing behind them. -/
  | instantiation
  /-- A type in front of an operand. -/
  | assertion
  /-- An increment or a decrement. -/
  | update
  | yield
  | markup
  | privateName
  | metaProperty
  /-- Nothing, where an operand should stand. -/
  | missing
deriving DecidableEq, Repr

/-- How a form is called. -/
def Form.label : Form → String
  | .this => "this"
  | .optionalChain => "optional chain"
  | .classExpression => "class expression"
  | .taggedTemplate => "tagged template"
  | .await => "await expression"
  | .sequence => "sequence expression"
  | .prefixed => "unary expression"
  | .operation => "binary expression"
  | .compoundAssignment => "compound assignment"
  | .specialCall => "special call"
  | _ => "expression"

/-- The two kinds of accessor. -/
inductive Accessor where
  | getter
  | setter
deriving DecidableEq, Repr

/-- How an accessor is called. -/
def Accessor.label : Accessor → String
  | .getter => "getter"
  | .setter => "setter"

/-- Module specifiers in the order in which they are mentioned. -/
abbrev References := List String

/-- A property key: a text that is known, or the source of an expression. -/
inductive Key where
  | text (s : String)
  | computed (span : Span) (references : References)

mutual
/-- An expression. -/
inductive Expr where
  /-- A string literal; it has no value if its units are no text. -/
  | string (span : Span) (value : Option String)
  /-- Any other literal. -/
  | literal (span : Span) (value : Literal)
  | regex (span : Span) (pattern flags : String)
  /-- A template; there is one more chunk than expressions. -/
  | template (span : Span) (chunks : List String) (exprs : List Expr)
  | ident (span : Span) (name : String)
  | object (span : Span) (members : List Member)
  | array (span : Span) (elements : List Element)
  /-- A call, or a construction with `new`. -/
  | call (span : Span) (constructs : Bool) (callee : Expr) (args : List Element)
    (types : References)
  | member (span : Span) (object : Expr) (property : Property)
  | function (span : Span) (name : Option String) (params : List Param) (body : Body)
    (types : References)
  | arrow (span : Span) (params : List Param) (body : Body) (types : References)
  /-- An assignment to an expression. -/
  | assign (span : Span) (target value : Expr)
  /-- An assignment that takes its value apart. -/
  | destructure (span : Span) (target : Pattern) (value : Expr)
  | unary (span : Span) (op : UnaryOp) (arg : Expr)
  | binary (span : Span) (op : BinaryOp) (left right : Expr)
  | conditional (span : Span) (test yes no : Expr)
  | wrapped (span : Span) (wrapper : Wrapper) (inner : Expr) (types : References)
  /-- An expression that is not looked into. -/
  | other (span : Span) (form : Form) (references : References)

/-- What is read from an object. -/
inductive Property where
  | named (name : String)
  | computed (key : Expr)
  /-- A property that only its class can see. -/
  | hidden

/-- An element of an array, or an argument of a call. -/
inductive Element where
  | plain (value : Expr)
  /-- A spread, with the offset of its dots. -/
  | spread (lo : Nat) (value : Expr)

/-- A member of an object literal. -/
inductive Member where
  | keyed (span : Span) (key : Key) (value : Expr)
  /-- A name that is key and value at once. -/
  | shorthand (span : Span) (name : String)
  /-- A name with a default, which only makes sense in a pattern. -/
  | defaulted (span : Span) (name : String) (default : Expr)
  | method (span : Span) (key : Key) (params : List Param) (body : Body) (types : References)
  | accessor (span : Span) (kind : Accessor) (key : Key) (references : References)
  | spread (span : Span) (value : Expr)

/-- The left-hand side of a declaration. -/
inductive Pattern where
  | ident (name : String)
  | object (properties : List PatternProperty)
  /-- A pattern that is not looked into. -/
  | other (references : References)

/-- A property of an object pattern. -/
inductive PatternProperty where
  | bind (key : Key) (name : String) (default : Option Expr)
  /-- A property that is not looked into. -/
  | other (references : References)

/-- A parameter of a function. -/
inductive Param where
  | mk (pattern : Pattern) (types : References) (default : Option Expr) (rest : Bool)

/-- The body of a function. -/
inductive Body where
  | expr (value : Expr)
  | block (statements : List Statement)

/-- A declared variable. -/
inductive Declarator where
  | mk (pattern : Pattern) (types : References) (init : Option Expr)

/-- A statement. -/
inductive Statement where
  | declare (declarators : List Declarator)
  | expression (value : Expr)
  | returns (value : Option Expr)
  /-- A statement that is not looked into. -/
  | other (references : References)
end

/-- A name that an import brings in. -/
inductive ImportBinding where
  | named (imported name : String)
  | default (name : String)
  /-- All exports together. -/
  | whole (name : String)
deriving DecidableEq, Repr

/-- The name under which an import is known. -/
def ImportBinding.localName : ImportBinding → String
  | .named _ name => name
  | .default name => name
  | .whole name => name

/-- What a top-level item is. -/
inductive ItemKind where
  | statement (s : Statement)
  /-- Declarations that are exported. -/
  | exported (declarators : List Declarator)
  | imports (source : Option String) (bindings : List ImportBinding)
  | exportDefault (value : Expr)
  /-- Names that are exported, each with the name it is exported under. -/
  | exportNames (names : List (String × String))
  | other (references : References)

/-- A top-level item. -/
structure Item where
  kind : ItemKind
  span : Span

/-- A whole file. -/
structure File where
  items : List Item

namespace Expr

/-- The stretch of an expression. -/
def span : Expr → Span
  | .string s _ => s
  | .literal s _ => s
  | .regex s _ _ => s
  | .template s _ _ => s
  | .ident s _ => s
  | .object s _ => s
  | .array s _ => s
  | .call s _ _ _ _ => s
  | .member s _ _ => s
  | .function s _ _ _ _ => s
  | .arrow s _ _ _ => s
  | .assign s _ _ => s
  | .destructure s _ _ => s
  | .unary s _ _ => s
  | .binary s _ _ _ => s
  | .conditional s _ _ _ => s
  | .wrapped s _ _ _ => s
  | .other s _ _ => s

/-- The expression inside parentheses and type annotations. -/
def unwrapped : Expr → Expr
  | .wrapped _ _ inner _ => inner.unwrapped
  | e => e

/-- Whether an expression is an arrow function. Nothing may follow one directly. -/
def isArrow : Expr → Bool
  | .arrow _ _ _ _ => true
  | _ => false

/-- Whether an expression is of a form that is not looked into. -/
def hasForm (forms : List Form) : Expr → Bool
  | .other _ form _ => forms.contains form
  | _ => false

/-- Whether what follows an expression belongs to an optional chain. -/
def isChain : Expr → Bool
  | .wrapped _ .present inner _ => inner.isChain
  | e => e.hasForm [.optionalChain]

/-- Whether an expression is a result of operators, which no assignment can follow. -/
def isOperation : Expr → Bool
  | .unary _ _ _ => true
  | .binary _ _ _ _ => true
  | .conditional _ _ _ _ => true
  | e => e.hasForm [.prefixed, .operation, .update]

/-- Whether a value can be assigned to an expression as it stands. -/
def isTarget : Expr → Bool
  | .ident _ _ => true
  | .member _ _ _ => true
  | .wrapped _ wrapper _ _ => wrapper != .constant
  | e => e.hasForm [.optionalChain, .superProperty, .instantiation, .assertion, .missing]

end Expr

/-- The first offset of an element. -/
def Element.lo : Element → Nat
  | .plain e => e.span.lo
  | .spread lo _ => lo

/-- The expression of an element. -/
def Element.value : Element → Expr
  | .plain e => e
  | .spread _ e => e

/-- The stretch of a member. -/
def Member.span : Member → Span
  | .keyed s _ _ => s
  | .shorthand s _ => s
  | .defaulted s _ _ => s
  | .method s _ _ _ _ => s
  | .accessor s _ _ _ => s
  | .spread s _ => s

end SchemaDoc.Script
