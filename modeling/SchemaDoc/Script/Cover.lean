import SchemaDoc.Script.References

/-!
# Expressions as patterns

The parameters of an arrow function and the left-hand side of an assignment are read as expressions,
because what they are shows only behind them. Then they are read again, as patterns.

Hardly anything is refused there: an expression that is no pattern becomes one that binds nothing.
Only a method or an accessor among the properties of an object is a fault. A spread that is not the
last one among the elements of an array, or among parameters, is dropped.
-/

namespace SchemaDoc.Script

/-- A pattern with its default. -/
structure Slot where
  pattern : Pattern
  default : Option Expr

namespace Slot

/-- A pattern that binds nothing. -/
def empty : Slot := ⟨.other [], none⟩

/-- The references in a slot. -/
def references (s : Slot) : References := s.pattern.references ++ optionReferences s.default

/-- A slot as a property of an object pattern. -/
def property (key : Key) (s : Slot) : PatternProperty :=
  match s.pattern with
  | .ident name => .bind key name s.default
  | _ => .other (key.references ++ s.references)

/-- A slot as a parameter. -/
def param (s : Slot) : Param := .mk s.pattern [] s.default false

/-- A slot as the parameter for all remaining arguments. One with a default binds nothing. -/
def restParam (s : Slot) : Param :=
  match s.default with
  | none => .mk s.pattern [] none true
  | some _ => .mk (.other s.references) [] none true

end Slot

/-- What patterns are used for. -/
inductive PatternUse where
  /-- Parameters are bound. -/
  | binding
  /-- A value is assigned. -/
  | assignment
deriving DecidableEq

namespace Expr

/-- Whether an expression inside a pattern stands for itself, as a place to assign to. -/
def isPlace : Expr → Bool
  | .string _ _ => true
  | .literal _ _ => true
  | .regex _ _ _ => true
  | .template _ _ _ => true
  | .call _ _ _ _ _ => true
  | .member _ _ _ => true
  | .function _ _ _ _ _ => true
  | .wrapped _ wrapper _ _ => wrapper == .parentheses || wrapper == .typed
  | e => e.hasForm [.superProperty, .classExpression, .specialCall]

/-- An expression that is neither a name nor takes anything apart, as a pattern. -/
def asPlace (use : PatternUse) (e : Expr) : Slot :=
  if use == .assignment && e.isPlace then ⟨.other e.references, none⟩ else .empty

end Expr

mutual
/-- An expression as a pattern. It fails with the stretch of what cannot be in one. -/
def Expr.slot (use : PatternUse) : Expr → Except Span Slot
  | .ident _ name => .ok ⟨.ident name, none⟩
  | .object _ members => do
    let properties ← memberSlots use members
    .ok ⟨.object properties, none⟩
  | .array _ elements => do
    let refs ← elementSlots use elements
    .ok ⟨.other refs, none⟩
  | .assign _ target value => do
    let s ← target.slot use
    .ok ⟨s.pattern, some value⟩
  | .destructure _ target value => .ok ⟨target, some value⟩
  | e => .ok (e.asPlace use)

/-- The elements of an array as patterns, by their references. -/
def elementSlots (use : PatternUse) : List Element → Except Span References
  | [] => .ok []
  | [.spread _ e] => do
    let s ← e.slot use
    .ok s.references
  | .spread _ _ :: es => elementSlots use es
  | .plain e :: es => do
    let s ← e.slot use
    let refs ← elementSlots use es
    .ok (s.references ++ refs)

/-- The members of an object as the properties of a pattern. -/
def memberSlots (use : PatternUse) : List Member → Except Span (List PatternProperty)
  | [] => .ok []
  | m :: ms => do
    let p ← m.slot use
    let ps ← memberSlots use ms
    .ok (p :: ps)

/-- A member of an object as a property of a pattern. -/
def Member.slot (use : PatternUse) : Member → Except Span PatternProperty
  | .keyed _ key value => do
    let s ← value.slot use
    .ok (s.property key)
  | .shorthand _ name => .ok (.bind (.text name) name none)
  | .defaulted _ name default => .ok (.bind (.text name) name (some default))
  | .method span _ _ _ _ => .error span
  | .accessor span _ _ _ => .error span
  | .spread _ value =>
    match use with
    | .binding => .ok (.other [])
    | .assignment => do
      let s ← value.slot use
      .ok (.other s.references)
end

/-- An assignment to an expression. An object or an array is read again as a pattern; anything else
has to be a place to assign to. It fails with the stretch of what cannot be assigned to. -/
def Expr.assignTo (target : Expr) : Except Span (Span → Expr → Expr) :=
  match target with
  | .object _ _ | .array _ _ => do
    let s ← target.slot .assignment
    .ok fun span value => .destructure span s.pattern value
  | _ => if target.isTarget then .ok fun span value => .assign span target value
    else .error target.span

/-- One of the things between the parentheses of a call or of the head of an arrow function: an
element, or a parameter that can be nothing else, with its first offset. -/
inductive Parenthesized where
  | element (e : Element)
  | param (lo : Nat) (p : Param)

namespace Parenthesized

/-- Whether something can only be a parameter. -/
def isParam : Parenthesized → Bool
  | .element _ => false
  | .param _ _ => true

/-- The parameters of an arrow function. -/
def params : List Parenthesized → Except Span (List Param)
  | [] => .ok []
  | [.element (.spread _ e)] => do
    let s ← e.slot .binding
    .ok [s.restParam]
  | [.param _ p] => .ok [p]
  | .element (.spread _ _) :: items => params items
  | .param _ (.mk _ _ _ true) :: items => params items
  | .param _ p :: items => do
    let ps ← params items
    .ok (p :: ps)
  | .element (.plain e) :: items => do
    let s ← e.slot .binding
    let ps ← params items
    .ok (s.param :: ps)

/-- The elements, if all of them are. It fails with the offset of one that is a parameter. -/
def elements : List Parenthesized → Except Span (List Element)
  | [] => .ok []
  | .element e :: items => do
    let es ← elements items
    .ok (e :: es)
  | .param lo _ :: _ => .error ⟨lo, lo⟩

end Parenthesized

end SchemaDoc.Script
