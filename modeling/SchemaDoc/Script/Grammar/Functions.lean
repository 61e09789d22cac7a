import SchemaDoc.Script.Grammar.Patterns

/-!
# Functions

What all functions share behind their names: parameters and a body. A body starts afresh: of the
text around it only what words mean and what a file is written in still counts.
-/

namespace SchemaDoc.Script.Grammar

open SchemaDoc.Script.Parser

variable (g : Grammar)

/-- What can be called: parameters, a body unless only types are given, and the references in the
type parameters and in the type of the result. -/
structure Callable where
  params : List Param
  body : Option Body
  generics : References
  result : References

namespace Callable

/-- The body of a callable; a missing one does nothing. -/
def block (c : Callable) : Body := c.body.getD (.block [])

/-- The references in the types of a callable. -/
def types (c : Callable) : References := c.generics ++ c.result

/-- The references in a callable. -/
def references (c : Callable) : References :=
  paramReferences c.params ++ c.block.references ++ c.types

end Callable

/-- Runs a parser in the body of a function. -/
def insideBody {α : Type} (isAsync isGenerator : Bool) (p : Parser α) : Parser α :=
  withReader (fun c => { c with
    surroundings := { c.surroundings with
      inAsync := isAsync, inGenerator := isGenerator, inStaticBlock := false }
    inParameters := false
    arrowAt := none }) p

/-- Runs a parser where `super` has properties, or where it has not. -/
def withSuper {α : Type} (allowed : Bool) (p : Parser α) : Parser α :=
  withReader ({ · with superAllowed := allowed }) p

/-- The body of a function. With types it may be missing. -/
def body? : Parser (Option Body) := do
  if (← hasTypes) && !(← isPunct .braceOpen) then
    if ← acceptEnd then return none
  return some (.block (← g (.block true)))

/-- A function from its type parameters on. -/
def callable (isAsync isGenerator : Bool) (paramList : Parser (List Param)) : Parser Callable :=
  withSurroundings ({ · with inAsync := isAsync, inGenerator := isGenerator }) do
    withoutColon do
      let generics ← if ← hasTypes then typeParameters g else pure []
      expect .parenOpen
      let params ← withReader ({ · with inParameters := true }) paramList
      expect .parenClose
      let result ← annotatedResult g
      let body ← insideBody isAsync isGenerator (body? g)
      return { params, body, generics, result }

/-- A method from its type parameters on. -/
def method (isAsync isGenerator : Bool) : Parser Callable :=
  withSuper true (callable g isAsync isGenerator (g .params))

/-- A function expression after the word that opens it. It has a body. -/
def functionRest (lo : Nat) (isAsync : Bool) : Parser Expr := do
  let isGenerator ← accept .star
  let name ← withSurroundings ({ · with inAsync := isAsync, inGenerator := isGenerator })
    (name? name)
  let c ← withSuper false (callable g isAsync isGenerator (g .params))
  if c.body.isNone then fail
  return .function (← spanFrom lo) name c.params c.block c.types

/-- The body of an arrow function. -/
def arrowBody (isAsync : Bool) : Parser Body :=
  insideBody isAsync false do
    if ← isPunct .braceOpen then return .block (← g (.block false))
    return .expr (← g .assign)

end SchemaDoc.Script.Grammar
