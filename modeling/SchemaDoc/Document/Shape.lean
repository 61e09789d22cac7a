import SchemaDoc.Document.Schema
import SchemaDoc.Resolve.Evaluate

/-!
# Shapes of fields

What the definition of a field says: how many arrays are around its type, the name of the type, its
options and its nested fields. A definition is looked at as it is written as far as possible, so
that the comments in it can be used, and evaluated otherwise; a value is then classified the way a
literal of it would have been.

Up to two array literals are looked through. Inside them,
- a literal is its own type,
- a name that is bound to a definition counts as that definition, and any other name is the name of
  a type or a schema,
- a property is a type by its last name,
- an object literal is a definition with a type marker and options, an object with options only, or
  a nested document,
- and anything else is evaluated.
-/

namespace SchemaDoc.Document

open Script (Literal)

/-- How many arrays around a type are told apart. -/
def arrayLimit : Nat := 2

/-- The type of objects, and of whatever has no better name. -/
def objectType : String := "Object"

/-- The type of the elements of an empty array. -/
def mixedType : String := "Mixed"

/-- The type of arrays inside too many arrays. -/
def arrayType : String := "Array"

/-- An option: as it is written, or as a value that a spread contributed. -/
inductive Slot where
  | node (e : Expr)
  | value (v : Value)

/-- The nested fields of a field. -/
inductive Children where
  | none
  /-- Fields as they are written. The comments on a claimed line belong to the field around them. -/
  | entries (entries : List Entry) (claimedLine : Option Nat)
  /-- Fields of a value. -/
  | values (fields : List (String × Value))

/-- What the definition of a field says. -/
structure Shape where
  arrays : Nat
  typeName : String
  options : List (String × Slot)
  children : Children
  /-- The object literal that the definition is, with its place. -/
  object : Option (Loc × List Entry)

namespace Shape

/-- A type without options and nested fields. -/
def scalar (arrays : Nat) (typeName : String) : Shape :=
  { arrays, typeName, options := [], children := .none, object := none }

/-- An object with nested fields. -/
def inline (arrays : Nat) (children : Children) : Shape :=
  { scalar arrays objectType with children }

/-- The shape with options. -/
def withOptions (s : Shape) (options : List (String × Slot)) : Shape := { s with options }

end Shape

/-! ### Values -/

/-- The name of the shape of a value. -/
def valueShapeName : Value → String
  | .function _ _ _ => "function value"
  | .native _ => "function value"
  | .pattern _ _ => "regular expression value"
  | .unknown => "unresolved value"
  | _ => "value"

/-- A shape with its article. -/
def withArticle (shape : String) : String :=
  match shape.toList with
  | c :: _ => if ['a', 'e', 'i', 'o', 'u'].contains c then "an " ++ shape else "a " ++ shape
  | [] => "a " ++ shape

/-- The type of a field whose type is nothing that has a name. -/
def unknownType (key : String) (shape : String) : Eval String := do
  Eval.warn s!"field '{key}': type is {withArticle shape}; documented as {objectType}"
  return objectType

/-- The fields without a key. -/
def eraseKey {α : Type} (key : String) (fields : List (String × α)) : List (String × α) :=
  fields.filter (·.1 != key)

/-- The fields of a value as options. -/
def valueSlots (fields : List (String × Value)) : List (String × Slot) :=
  fields.map fun (key, v) => (key, .value v)

mutual
/-- The shape of a value inside arrays. -/
def valueShape (config : Config) (key : String) (arrays : Nat) : Value → Eval Shape
  | .list [] =>
    return if arrays < arrayLimit then .scalar (arrays + 1) mixedType else .scalar arrays arrayType
  | .list (first :: _) =>
    if arrays < arrayLimit then valueShape config key (arrays + 1) first
    else return .scalar arrays arrayType
  | .map fields => do
    let rest := eraseKey config.typeMarker fields
    let onlyOptions := rest.all fun (name, _) => config.isOption name
    match markerShape? config key arrays fields with
    | some marker => return (← marker).withOptions (valueSlots rest)
    | none =>
      if onlyOptions then return (Shape.scalar arrays objectType).withOptions (valueSlots rest)
      else return .inline arrays (.values rest)
  | .num x => return .scalar arrays x.format
  | .bool b => return .scalar arrays (if b then "true" else "false")
  | .null => return .scalar arrays "null"
  | .bigint digits => return .scalar arrays digits
  | .typeLabel name => return .scalar arrays name
  | .str s => return .scalar arrays s
  | .pattern source flags => do
    return .scalar arrays (← unknownType key (valueShapeName (.pattern source flags)))
  | .function f m scope => do
    return .scalar arrays (← unknownType key (valueShapeName (.function f m scope)))
  | .native name => do
    return .scalar arrays (← unknownType key (valueShapeName (.native name)))
  | .unknown => do return .scalar arrays (← unknownType key (valueShapeName .unknown))

/-- The shape of the type marker among the fields of a value, if there is one. -/
def markerShape? (config : Config) (key : String) (arrays : Nat) :
    List (String × Value) → Option (Eval Shape)
  | [] => none
  | (k, v) :: fields =>
    if k == config.typeMarker then some (valueShape config key arrays v)
    else markerShape? config key arrays fields
end

/-! ### Definitions as they are written -/

/-- Looks through at most `limit` array literals, to their first elements. There is no element
inside an empty array. -/
def throughArrays : Nat → Expr → Nat × Option Expr
  | 0, e => (0, some e)
  | limit + 1, .array _ entries =>
    match entries with
    | [] => (1, none)
    | first :: _ =>
      let (n, e) := throughArrays limit first.value
      (n + 1, e)
  | _ + 1, e => (0, some e)

/-- The text of a literal. -/
def literalText : Literal → String
  | .string s => s
  | .number x => x.format
  | .bool b => if b then "true" else "false"
  | .null => "null"
  | .bigint digits => digits

/-- Evaluates an expression of the entry file. -/
def resolve (e : Expr) : Eval Value := Eval.expr 0 e none

/-- The program of the entry file. -/
def entryProgram : Eval Program := do
  match (← Eval.index).program? 0 with
  | some program => return program
  | none => Eval.fail .noSchema

/-- The fields of a constructor call in the entry file, if the expression is one. -/
def inlineFields (e : Expr) (schema : String) : Eval (Option (List Entry)) := do
  match schemaFields (← entryProgram) (← Eval.config) e schema with
  | .ok fields => return fields
  | .error e => Eval.fail e

/-- The options of an object literal: its entries, and the fields of the mappings that are spread
into it. -/
def slots (key : String) : List (String × Slot) → List Entry → Eval (List (String × Slot))
  | done, [] => return done
  | done, entry :: entries => do
    match entry.kind with
    | .keyed name => slots key (insertKey name (.node entry.value) done) entries
    | .spread =>
      match ← resolve entry.value with
      | .map fields =>
        slots key (fields.foldl (fun done (k, v) => insertKey k (.value v) done) done) entries
      | .unknown =>
        let line := entry.loc.startLine
        Eval.warn
          s!"line {line}: options spread from an unresolved value in field '{key}' are skipped"
        slots key done entries
      | _ => slots key done entries
    | .element => slots key done entries

/-- The name of the type that a type marker gives. -/
def markerLabel (key : String) (marker : Expr) : Eval String := do
  match marker with
  | .ident _ name =>
    match ← resolve marker with
    | .typeLabel label => return label
    | _ => return Name.schemaLabel name
  | .member _ _ property => return property
  | .lit _ (.string s) => return s
  | marker =>
    let value ← resolve marker
    match value.label? with
    | some label => return label
    | none => unknownType key (valueShapeName value)

/-- The shape that a type marker gives when it is an array literal. -/
def arrayMarkerShape (key : String) (arrays : Nat) (marker : Expr) : Eval Shape := do
  let (extra, element) := throughArrays arrayLimit marker
  match element with
  | none => return .scalar (arrays + extra) mixedType
  | some (.object _ inner) => return .inline (arrays + extra) (.entries inner none)
  | some element => return .scalar (arrays + extra) (← markerLabel key element)

/-- The shape that a type marker gives when it is neither an object nor an array literal. -/
def plainMarkerShape (key : String) (arrays : Nat) (marker : Expr) : Eval Shape := do
  match ← inlineFields marker key with
  | some entries => return .inline arrays (.entries entries none)
  | none => return .scalar arrays (← markerLabel key marker)

/-- The shape that its options give an object literal, with its own entries as nested fields if they
are not just options. -/
def slotShape (key : String) (arrays : Nat) (own : Children) (all : List (String × Slot)) :
    Eval Shape := do
  let config ← Eval.config
  let rest := eraseKey config.typeMarker all
  let onlyOptions := rest.all fun (name, _) => config.isOption name
  match lookupKey? config.typeMarker all with
  | none =>
    if onlyOptions then return (Shape.scalar arrays objectType).withOptions rest
    else return .inline arrays own
  | some (.node (.object _ inner)) =>
    if onlyOptions then return (Shape.inline arrays (.entries inner none)).withOptions rest
    else return .inline arrays own
  | some (.node (.array l inner)) =>
    return (← arrayMarkerShape key arrays (.array l inner)).withOptions rest
  | some (.node marker) => return (← plainMarkerShape key arrays marker).withOptions rest
  | some (.value marker) => return (← valueShape config key arrays marker).withOptions rest

/-- The shape of an object literal. -/
def objectShape (key : String) (arrays : Nat) (loc : Loc) (entries : List Entry) :
    Eval Shape := do
  let all ← slots key [] entries
  let shape ← slotShape key arrays (.entries entries (some loc.startLine)) all
  return { shape with object := some (loc, entries) }

/-- The shape of what stands inside the arrays of a definition. -/
def nodeShape (key : String) (arrays : Nat) (node : Expr) : Eval Shape := do
  match node with
  | .lit _ v => return .scalar arrays (literalText v)
  | .ident _ name =>
    match ← resolve node with
    | .map fields => valueShape (← Eval.config) key arrays (.map fields)
    | .list items => valueShape (← Eval.config) key arrays (.list items)
    | .typeLabel label => return .scalar arrays label
    | _ => return .scalar arrays (Name.schemaLabel name)
  | .member _ _ property => return .scalar arrays property
  | .array _ _ => return .scalar arrays arrayType
  | .object loc entries => objectShape key arrays loc entries
  | node =>
    match ← inlineFields node key with
    | some entries => return .inline arrays (.entries entries none)
    | none => valueShape (← Eval.config) key arrays (← resolve node)

/-- The shape of a definition. -/
def shapeOf (key : String) (definition : Expr) : Eval Shape := do
  match throughArrays arrayLimit definition with
  | (arrays, none) => return .scalar arrays mixedType
  | (arrays, some node) => nodeShape key arrays node

end SchemaDoc.Document
