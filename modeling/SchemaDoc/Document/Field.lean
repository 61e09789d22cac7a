import SchemaDoc.Document.Options
import SchemaDoc.Document.Shape

/-!
# Fields

A field is a bullet: its key, its type, its options, its description below, and the bullets of its
nested fields after it, one level deeper.

Spreading a name that is bound to an object literal splices the fields of that literal in, with
their comments; while they are being spliced, another spread of the same name is evaluated like any
other. How deeply fields nest depends on the names that definitions refer to, so rendering takes
fuel.
-/

namespace SchemaDoc.Document

mutual
/-- How deeply a value nests. -/
def valueDepth : Value → Nat
  | .list items => 1 + itemsDepth items
  | .map fields => 1 + fieldsDepth fields
  | _ => 1

/-- How deeply the items of a list nest. -/
def itemsDepth : List Value → Nat
  | [] => 0
  | v :: vs => max (valueDepth v) (itemsDepth vs)

/-- How deeply the fields of a mapping nest. -/
def fieldsDepth : List (String × Value) → Nat
  | [] => 0
  | (_, v) :: fields => max (valueDepth v) (fieldsDepth fields)
end

/-! ### Bullets -/

/-- The options that are shown, in the order of the configuration. -/
def optionTexts (options : List (String × Slot)) : List String → Eval (List String)
  | [] => return []
  | name :: names => do
    match lookupKey? name options with
    | none => optionTexts options names
    | some slot =>
      let value ← match slot with
        | .node e => resolve e
        | .value v => pure v
      return (optionText? name value).toList ++ (← optionTexts options names)

/-- The type of a shape between the brackets of its arrays. -/
def typeText (s : Shape) : String :=
  String.ofList (List.replicate s.arrays '[') ++ s.typeName ++
    String.ofList (List.replicate s.arrays ']')

/-- The first line of a field. -/
def bullet (key : String) (s : Shape) (depth : Nat) : Eval String := do
  let options ← optionTexts s.options (← Eval.config).options
  let head := Description.indentation depth ++ "- **" ++ key ++ "** \x60" ++ typeText s ++ "\x60"
  return if options.isEmpty then head else head ++ " " ++ fenced options

/-- A field from its bullet, its description and its nested fields. -/
def fieldText (bullet description : String) (children : List String) : String :=
  "\n".intercalate (Description.attach bullet description :: children)

/-! ### Fields of values -/

/-- The fields of a value, at most `fuel` levels of them. -/
def valueFields : Nat → Nat → List (String × Value) → Eval (List String)
  | _, _, [] => return []
  | 0, _, _ :: _ => throw .exhausted
  | fuel + 1, depth, (key, v) :: fields => do
    let s ← valueShape (← Eval.config) key 0 v
    let b ← bullet key s depth
    let children ← match s.children with
      | .values inner => valueFields fuel (depth + 1) inner
      | _ => pure []
    return fieldText b "" children :: (← valueFields (fuel + 1) depth fields)
termination_by fuel _ fields => (fuel, fields.length)

/-! ### Fields as they are written -/

/-- A way to render entries: the names that are being spliced, the level, and the line whose
comments are claimed by the field around. -/
abbrev Renderer := List String → Nat → Option Nat → List Entry → Eval (List String)

/-- The comments of a field: those in front of it that are not claimed, the line comments behind
the opening brace of its definition, and the line comments behind it. -/
def fieldComments (entry : Entry) (s : Shape) (claimedLine : Option Nat) : List Comment :=
  let front := entry.comments.leading.filter fun c => some c.line != claimedLine
  let opening := match s.object with
    | some (loc, first :: _) =>
      first.comments.leading.filter fun c => c.kind == .line && c.line == loc.startLine
    | _ => []
  let behind := entry.comments.trailing.filter (·.kind == .line)
  front ++ opening ++ behind

/-- The nested fields of a shape. -/
def childFields (rec : Renderer) (splicing : List String) (depth : Nat) :
    Children → Eval (List String)
  | .none => return []
  | .entries entries claimedLine => rec splicing depth claimedLine entries
  | .values fields => valueFields (fieldsDepth fields + 1) depth fields

/-- A field. -/
def field (rec : Renderer) (splicing : List String) (depth : Nat) (claimedLine : Option Nat)
    (key : String) (entry : Entry) : Eval String := do
  let s ← shapeOf key entry.value
  let description := Description.ofComments (fieldComments entry s claimedLine) depth
  let b ← bullet key s depth
  let children ← childFields rec splicing (depth + 1) s.children
  return fieldText b description children

/-- The entries that a spread splices in: those of the object literal that a name is bound to,
unless it is being spliced already. -/
def spliced? (program : Program) (splicing : List String) : Expr → Option (String × List Entry)
  | .ident _ name =>
    match (program.declaredInit? name).bind Expr.objectEntries? with
    | some entries => if splicing.contains name then none else some (name, entries)
    | none => none
  | _ => none

/-- The fields of a spread. -/
def spread (rec : Renderer) (splicing : List String) (depth : Nat) (e : Expr) :
    Eval (List String) := do
  match spliced? (← entryProgram) splicing e with
  | some (name, entries) => rec (name :: splicing) depth none entries
  | none =>
    match ← resolve e with
    | .map fields => valueFields (fieldsDepth fields + 1) depth fields
    | v =>
      let shape := withArticle (valueShapeName v)
      Eval.warn s!"line {e.loc.startLine}: fields spread from {shape} are skipped"
      return []

/-- The fields of entries. -/
def entryFields (rec : Renderer) (splicing : List String) (depth : Nat)
    (claimedLine : Option Nat) : List Entry → Eval (List String)
  | [] => return []
  | entry :: entries => do
    match entry.kind with
    | .keyed key =>
      let text ← field rec splicing depth claimedLine key entry
      return text :: (← entryFields rec splicing depth claimedLine entries)
    | .spread =>
      let texts ← spread rec splicing depth entry.value
      return texts ++ (← entryFields rec splicing depth claimedLine entries)
    | .element => entryFields rec splicing depth claimedLine entries

/-- Renders entries with a bound on how deeply they nest. -/
def renderEntries : Nat → Renderer
  | 0, _, _, _, _ => throw .exhausted
  | fuel + 1, splicing, depth, claimedLine, entries =>
    entryFields (renderEntries fuel) splicing depth claimedLine entries

end SchemaDoc.Document
