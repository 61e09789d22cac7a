import SchemaDoc.Document.Field

/-!
# Documents

The document of a file: a section for every schema that the file declares, and one for its indexes.
The last schema is the main one and gives the document its title; the others follow as
sub-documents, in the order of the text.

A definition may be nested in itself, by way of a constructor call that names it. Then its fields
have no end, and neither has the search for the fuel that would be enough for them.
-/

namespace SchemaDoc.Document

/-- An index: the arguments of the call that adds it, as they are written. -/
def indexBullet? (program : Program) (s : Statement) : Option String :=
  match s.kind with
  | .expression (.call _ false (.member _ _ property) args) =>
    if property == "index" then
      some ("- " ++ ", ".intercalate (args.map fun e => "\x60" ++ program.text e.loc ++ "\x60"))
    else none
  | _ => none

/-- A heading with what follows it. -/
def headed (heading block : String) : String :=
  if block.isEmpty then heading else heading ++ "\n" ++ block

/-- The block of a schema: its fields and its members. -/
def schemaBlock (fuel : Nat) (program : Program) (s : SchemaDecl) : Eval String := do
  let fields ← renderEntries fuel [] 0 none s.entries
  return "\n".intercalate (fields ++ members program s.name)

/-- The sections of the schemas that are not the main one. -/
def subSections (fuel : Nat) (program : Program) : List SchemaDecl → Eval (List String)
  | [] => return []
  | s :: ss => do
    let block ← schemaBlock fuel program s
    let heading := "**\x60" ++ Name.schemaLabel s.name ++ "\x60** is a sub-document with fields:"
    return headed heading block :: (← subSections fuel program ss)

/-- The sections of the schemas of a program, the main one first. -/
def schemaSections (fuel : Nat) (program : Program) : Eval (List String) := do
  match schemas program (← Eval.config) with
  | .error e => Eval.fail e
  | .ok declared =>
    match declared.getLast? with
    | none => Eval.fail .noSchema
    | some main =>
      let subs := declared.dropLast
      Eval.info s!"main schema: {main.name} ({subs.length} sub-schema(s))"
      let block ← schemaBlock fuel program main
      let title := headed ("# " ++ Name.schemaLabel main.name) block
      return title :: (← subSections fuel program subs)

/-- The indexes of a program as bullets. -/
def indexes (program : Program) : List String := program.body.filterMap (indexBullet? program)

/-- The section of the indexes, if there are any. -/
def indexSections (program : Program) : List String :=
  if (indexes program).isEmpty then []
  else [headed "## Indexes" ("\n".intercalate (indexes program))]

/-- The text of a document with the given sections and the one of the indexes. -/
def documentText (program : Program) (sections : List String) : String :=
  "\n\n".intercalate (sections ++ indexSections program) ++ "\n"

/-- The document of the entry file, with a bound on how deeply fields nest. -/
def renderWithin (fuel : Nat) : Eval String := do
  let program ← entryProgram
  return documentText program (← schemaSections fuel program)

/-! ### Without a bound -/

/-- What a computation gives, unless it ran out of fuel. -/
def ended? {α : Type} : Except Stop α × Session → Option (Except Stop α × Session)
  | (.error .exhausted, _) => none
  | result => some result

/-- What a search for enough fuel finds: something that some fuel gives, or nothing, and then there
is no fuel from which on there is always something. -/
def Found {α : Type} (attempt : Nat → Option α) : Option α → Prop
  | some result => ∃ fuel, attempt fuel = some result
  | none => ∀ bound, ∃ fuel, bound ≤ fuel ∧ attempt fuel = none

instance {α : Type} {attempt : Nat → Option α} : Nonempty { found // Found attempt found } := by
  by_cases h : ∃ result fuel, attempt fuel = some result
  · obtain ⟨result, hresult⟩ := h
    exact ⟨some result, hresult⟩
  · refine ⟨none, fun bound => ⟨bound, Nat.le_refl bound, ?_⟩⟩
    cases hbound : attempt bound with
    | none => rfl
    | some result => exact absurd ⟨result, bound, hbound⟩ h

/-- Tries some fuel, then twice as much, and so on. What is found is `Found`, also where this has no
end. -/
def search {α : Type} (attempt : Nat → Option α) (fuel : Nat) : { found // Found attempt found } :=
  Id.run <| repeatM (fun fuel =>
    match h : attempt fuel with
    | some result => pure (.inr ⟨some result, fuel, h⟩)
    | none => pure (.inl (2 * fuel))) fuel

/-- The fuel that is tried first: hardly any document nests its fields more deeply. -/
def firstFuel : Nat := 64

/-- The document of the entry file. Fields may nest without end, and then there is none. -/
def render (env : Environment) (s : Session) : Option (Except Stop String × Session) :=
  (search (fun fuel => ended? (renderWithin fuel env s)) firstFuel).val

end SchemaDoc.Document
