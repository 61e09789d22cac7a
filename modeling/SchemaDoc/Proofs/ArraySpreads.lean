import SchemaDoc.Proofs.ArrayDepth
import SchemaDoc.Proofs.KeyOrder

/-!
# Spreads in array literals

An array literal gives a field the type of its first element. The elements may come by way of a
spread, as in `[...names, String]`, and when the literal is evaluated, the elements of the spread
array stand in its place. A field looks at the literal as it is written, though, and takes what
stands first for an element, whether it is spread or not. A spread behind the first entry is never
looked at, and then the field is the one with all elements written out. A spread in front counts as
an array inside the array: it has one pair of brackets too many.

The two fields of an array literal that starts with a spread are nevertheless the same in a few
cases, and these are known (`misread?`): some types have the brackets in their names.
-/

namespace SchemaDoc.Document

open Evaluate (constant?)

/-! ### Elements -/

/-- An element that is no array: a literal, the name of a global type, or an object of such elements,
without comments. A key may be written twice. -/
inductive FlatElement (env : Environment) : Expr → Prop
  | lit {loc : Loc} {value : Script.Literal} : FlatElement env (.lit loc value)
  | typeName {loc : Loc} {name : String} (h : IsTypeName env name) :
    FlatElement env (.ident loc name)
  | object {loc : Loc} {entries : List Entry}
    (keyed : ∀ entry ∈ entries, ∃ key, entry.kind = .keyed key)
    (uncommented : ∀ entry ∈ entries, entry.comments = .none)
    (values : ∀ entry ∈ entries, FlatElement env entry.value) :
    FlatElement env (.object loc entries)

theorem FlatElement.composed {env : Environment} {e : Expr} (h : FlatElement env e) :
    Composed env e := by
  induction h with
  | lit => exact .lit
  | typeName h => exact .typeName h
  | object keyed _ _ ih => exact .object keyed ih

/-- What is left of the entries of an object, by their keys: the last entry with a key counts. -/
def ownOptions (entries : List Entry) : List (String × Expr) := putAll [] (keyedValues entries)

theorem FlatElement.options {env : Environment} {loc : Loc} {entries : List Entry}
    (h : FlatElement env (.object loc entries)) :
    ∀ option ∈ ownOptions entries, FlatElement env option.2 := by
  cases h with
  | object keyed uncommented values =>
    refine mem_putAll (P := FlatElement env) nofun fun option hoption => ?_
    obtain ⟨entry, hentry, hvalue, -⟩ := mem_keyedValues hoption
    exact hvalue ▸ values entry hentry

mutual
/-- The value of an element. -/
def elementValue : Expr → Value
  | .lit _ value => Evaluate.literal value
  | .ident _ name => .typeLabel name
  | .object _ entries => .map (putAll [] (elementFields entries))
  | _ => .unknown

/-- The values of the entries of an object. -/
def elementFields : List Entry → List (String × Value)
  | [] => []
  | .mk (.keyed key) e _ _ :: entries => (key, elementValue e) :: elementFields entries
  | _ :: entries => elementFields entries
end

/-- The values of options. -/
def optionValues (options : List (String × Expr)) : List (String × Value) :=
  options.map fun (key, e) => (key, elementValue e)

theorem elementFields_eq (entries : List Entry) :
    elementFields entries = optionValues (keyedValues entries) := by
  induction entries with
  | nil => rfl
  | cons entry entries ih =>
    obtain ⟨kind, e, loc, comments⟩ := entry
    cases kind with
    | keyed key => rw [elementFields, ih]; rfl
    | spread => rw [elementFields, ih]; rfl; nofun
    | element => rw [elementFields, ih]; rfl; nofun

theorem elementValue_object (loc : Loc) (entries : List Entry) :
    elementValue (.object loc entries) = .map (optionValues (ownOptions entries)) := by
  rw [elementValue, elementFields_eq]
  exact congrArg Value.map (putAll_map elementValue [] (keyedValues entries))

section Evaluation

variable {env : Environment} {s : Session} {program : Program}
  (hprogram : env.index.program? 0 = some program)

include hprogram

/-- **An element evaluates to its value, and nothing else happens.** -/
theorem FlatElement.expression_yields {e : Expr} (h : FlatElement env e)
    {enter : Evaluator Session} (hfree : ∀ name, IsTypeName env name → (0, name) ∉ s.resolving) :
    Yields env s (Evaluate.expression enter 0 none e) (elementValue e) := by
  induction h with
  | lit =>
    rw [Evaluate.expression, elementValue]
    exact .pure _
  | typeName h =>
    rw [Evaluate.expression, elementValue]
    exact lookup_typeName h hprogram (hfree _ h)
  | object keyed _ _ ih =>
    rw [Evaluate.expression, elementValue, elementFields_eq]
    exact (object_yields keyed ih []).bind (.pure _)

theorem FlatElement.resolve_yields {e : Expr} (h : FlatElement env e) (hidle : s.resolving = []) :
    Yields env s (resolve e) (elementValue e) :=
  Yields.index.bind (h.expression_yields hprogram fun _ _ => by
    rw [hidle]
    exact List.not_mem_nil)

end Evaluation

/-! ### Shapes of elements -/

/-- The type that an element names: a literal or a name itself, and an object what it has under its
type marker, if that is a string or a name. Any other element is just an object. -/
def elementLabel? (config : Config) : Expr → Option String
  | .lit _ value => some (literalText value)
  | .ident _ name => some name
  | .object _ entries =>
    match lookupKey? config.typeMarker (ownOptions entries) with
    | some (.lit _ (.string label)) => some label
    | some (.ident _ name) => some name
    | _ => none
  | _ => none

/-- The options of an element. -/
def elementOptions (config : Config) : Expr → List (String × Expr)
  | .object _ entries => eraseKey config.typeMarker (ownOptions entries)
  | _ => []

/-- A type marker that names a type. -/
inductive NamesType (label : String) : Expr → Prop
  | string (loc : Loc) : NamesType label (.lit loc (.string label))
  | name (loc : Loc) : NamesType label (.ident loc label)

theorem exists_marker_of_label {config : Config} {loc : Loc} {entries : List Entry} {label : String}
    (h : elementLabel? config (.object loc entries) = some label) :
    ∃ marker, lookupKey? config.typeMarker (ownOptions entries) = some marker ∧
      NamesType label marker := by
  simp only [elementLabel?] at h
  split at h
  next loc' name hmarker => exact ⟨_, hmarker, Option.some.inj h ▸ .string loc'⟩
  next loc' name hmarker => exact ⟨_, hmarker, Option.some.inj h ▸ .name loc'⟩
  next => cases h

theorem elementLabel?_of_marker {config : Config} {loc : Loc} {entries : List Entry}
    {label : String} {marker : Expr}
    (hmarker : lookupKey? config.typeMarker (ownOptions entries) = some marker)
    (h : NamesType label marker) : elementLabel? config (.object loc entries) = some label := by
  cases h <;> simp only [elementLabel?, hmarker]

theorem FlatElement.beside {env : Environment} {e : Expr} (h : FlatElement env e) :
    ∀ option ∈ elementOptions env.config e, FlatElement env option.2 := by
  intro option hoption
  cases e with
  | object loc entries => exact h.options option (List.mem_of_mem_filter hoption)
  | _ => cases hoption

theorem slots_yields_ownOptions {env : Environment} {s : Session} {key : String}
    {entries : List Entry} (keyed : ∀ entry ∈ entries, ∃ key, entry.kind = .keyed key) :
    Yields env s (slots key [] entries) (nodeSlots (ownOptions entries)) := by
  rw [ownOptions, nodeSlots, ← putAll_map]
  exact slots_yields keyed []

/-- A shape that shows nothing but a type and options. -/
structure Labelled (arrays : Nat) (label : String) (options : List (String × Slot)) (shape : Shape) :
    Prop where
  arrays_eq : shape.arrays = arrays
  typeName_eq : shape.typeName = label
  options_eq : shape.options = options
  children_eq : shape.children = .none
  uncommented : ∀ loc entries, shape.object = some (loc, entries) →
    ∀ entry ∈ entries, entry.comments = .none

theorem labelled_scalar (arrays : Nat) (label : String) :
    Labelled arrays label [] (.scalar arrays label) :=
  ⟨rfl, rfl, rfl, rfl, nofun⟩

/-- A shape of an object, whatever is nested in it. -/
def IsObject (arrays : Nat) (shape : Shape) : Prop :=
  shape.arrays = arrays ∧ shape.typeName = objectType

section Shapes

variable {env : Environment} {s : Session} {program : Program}
  (hprogram : env.index.program? 0 = some program) {e : Expr} (h : FlatElement env e)

include hprogram h

/-- **An element that names a type, as it is written.** -/
theorem FlatElement.nodeShape_yields {label : String}
    (hlabel : elementLabel? env.config e = some label) (hidle : s.resolving = []) (key : String)
    (arrays : Nat) :
    ∃ shape, Yields env s (nodeShape key arrays e) shape ∧
      Labelled arrays label (nodeSlots (elementOptions env.config e)) shape := by
  cases h with
  | lit =>
    obtain rfl := Option.some.inj hlabel
    exact ⟨_, .pure _, labelled_scalar _ _⟩
  | typeName h =>
    obtain rfl := Option.some.inj hlabel
    exact ⟨_, ((SaysValue.typeName h).resolve_yields hprogram hidle).bind (.pure _),
      labelled_scalar _ _⟩
  | @object loc entries keyed uncommented values =>
    obtain ⟨marker, hmarker, hnames⟩ := exists_marker_of_label hlabel
    have hobject : FlatElement env (.object loc entries) := .object keyed uncommented values
    have hflat : FlatElement env marker := hobject.options _ (mem_of_lookupKey? hmarker)
    have hread : ReadByKeys env.config (ownOptions entries) :=
      .inr ⟨marker, hmarker, fun _ _ heq => by cases hnames <;> cases heq⟩
    have htype : Yields env s (typeShape key arrays (some marker)) (.scalar arrays label) := by
      cases hnames with
      | string => exact plainMarkerShape_yields hprogram nofun (.pure _)
      | name =>
        exact plainMarkerShape_yields hprogram nofun
          ((hflat.resolve_yields hprogram hidle).bind (.pure _))
    have hslot : Yields env s (slotShape key arrays (.entries entries (some loc.startLine))
        (nodeSlots (ownOptions entries))) ((Shape.scalar arrays label).withOptions
          (nodeSlots (eraseKey env.config.typeMarker (ownOptions entries)))) := by
      rw [Yields, slotShape_of_readByKeys hread, hmarker]
      exact htype.bind (.pure _)
    refine ⟨_, (slots_yields_ownOptions keyed).bind (hslot.bind (.pure _)),
      rfl, rfl, rfl, rfl, fun _ _ hobject => ?_⟩
    obtain ⟨-, rfl⟩ := Prod.mk.inj (Option.some.inj hobject)
    exact uncommented

omit h in
/-- A type marker that names no type makes an object. -/
theorem typeShape_completes_object {marker : Option Expr} (h : ∀ e ∈ marker, FlatElement env e)
    (hnot : ∀ e ∈ marker, ∀ label, ¬NamesType label e) (key : String) (arrays : Nat) :
    Completes env (typeShape key arrays marker) (IsObject arrays) := by
  cases marker with
  | none => exact .pure ⟨rfl, rfl⟩
  | some marker =>
    cases h marker rfl with
    | @lit loc value =>
      -- A literal that is no string is no type either.
      have hmarkerLabel : Completes env (markerLabel key (.lit loc value)) (· = objectType) := by
        have hresolve : Completes env (resolve (.lit loc value))
            (· = elementValue (.lit loc value)) :=
          .of_yields (fun s hidle => FlatElement.lit.resolve_yields hprogram hidle) rfl
        cases value with
        | string label => exact absurd (.string loc) (hnot _ rfl label)
        | _ =>
          refine hresolve.bind ?_
          rintro _ rfl
          exact (Completes.warn _).bind fun _ _ => .pure rfl
      refine (Composed.lit.inlineFields_completes hprogram key).bind ?_
      rintro _ rfl
      refine hmarkerLabel.bind ?_
      rintro _ rfl
      exact .pure ⟨rfl, rfl⟩
    | @typeName loc name _ => exact absurd (.name loc) (hnot _ rfl name)
    | object => exact .pure ⟨rfl, rfl⟩

/-- **An element that names no type, as it is written.** -/
theorem FlatElement.nodeShape_completes (hlabel : elementLabel? env.config e = none) (key : String)
    (arrays : Nat) : Completes env (nodeShape key arrays e) (IsObject arrays) := by
  cases h with
  | lit => cases hlabel
  | typeName => cases hlabel
  | @object loc entries keyed uncommented values =>
    have hobject : FlatElement env (.object loc entries) := .object keyed uncommented values
    have hslots : Completes env (slots key [] entries) (· = nodeSlots (ownOptions entries)) :=
      .of_yields (fun s _ => slots_yields_ownOptions keyed) rfl
    have hslot : Completes env (slotShape key arrays (.entries entries (some loc.startLine))
        (nodeSlots (ownOptions entries))) (IsObject arrays) := by
      by_cases hread : ReadByKeys env.config (ownOptions entries)
      · refine .congr ?_ fun s => slotShape_of_readByKeys hread key arrays _
        refine (typeShape_completes_object hprogram (fun marker hmarker => ?_)
          (fun marker hmarker label hnames => ?_) key arrays).bind fun _ hshape => .pure hshape
        · exact hobject.options _ (mem_of_lookupKey? hmarker)
        · rw [elementLabel?_of_marker hmarker hnames] at hlabel
          cases hlabel
      · exact .of_yields (fun s _ => slotShape_of_not_readByKeys hread key arrays _) ⟨rfl, rfl⟩
    refine hslots.bind ?_
    rintro _ rfl
    exact hslot.bind fun _ hshape => .pure hshape

omit hprogram in
/-- **An element that names a type, as a value.** -/
theorem FlatElement.valueShape_yields {label : String}
    (hlabel : elementLabel? env.config e = some label) (key : String) (arrays : Nat) :
    ∃ shape, Yields env s (valueShape env.config key arrays (elementValue e)) shape ∧
      Labelled arrays label
        (valueSlots (optionValues (elementOptions env.config e))) shape := by
  cases h with
  | @lit loc value =>
    obtain rfl := Option.some.inj hlabel
    refine ⟨_, ?_, labelled_scalar _ _⟩
    cases value <;> exact .pure _
  | typeName h =>
    obtain rfl := Option.some.inj hlabel
    exact ⟨_, .pure _, labelled_scalar _ _⟩
  | @object loc entries keyed uncommented values =>
    obtain ⟨marker, hmarker, hnames⟩ := exists_marker_of_label hlabel
    have hvalue : lookupKey? env.config.typeMarker (optionValues (ownOptions entries)) =
        some (elementValue marker) := by
      rw [optionValues, lookupKey?_map, hmarker]
      rfl
    have hrest : eraseKey env.config.typeMarker (optionValues (ownOptions entries)) =
        optionValues (eraseKey env.config.typeMarker (ownOptions entries)) := eraseKey_map _ _ _
    have hmarkerShape : Yields env s (valueShape env.config key arrays (elementValue marker))
        (.scalar arrays label) := by
      cases hnames <;> exact .pure _
    rw [elementValue_object, valueShape_marked hvalue, hrest]
    exact ⟨_, hmarkerShape.bind (.pure _), rfl, rfl, rfl, rfl, nofun⟩

end Shapes

/-! ### Options that are values -/

section Values

variable {env : Environment} {s : Session}

theorem optionTexts_yields_of_values (fields : List (String × Value)) (names : List String) :
    Yields env s (optionTexts (valueSlots fields) names) (names.filterMap fun name =>
      (lookupKey? name fields).bind (optionText? name)) := by
  induction names with
  | nil => exact .pure _
  | cons name names ih =>
    have hslot : lookupKey? name (valueSlots fields) = (lookupKey? name fields).map Slot.value :=
      lookupKey?_map _ _ _
    rw [optionTexts, hslot, List.filterMap_cons]
    cases lookupKey? name fields with
    | none => exact ih
    | some v =>
      refine (Yields.pure v).bind (ih.bind ?_)
      cases htext : optionText? name v <;> simp [htext] <;> exact .pure _

theorem bullet_yields_of_values {shape : Shape} {fields : List (String × Value)}
    (hshape : shape.options = valueSlots fields) (key : String) (depth : Nat) :
    Yields env s (bullet key shape depth) (bulletText key (typeText shape)
      (env.config.options.filterMap fun name => (lookupKey? name fields).bind (optionText? name))
      depth) := by
  have htexts : Yields env s (optionTexts shape.options env.config.options) _ :=
    hshape ▸ optionTexts_yields_of_values fields env.config.options
  exact Yields.config.bind (htexts.bind (.pure _))

theorem exists_ok_of_gives {α : Type} {x : Eval α} {result : α → Prop}
    (h : Gives env (fun _ => False) x result) (s : Session) :
    ∃ a s', x env s = (.ok a, s') ∧ result a := by
  rcases hrun : x env s with ⟨stop | a, s'⟩
  · exact ((h s).2 stop (by rw [hrun])).elim
  · exact ⟨a, s', rfl, (h s).1 a (by rw [hrun])⟩

/-- The nested fields of the shape of a value render, and nothing written is rendered for them. -/
theorem OfValue.exists_children {depth : Nat} {shape : Shape} (h : OfValue depth shape)
    (level : Nat) (s : Session) : ∃ children s', ∀ rec splicing,
      childFields rec splicing level shape.children env s = (.ok children, s') := by
  have hbody := h.body
  unfold Shape.body? at hbody
  cases hchildren : shape.children with
  | none => exact ⟨[], s, fun _ _ => rfl⟩
  | entries inner line => simp only [hchildren, reduceCtorEq] at hbody
  | values fields =>
    obtain ⟨children, s', hrun, -⟩ := exists_ok_of_gives
      (valueFields_gives (fieldsDepth fields + 1) level fields (Nat.le_succ _)) s
    exact ⟨children, s', fun _ _ => hrun⟩

/-- **A field whose definition has the shape of a value renders.** -/
theorem exists_field_of_value {key : String} {entry : Entry} {config : Config} {arrays : Nat}
    {v : Value} (hshape : shapeOf key entry.value env s = valueShape config key arrays v env s)
    (depth : Nat) (line : Option Nat) :
    ∃ text s', ∀ rec splicing, field rec splicing depth line key entry env s = (.ok text, s') := by
  obtain ⟨shape, s₁, hrun, hof⟩ := exists_ok_of_gives (valueShape_gives config key arrays v) s
  obtain ⟨b, s₂, hbullet⟩ : ∃ b s₂, bullet key shape depth env s₁ = (.ok b, s₂) := by
    obtain ⟨b, s₂, hbullet, -⟩ := exists_ok_of_gives (hof.bullet_gives key depth) s₁
    exact ⟨b, s₂, hbullet⟩
  obtain ⟨children, s₃, hchildren⟩ : ∃ children s₃, ∀ rec splicing,
      childFields rec splicing (depth + 1) shape.children env s₂ = (.ok children, s₃) :=
    hof.exists_children (depth + 1) s₂
  let description := Description.ofComments (fieldComments entry shape line) depth
  refine ⟨fieldText b description children, s₃, fun rec splicing => ?_⟩
  refine (Eval.run_bind_ok (hshape.trans hrun)).trans ((Eval.run_bind_ok hbullet).trans ?_)
  exact Eval.run_bind_ok (hchildren rec splicing)

end Values

/-! ### Fields of one line -/

/-- A field that shows a type in arrays and options, and nothing is nested in it. -/
def typeLine (depth : Nat) (key : String) (description : String) (arrays : Nat) (label : String)
    (shown : List String) : String :=
  fieldText (bulletText key (typeText (.scalar arrays label)) shown depth) description []

/-- The options that an element shows. -/
def elementShows (config : Config) (e : Expr) : List String :=
  shownOptions config elementValue (elementOptions config e)

theorem fieldComments_of_labelled {arrays : Nat} {label : String} {options : List (String × Slot)}
    {shape : Shape} (h : Labelled arrays label options shape) (entry : Entry) (line : Option Nat) :
    fieldComments entry shape line = ownComments entry.comments line := by
  cases hobject : shape.object with
  | none => simp [fieldComments, ownComments, hobject]
  | some object => exact fieldComments_of_uncommented (h.uncommented _ _ hobject) hobject line

section Fields

variable {env : Environment} {s : Session} {key : String} {entry : Entry} {arrays : Nat}
  {label : String} {options : List (String × Slot)} {shape : Shape} {depth : Nat}

theorem Labelled.field_yields (h : Labelled arrays label options shape)
    (hshape : Yields env s (shapeOf key entry.value) shape) {shown : List String}
    (hbullet : Yields env s (bullet key shape depth)
      (bulletText key (typeText shape) shown depth))
    (rec : Renderer) (splicing : List String) (line : Option Nat) :
    Yields env s (field rec splicing depth line key entry) (typeLine depth key
      (Description.ofComments (ownComments entry.comments line) depth) arrays label shown) := by
  have htype : typeText shape = typeText (.scalar arrays label) := by
    rw [typeText, typeText, h.arrays_eq, h.typeName_eq]
    rfl
  have hchildren : Yields env s (childFields rec splicing (depth + 1) shape.children) [] := by
    rw [h.children_eq]
    exact .pure []
  rw [typeLine, ← htype, ← fieldComments_of_labelled h]
  exact hshape.bind (hbullet.bind (hchildren.bind (.pure _)))

theorem field_yields_of_scalar (hshape : Yields env s (shapeOf key entry.value) (.scalar arrays label))
    (rec : Renderer) (splicing : List String) (line : Option Nat) :
    Yields env s (field rec splicing depth line key entry) (typeLine depth key
      (Description.ofComments (ownComments entry.comments line) depth) arrays label []) := by
  have hshown : (env.config.options.filterMap fun name =>
      (lookupKey? name []).bind (optionText? name)) = [] := by simp [lookupKey?]
  refine (labelled_scalar arrays label).field_yields hshape ?_ rec splicing line
  exact hshown ▸ bullet_yields_of_values rfl key depth

variable {program : Program} (hprogram : env.index.program? 0 = some program)
  (hidle : s.resolving = []) {e : Expr} (hflat : FlatElement env e)

include hprogram hidle hflat in
/-- The field of an element, as it is written. -/
theorem FlatElement.field_yields (hlabel : elementLabel? env.config e = some label)
    (hshape : shapeOf key entry.value env s = nodeShape key arrays e env s) (rec : Renderer)
    (splicing : List String) (line : Option Nat) :
    Yields env s (field rec splicing depth line key entry) (typeLine depth key
      (Description.ofComments (ownComments entry.comments line) depth) arrays label
      (elementShows env.config e)) := by
  obtain ⟨shape, hrun, hlabelled⟩ := hflat.nodeShape_yields hprogram hlabel hidle key arrays
  refine hlabelled.field_yields (hshape.trans hrun) ?_ rec splicing line
  exact bullet_yields_values (fun option hoption =>
    (hflat.beside option hoption).resolve_yields hprogram hidle) hlabelled.options_eq key depth

include hflat in
/-- The field of an element, as a value. -/
theorem FlatElement.field_yields_of_value (hlabel : elementLabel? env.config e = some label)
    (hshape : shapeOf key entry.value env s =
      valueShape env.config key arrays (elementValue e) env s) (rec : Renderer)
    (splicing : List String) (line : Option Nat) :
    Yields env s (field rec splicing depth line key entry) (typeLine depth key
      (Description.ofComments (ownComments entry.comments line) depth) arrays label
      (elementShows env.config e)) := by
  obtain ⟨shape, hrun, hlabelled⟩ := hflat.valueShape_yields hlabel key arrays
  have hshown : (env.config.options.filterMap fun name =>
      (lookupKey? name (optionValues (elementOptions env.config e))).bind (optionText? name)) =
        elementShows env.config e := by
    simp only [optionValues, lookupKey?_map, Option.bind_map]
    rfl
  refine hlabelled.field_yields (hshape.trans hrun) ?_ rec splicing line
  exact hshown ▸ bullet_yields_of_values hlabelled.options_eq key depth

end Fields

/-! ### Comparing fields -/

theorem typeText_succ (arrays : Nat) (label : String) :
    typeText (.scalar (arrays + 1) label) = typeText (.scalar arrays ("[" ++ label ++ "]")) := by
  have hclose : List.replicate (arrays + 1) ']' = ']' :: List.replicate arrays ']' :=
    List.replicate_succ
  apply String.ext
  simp [typeText, Shape.scalar, List.replicate_succ', ← hclose]

theorem fieldHead_succ (depth : Nat) (key : String) (arrays : Nat) (label : String) :
    fieldHead depth key (arrays + 1) label = fieldHead depth key arrays ("[" ++ label ++ "]") := by
  rw [fieldHead, fieldHead, typeText_succ]

theorem typeLine_succ (depth : Nat) (key description : String) (arrays : Nat) (label : String)
    (shown : List String) : typeLine depth key description (arrays + 1) label shown =
      typeLine depth key description arrays ("[" ++ label ++ "]") shown := by
  rw [typeLine, typeLine, typeText_succ]

theorem exists_rest_of_typeLine (depth : Nat) (key description : String) (arrays : Nat)
    (label : String) (shown : List String) :
    ∃ rest, typeLine depth key description arrays label shown =
      fieldHead depth key arrays label ++ rest := by
  obtain ⟨rest, hrest⟩ := exists_rest_of_fieldText
    (bulletText key (typeText (.scalar arrays label)) shown depth) description []
  rw [typeLine, hrest, bulletText]
  split
  · exact ⟨rest, rfl⟩
  · exact ⟨" " ++ fenced shown ++ rest, by simp only [fieldHead, String.append_assoc]⟩

/-- A type that starts differently is not that of an object. -/
theorem fieldHead_append_ne {depth : Nat} {key label : String} {c : Char} {cs : List Char}
    (hlabel : label.toList = c :: cs) (hne : c ≠ 'O') (rest rest' : String) :
    fieldHead depth key 1 label ++ rest ≠ fieldHead depth key 1 objectType ++ rest' := by
  have hobject : objectType.toList = ['O', 'b', 'j', 'e', 'c', 't'] := rfl
  intro heq
  have hlist := congrArg String.toList heq
  simp [fieldHead, typeText, Shape.scalar, hlabel, hobject, hne] at hlist

theorem fieldText_injective {b b' description : String}
    (h : fieldText b description [] = fieldText b' description []) : b = b' := by
  simp only [fieldText, String.intercalate_singleton, Description.attach] at h
  split at h
  · exact h
  · simpa [String.append_assoc] using h

theorem length_typeLine (depth : Nat) (key description : String) (arrays : Nat) (label : String)
    (shown : List String) : (typeLine depth key description arrays label shown).length =
      2 * arrays + (typeLine depth key description 0 label shown).length := by
  simp only [typeLine, fieldText, String.intercalate_singleton, Description.attach, bulletText,
    typeText, Shape.scalar]
  split <;> split <;>
  · simp only [String.length_append, String.length_ofList, List.length_replicate]
    omega

/-- Options end in two backquotes. -/
theorem exists_front_of_fenced {shown : List String} (h : shown ≠ []) :
    ∃ front, fenced shown = front ++ "\x60\x60" := by
  induction shown with
  | nil => exact absurd rfl h
  | cons option shown ih =>
    cases shown with
    | nil => exact ⟨"\x60\x60" ++ option, String.intercalate_singleton⟩
    | cons option' shown =>
      obtain ⟨front, hfront⟩ := ih nofun
      have hcons : fenced (option :: option' :: shown) =
          "\x60\x60" ++ option ++ "\x60\x60" ++ " " ++ fenced (option' :: shown) :=
        String.intercalate_cons_cons
      exact ⟨_, by rw [hcons, hfront, ← String.append_assoc]⟩

theorem typeLine_injective {depth : Nat} {key description label label' : String}
    {shown : List String} (h : typeLine depth key description 1 label shown =
      typeLine depth key description 1 label' []) : label = label' ∧ shown = [] := by
  have hbullet := fieldText_injective h
  by_cases hshown : shown = []
  · subst hshown
    simpa [bulletText, typeText, Shape.scalar] using hbullet
  · obtain ⟨front, hfront⟩ := exists_front_of_fenced hshown
    have hempty : shown.isEmpty = false := by simpa using hshown
    have hlast := congrArg (fun text => text.toList.reverse) hbullet
    simp [bulletText, hempty, hfront, typeText, Shape.scalar] at hlast

/-! ### Array literals with spreads -/

/-- The entries of an array literal, and the same with all elements written out: elements that are
no arrays, and spreads of names that the program declares once, by array literals of such
elements. -/
inductive Expands (env : Environment) (program : Program) : List Entry → List Entry → Prop
  | nil : Expands env program [] []
  | element {entry : Entry} {entries entries' : List Entry} (helement : entry.kind = .element)
    (hflat : FlatElement env entry.value) (h : Expands env program entries entries') :
    Expands env program (entry :: entries) (entry :: entries')
  | spread {nameLoc arrayLoc loc : Loc} {name : String} {comments : Comments}
    {elements entries entries' : List Entry}
    (hdeclared : DeclaredOnce program name (.array arrayLoc elements))
    (helements : ∀ entry ∈ elements, entry.kind = .element)
    (hflat : ∀ entry ∈ elements, FlatElement env entry.value)
    (h : Expands env program entries entries') :
    Expands env program (.mk .spread (.ident nameLoc name) loc comments :: entries)
      (elements ++ entries')

theorem Expands.elements {env : Environment} {program : Program} {entries entries' : List Entry}
    (h : Expands env program entries entries') :
    ∀ entry ∈ entries', entry.kind = .element ∧ FlatElement env entry.value := by
  induction h with
  | nil => exact nofun
  | element helement hflat _ ih => exact List.forall_mem_cons.mpr ⟨⟨helement, hflat⟩, ih⟩
  | spread _ helements hflat _ ih =>
    exact List.forall_mem_append.mpr ⟨fun entry h => ⟨helements entry h, hflat entry h⟩, ih⟩

/-- Entries that start with the spread of a name, which is declared as an array of elements. -/
def SpreadsFirst (program : Program) (entries : List Entry) (name : String)
    (elements : List Entry) : Prop :=
  ∃ nameLoc arrayLoc loc comments rest,
    entries = .mk .spread (.ident nameLoc name) loc comments :: rest ∧
      DeclaredOnce program name (.array arrayLoc elements)

/-- What a field shows as the type of the elements of an array literal that starts with the spread of
a name, if it is none of the types of these elements: a name that always means the same is taken for
the name of a schema, and an empty array is an array of anything. -/
def misread? (name : String) (elements : List Entry) : Option String :=
  if (constant? name).isSome then some (Name.schemaLabel name)
  else if elements.isEmpty then some ("[" ++ mixedType ++ "]")
  else none

theorem constant?_eq_some {name : String} {v : Value} (h : constant? name = some v) :
    name = "undefined" ∧ v = .unknown ∨
      (name = "NaN" ∨ name = "Infinity") ∧ ∃ x, v = .num x := by
  unfold constant? at h
  split at h
  next hname => exact .inl ⟨eq_of_beq hname, (Option.some.inj h).symm⟩
  next =>
    split at h
    next hname => exact .inr ⟨.inl (eq_of_beq hname), _, (Option.some.inj h).symm⟩
    next =>
      split at h
      next hname => exact .inr ⟨.inr (eq_of_beq hname), _, (Option.some.inj h).symm⟩
      next => cases h

/-- A misread type is neither that of an object nor that of the elements of an empty array. -/
theorem misread?_spec {name : String} {elements : List Entry} {label : String}
    (h : misread? name elements = some label) :
    label ≠ mixedType ∧ ∃ c cs, label.toList = c :: cs ∧ c ≠ 'O' := by
  unfold misread? at h
  split at h
  next hconstant =>
    obtain rfl := Option.some.inj h
    obtain ⟨v, hv⟩ := Option.isSome_iff_exists.mp hconstant
    obtain ⟨rfl, -⟩ | ⟨rfl | rfl, -⟩ := constant?_eq_some hv <;>
      exact ⟨by decide, _, _, rfl, by decide⟩
  next =>
    split at h
    · obtain rfl := Option.some.inj h
      exact ⟨by decide, _, _, rfl, by decide⟩
    · cases h

theorem misread?_eq_none {name : String} {elements : List Entry} (h : misread? name elements = none) :
    constant? name = none ∧ ∃ first rest, elements = first :: rest := by
  unfold misread? at h
  split at h
  · cases h
  next hconstant =>
    cases elements with
    | nil => cases h
    | cons first rest => exact ⟨by simpa using hconstant, first, rest, rfl⟩

section Spreads

variable {env : Environment} {s : Session} {program : Program}
  (hprogram : env.index.program? 0 = some program) (hidle : s.resolving = []) {key : String}
  {depth : Nat}

/-! #### The elements written out -/

theorem shapeOf_of_first {first : Entry} (hflat : FlatElement env first.value) (loc : Loc)
    (rest : List Entry) (key : String) :
    shapeOf key (.array loc (first :: rest)) = nodeShape key 1 first.value := by
  have hnot : ∀ loc entries, first.value ≠ .array loc entries := by
    intro loc entries heq
    rw [heq] at hflat
    cases hflat
  have hthrough : throughArrays arrayLimit (.array loc (first :: rest)) = (1, some first.value) := by
    simp only [arrayLimit, throughArrays, throughArrays_of_not_array hnot]
  rw [shapeOf, hthrough]

include hprogram hidle in
/-- A field that takes the type of an element which names none is an object. -/
theorem FlatElement.exists_rest_of_object {e : Expr} (hflat : FlatElement env e)
    (hlabel : elementLabel? env.config e = none) {entry : Entry}
    (hshape : shapeOf key entry.value = nodeShape key 1 e) {rec : Renderer}
    {splicing : List String} {line : Option Nat} {text : String} {s' : Session}
    (hrun : field rec splicing depth line key entry env s = (.ok text, s')) :
    ∃ rest, text = fieldHead depth key 1 objectType ++ rest := by
  obtain ⟨shape, s₁, rest, hrun₁, rfl⟩ := exists_rest_of_field hrun
  obtain ⟨shape', s₂, hrun', -, harrays, htypeName⟩ :=
    hflat.nodeShape_completes hprogram hlabel key 1 s hidle
  rw [hshape, hrun'] at hrun₁
  obtain ⟨hok, -⟩ := Prod.mk.inj hrun₁
  obtain rfl := Except.ok.inj hok
  exact ⟨rest, by rw [harrays, htypeName]⟩

/-- The text of a field whose definition is an array literal of elements. -/
inductive ElementText (config : Config) (depth : Nat) (key description : String) :
    List Entry → String → Prop
  | empty : ElementText config depth key description []
    (typeLine depth key description 1 mixedType [])
  | labelled {first : Entry} {rest : List Entry} {label : String}
    (h : elementLabel? config first.value = some label) :
    ElementText config depth key description (first :: rest)
      (typeLine depth key description 1 label (elementShows config first.value))
  | object {first : Entry} {rest : List Entry} (h : elementLabel? config first.value = none)
    (more : String) : ElementText config depth key description (first :: rest)
      (fieldHead depth key 1 objectType ++ more)

include hprogram hidle in
theorem elementText_of_field {entries : List Entry} {loc : Loc} {entry : Entry}
    (hflat : ∀ element ∈ entries, FlatElement env element.value)
    (hentry : entry.value = .array loc entries) {rec : Renderer} {splicing : List String}
    {line : Option Nat} {text : String} {s' : Session}
    (hrun : field rec splicing depth line key entry env s = (.ok text, s')) :
    ElementText env.config depth key
      (Description.ofComments (ownComments entry.comments line) depth) entries text := by
  have hunique {expected : String}
      (h : Yields env s (field rec splicing depth line key entry) expected) : expected = text :=
    Except.ok.inj (Prod.mk.inj (h.symm.trans hrun)).1
  cases entries with
  | nil =>
    have hshape : Yields env s (shapeOf key entry.value) (.scalar 1 mixedType) := by
      rw [hentry]
      exact .pure _
    exact hunique (field_yields_of_scalar hshape rec splicing line) ▸ .empty
  | cons first rest =>
    have hfirst : FlatElement env first.value := hflat first List.mem_cons_self
    have hshape : shapeOf key entry.value = nodeShape key 1 first.value := by
      rw [hentry]
      exact shapeOf_of_first hfirst loc rest key
    cases hlabel : elementLabel? env.config first.value with
    | some label =>
      exact hunique (hfirst.field_yields hprogram hidle hlabel (congrFun (congrFun hshape env) s)
        rec splicing line) ▸ .labelled hlabel
    | none =>
      obtain ⟨more, rfl⟩ := hfirst.exists_rest_of_object hprogram hidle hlabel hshape hrun
      exact .object hlabel more

/-! #### A spread in front -/

variable {name : String} {arrayLoc : Loc} {elements : List Entry}
  (hdeclared : DeclaredOnce program name (.array arrayLoc elements))
  (helements : ∀ entry ∈ elements, entry.kind = .element)
  (hflat : ∀ entry ∈ elements, FlatElement env entry.value)

include hprogram hidle hdeclared helements hflat

theorem resolve_yields_list (hconstant : constant? name = none) (loc : Loc) :
    Yields env s (resolve (.ident loc name))
      (.list (elements.map fun entry => elementValue entry.value)) := by
  refine hdeclared.resolve_yields_of hprogram hidle hconstant (fun s' hfree => ?_) loc
  rw [Evaluate.expression]
  exact (array_yields helements fun entry hentry =>
    (hflat entry hentry).expression_yields hprogram hfree).bind (.pure _)

/-- A name that is taken for an element, if that gives none of the types of the elements. -/
theorem field_yields_of_misread {label : String} (hlabel : misread? name elements = some label)
    {entry : Entry} {loc : Loc} (hshape : shapeOf key entry.value = nodeShape key 1 (.ident loc name))
    (rec : Renderer) (splicing : List String) (line : Option Nat) :
    Yields env s (field rec splicing depth line key entry) (typeLine depth key
      (Description.ofComments (ownComments entry.comments line) depth) 1 label []) := by
  unfold misread? at hlabel
  split at hlabel
  next hconstant =>
    obtain rfl := Option.some.inj hlabel
    obtain ⟨v, hv⟩ := Option.isSome_iff_exists.mp hconstant
    refine field_yields_of_scalar ?_ rec splicing line
    have hresolve : Yields env s (resolve (.ident loc name)) v := by
      refine Yields.index.bind ?_
      rw [evaluate, Evaluate.step, Evaluate.expression]
      refine (local?_none name).bind ?_
      rw [hv]
      exact .pure _
    rw [hshape]
    refine hresolve.bind ?_
    obtain ⟨-, rfl⟩ | ⟨-, x, rfl⟩ := constant?_eq_some hv <;> exact .pure _
  next hconstant =>
    split at hlabel
    next hempty =>
      obtain rfl := Option.some.inj hlabel
      obtain rfl := List.isEmpty_iff.mp hempty
      have hresolve := resolve_yields_list hprogram hidle hdeclared helements hflat
        (by simpa using hconstant) loc
      rw [← typeLine_succ]
      refine field_yields_of_scalar ?_ rec splicing line
      rw [hshape]
      exact hresolve.bind (Yields.config.bind (.pure _))
    next => cases hlabel

/-- A name that is taken for an element otherwise: the first element in one more array. -/
theorem shapeOf_of_spread {first : Entry} {rest : List Entry} (hcons : elements = first :: rest)
    (hconstant : constant? name = none) {entry : Entry} {loc : Loc}
    (hshape : shapeOf key entry.value = nodeShape key 1 (.ident loc name)) :
    shapeOf key entry.value env s =
      valueShape env.config key 2 (elementValue first.value) env s := by
  have hresolve := resolve_yields_list hprogram hidle hdeclared helements hflat hconstant loc
  rw [hshape]
  refine (Eval.run_bind_ok hresolve).trans ?_
  rw [hcons]
  refine (Eval.run_bind_ok Yields.config).trans ?_
  rw [List.map_cons, valueShape, if_pos (by decide)]

omit hprogram hidle helements hflat in
theorem DeclaredOnce.elements_eq {arrayLoc' : Loc} {elements' : List Entry}
    (h : DeclaredOnce program name (.array arrayLoc' elements')) : elements' = elements := by
  have horigin := h.origin?_eq.symm.trans hdeclared.origin?_eq
  cases horigin
  rfl

end Spreads

/-- An element whose field shows a type and nothing else. -/
def ShowsOnly (config : Config) (e : Expr) (label : String) : Prop :=
  elementLabel? config e = some label ∧ elementShows config e = []

/-- A misread type is the right one if the first element shows nothing else. -/
theorem ElementText.eq_misread_iff {config : Config} {depth : Nat} {key description text : String}
    {entries : List Entry} (h : ElementText config depth key description entries text)
    {name label : String} {elements : List Entry} (hlabel : misread? name elements = some label) :
    typeLine depth key description 1 label [] = text ↔
      ∃ first rest, entries = first :: rest ∧ ShowsOnly config first.value label := by
  obtain ⟨hmixed, c, cs, hcons, hne⟩ := misread?_spec hlabel
  cases h with
  | empty =>
    refine ⟨fun heq => absurd (typeLine_injective heq.symm).1.symm hmixed, ?_⟩
    rintro ⟨first, rest, hentries, -⟩
    cases hentries
  | @labelled first rest label' h =>
    refine ⟨fun heq => ?_, ?_⟩
    · obtain ⟨rfl, hshown⟩ := typeLine_injective heq.symm
      exact ⟨first, rest, rfl, h, hshown⟩
    · rintro ⟨first', rest', hentries, hlabel', hshown⟩
      cases hentries
      cases h.symm.trans hlabel'
      rw [hshown]
  | object h more =>
    refine ⟨fun heq => ?_, ?_⟩
    · obtain ⟨rest, hrest⟩ := exists_rest_of_typeLine depth key description 1 label []
      exact absurd (hrest.symm.trans heq) (fieldHead_append_ne hcons hne _ _)
    · rintro ⟨first', rest', hentries, hlabel', -⟩
      cases hentries
      cases h.symm.trans hlabel'

section Main

variable {env : Environment} {s : Session} {program : Program}
  (hprogram : env.index.program? 0 = some program) (hidle : s.resolving = [])

/-- A field that is one with an element inside two arrays renders, and unlike the one with the
element inside one array. -/
theorem field_in_two_arrays {first : Entry} {rest : List Entry}
    (hfirst : FlatElement env first.value) {key : String} {entry : Entry}
    (hshape : shapeOf key entry.value env s =
      valueShape env.config key 2 (elementValue first.value) env s) (depth : Nat)
    (line : Option Nat) :
    ∃ text s', (∀ rec splicing, field rec splicing depth line key entry env s = (.ok text, s')) ∧
      ¬ElementText env.config depth key
        (Description.ofComments (ownComments entry.comments line) depth) (first :: rest) text := by
  cases hlabel : elementLabel? env.config first.value with
  | some label =>
    refine ⟨_, s, fun rec splicing =>
      hfirst.field_yields_of_value hlabel hshape rec splicing line, fun htext => ?_⟩
    generalize htextEq : typeLine depth key _ 2 label _ = text at htext
    cases htext with
    | labelled h =>
      cases hlabel.symm.trans h
      have hlength := congrArg String.length htextEq
      rw [length_typeLine, length_typeLine _ _ _ 1] at hlength
      omega
    | object h => cases hlabel.symm.trans h
  | none =>
    obtain ⟨text, s', hrun⟩ := exists_field_of_value hshape depth line
    refine ⟨text, s', hrun, fun htext => ?_⟩
    obtain ⟨shape, s₁, more, hrun₁, rfl⟩ := exists_rest_of_field (hrun (renderEntries 0) [])
    have hgives : Gives env (fun _ => True)
        (valueShape env.config key 2 (elementValue first.value)) (WithinLimit 2) :=
      valueShape_arrays env.config key (by decide) _
    have hwithin := (hgives s).1 shape (by rw [← hshape, hrun₁])
    have harrays : shape.arrays = 1 + 1 := Nat.le_antisymm hwithin.2 hwithin.1
    generalize htextEq : fieldHead depth key shape.arrays shape.typeName ++ more = text at htext
    cases htext with
    | labelled h => cases hlabel.symm.trans h
    | object h more' =>
      rw [harrays, fieldHead_succ] at htextEq
      have hcons : ("[" ++ shape.typeName ++ "]").toList = '[' :: (shape.typeName ++ "]").toList := by
        simp
      exact fieldHead_append_ne hcons (by decide) more more' htextEq

include hprogram hidle in
/-- **A spread in front.** The field renders, and unlike the one with the elements written out, unless
the type is misread and happens to be that of the first element. -/
theorem leading_spread_renders {name : String} {nameLoc arrayLoc loc spreadLoc : Loc}
    {elements entries : List Entry} {spreadComments : Comments}
    (hdeclared : DeclaredOnce program name (.array arrayLoc elements))
    (helements : ∀ entry ∈ elements, entry.kind = .element)
    (hflat : ∀ entry ∈ elements, FlatElement env entry.value) (tail : List Entry) (entry : Entry)
    (hentry : entry.value =
      .array loc (.mk .spread (.ident nameLoc name) spreadLoc spreadComments :: entries))
    (depth : Nat) (line : Option Nat) (key : String) :
    ∃ text s', (∀ rec splicing, field rec splicing depth line key entry env s = (.ok text, s')) ∧
      ∀ text', ElementText env.config depth key
          (Description.ofComments (ownComments entry.comments line) depth) (elements ++ tail) text' →
        (text = text' ↔ ∃ label first rest, misread? name elements = some label ∧
          elements ++ tail = first :: rest ∧ ShowsOnly env.config first.value label) := by
  have hshape : shapeOf key entry.value = nodeShape key 1 (.ident nameLoc name) := by
    rw [hentry]
    rfl
  cases hmisread : misread? name elements with
  | some label =>
    refine ⟨_, s, fun rec splicing => field_yields_of_misread hprogram hidle hdeclared helements
      hflat hmisread hshape rec splicing line, fun text' htext => ?_⟩
    rw [htext.eq_misread_iff hmisread]
    refine ⟨fun ⟨first, rest, h⟩ => ⟨label, first, rest, rfl, h⟩, ?_⟩
    rintro ⟨label', first, rest, hlabel, h⟩
    cases hlabel
    exact ⟨first, rest, h⟩
  | none =>
    obtain ⟨hconstant, first, rest, rfl⟩ := misread?_eq_none hmisread
    obtain ⟨text, s', hrun, hne⟩ := field_in_two_arrays (hflat first List.mem_cons_self)
      (shapeOf_of_spread hprogram hidle hdeclared helements hflat rfl hconstant hshape) depth line
    refine ⟨text, s', hrun, fun text' htext => ⟨fun heq => absurd (heq ▸ htext) hne, ?_⟩⟩
    rintro ⟨label, -, -, hlabel, -⟩
    cases hlabel

end Main

/-- **Spreads in an array literal render as their elements, unless one is in front.** Take an array
literal of literals, names of global types, objects of those, and spreads of names that are declared
once, by array literals of such elements; and take the same with the elements of the spread arrays in
their places. Both give a field under every key, with the same text if the first entry is no spread.
If it is one, then the texts are the same only if the type is misread, because the name always means
the same or its array is empty, and the first element happens to show what it is misread as and
nothing else. -/
theorem spreads_render_as_elements_iff {env : Environment} {program : Program}
    (hprogram : env.index.program? 0 = some program) {entries entries' : List Entry}
    (hexpands : Expands env program entries entries') {s : Session} (hidle : s.resolving = [])
    (splicing : List String) (depth : Nat) (line : Option Nat) (key : String)
    (loc loc' entryLoc entryLoc' : Loc) (comments : Comments) :
    let entry : Entry := .mk (.keyed key) (.array loc entries) entryLoc comments
    let entry' : Entry := .mk (.keyed key) (.array loc' entries') entryLoc' comments
    ∃ fuel text text' s₁ s₂,
      (∀ more, field (renderEntries (fuel + more)) splicing depth line key entry env s =
          (.ok text, s₁) ∧
        field (renderEntries (fuel + more)) splicing depth line key entry' env s =
          (.ok text', s₂)) ∧
      (text = text' ↔ ∀ name elements, SpreadsFirst program entries name elements →
        ∃ label first rest, misread? name elements = some label ∧ entries' = first :: rest ∧
          ShowsOnly env.config first.value label) := by
  intro entry entry'
  have hwritten := hexpands.elements
  have hcomposed : Composed env entry'.value :=
    .array (fun element h => (hwritten element h).1) fun element h => (hwritten element h).2.composed
  let fuel := sizeOf entry'.value
  obtain ⟨text', s₂, hrun', -⟩ := field_completes hprogram hcomposed
    (renderEntries_completes hprogram fuel) splicing depth line key s hidle
  have hmore' (more : Nat) : field (renderEntries (fuel + more)) splicing depth line key entry' env s =
      (.ok text', s₂) :=
    (field_agree (renderEntries_agree fuel more) splicing depth line key entry'
      (by rw [hrun']; exact nofun)).trans hrun'
  -- Without a spread in front the two definitions have the same shape.
  have hsame (hshape : shapeOf key entry.value = shapeOf key entry'.value) (rec : Renderer) :
      field rec splicing depth line key entry = field rec splicing depth line key entry' := by
    rw [field, field, hshape]
    rfl
  cases hexpands with
  | nil =>
    refine ⟨fuel, text', text', s₂, s₂, fun more => ⟨?_, hmore' more⟩, iff_of_true rfl ?_⟩
    · exact (congrFun (congrFun (hsame rfl _) env) s).trans (hmore' more)
    · rintro name elements ⟨nameLoc, arrayLoc, spreadLoc, spreadComments, rest, heq, -⟩
      cases heq
  | element helement hflat h =>
    refine ⟨fuel, text', text', s₂, s₂, fun more => ⟨?_, hmore' more⟩, iff_of_true rfl ?_⟩
    · exact (congrFun (congrFun (hsame rfl _) env) s).trans (hmore' more)
    · rintro name elements ⟨nameLoc, arrayLoc, spreadLoc, spreadComments, rest, heq, -⟩
      cases heq
      cases helement
  | @spread nameLoc arrayLoc spreadLoc name spreadComments elements entries tail hdeclared helements
      hflat h =>
    have htext' := elementText_of_field hprogram hidle (fun element h => (hwritten element h).2) rfl
      hrun'
    obtain ⟨text, s₁, hrun, hiff⟩ := leading_spread_renders hprogram hidle hdeclared helements hflat
      tail entry rfl depth line key
    refine ⟨fuel, text, text', s₁, s₂, fun more => ⟨hrun _ splicing, hmore' more⟩,
      (hiff text' htext').trans ⟨fun hshown name' elements' hfirst => ?_, fun hall => ?_⟩⟩
    · obtain ⟨nameLoc', arrayLoc', spreadLoc', spreadComments', rest, heq, hdeclared'⟩ := hfirst
      cases heq
      exact hdeclared.elements_eq hdeclared' ▸ hshown
    · exact hall name elements ⟨nameLoc, arrayLoc, spreadLoc, spreadComments, entries, rfl, hdeclared⟩

/-! ### Examples -/

/-- `...d` -/
def spreadOfD : Entry := .mk .spread (.ident somewhere "d") somewhere .none

/-- `{ type: String, required: true }` -/
def requiredString : Entry :=
  .mk .element (.object somewhere [
    .mk (.keyed "type") (.ident somewhere "String") somewhere .none,
    .mk (.keyed "required") (.lit somewhere (.bool true)) somewhere .none]) somewhere .none

/-- `String` -/
def stringElement : Entry := .mk .element (.ident somewhere "String") somewhere .none

theorem fileBinding_declares (definition : Expr) :
    DeclaredOnce (fileBinding definition) "d" definition :=
  ⟨rfl, _, List.mem_singleton_self _, false, _, rfl, List.mem_singleton_self _⟩

theorem flatElement_stringElement (definition : Expr) :
    FlatElement (environmentBinding definition) stringElement.value :=
  .typeName (isTypeName_string definition)

theorem flatElement_requiredString (definition : Expr) :
    FlatElement (environmentBinding definition) requiredString.value := by
  refine .object ?_ ?_ ?_
  · simp [Entry.kind]
  · simp [Entry.comments]
  · simp only [List.mem_cons, List.not_mem_nil, or_false, forall_eq_or_imp, forall_eq]
    exact ⟨.typeName (isTypeName_string definition), .lit⟩

/-- `[String]` -/
def strings : Expr := .array somewhere [stringElement]

theorem expands_spreadOfD {entries entries' : List Entry}
    (h : Expands (environmentBinding strings) (fileBinding strings) entries entries') :
    Expands (environmentBinding strings) (fileBinding strings) (spreadOfD :: entries)
      (stringElement :: entries') := by
  have hdeclared : DeclaredOnce (fileBinding strings) "d" (.array somewhere [stringElement]) :=
    fileBinding_declares strings
  refine .spread hdeclared ?_ ?_ h
  · simp [stringElement, Entry.kind]
  · simp only [List.mem_singleton, forall_eq]
    exact flatElement_stringElement strings

/-- If `d` is bound to `[String]`, then the field `k: [{ type: String, required: true }, ...d]` is
the one with `String` in the place of the spread. -/
theorem spread_behind_requiredString :
    let env := environmentBinding strings
    let s := Session.start (.empty true)
    let entry := fieldOf (.array somewhere [requiredString, spreadOfD])
    let entry' := fieldOf (.array somewhere [requiredString, stringElement])
    Expands env (fileBinding strings) [requiredString, spreadOfD]
        [requiredString, stringElement] ∧
      ∃ fuel text s₁ s₂, ∀ more,
        field (renderEntries (fuel + more)) [] 0 none "k" entry env s = (.ok text, s₁) ∧
        field (renderEntries (fuel + more)) [] 0 none "k" entry' env s = (.ok text, s₂) := by
  intro env s entry entry'
  have hexpands : Expands env (fileBinding strings) [requiredString, spreadOfD]
      [requiredString, stringElement] :=
    .element rfl (flatElement_requiredString strings) (expands_spreadOfD .nil)
  have hidle : s.resolving = [] := rfl
  obtain ⟨fuel, text, text', s₁, s₂, hrun, hiff⟩ := spreads_render_as_elements_iff rfl hexpands
    hidle [] 0 none "k" somewhere somewhere somewhere somewhere .none
  obtain rfl := hiff.mpr fun name elements ⟨_, _, _, _, _, heq, _⟩ => by cases heq
  exact ⟨hexpands, fuel, text, s₁, s₂, hrun⟩

/-- If `d` is bound to `[String]`, then the field `k: [...d]` has one pair of brackets more than the
field `k: [String]`. -/
theorem spread_of_strings_in_front :
    let env := environmentBinding strings
    let s := Session.start (.empty true)
    Expands env (fileBinding strings) [spreadOfD] [stringElement] ∧
      field (renderEntries 1) [] 0 none "k" (fieldOf (.array somewhere [spreadOfD])) env s =
        (.ok "- **k** \x60[[String]]\x60", s) ∧
      field (renderEntries 1) [] 0 none "k" (fieldOf strings) env s =
        (.ok "- **k** \x60[String]\x60", s) :=
  ⟨expands_spreadOfD .nil, rfl, rfl⟩

end SchemaDoc.Document
