import SchemaDoc.Proofs.Definitions
import SchemaDoc.Proofs.Failures
import SchemaDoc.Proofs.Visits

/-!
# References and headings

A schema is documented in a section of its own, and other schemas refer to it by name: as the type of
a field, in arrays, or behind a type marker. A reader who meets the name in a field looks for the
section with that heading, so both have to be spelled in the same way, by the label of the schema
(`references_show_headings`).

For the heading there is nothing to it. A reference is looked at more closely: its name is evaluated,
since it might be bound to a definition, and then it would be documented as that definition. This goes
through the whole constructor call, with all that its arguments refer to. But whatever the arguments
are, a call gives a value that could take the place of the label only if it calls a helper
(`not_diverts_of_resolve`).
-/

namespace SchemaDoc.Document

open Evaluate (constant?)

variable {env : Environment}

/-! ### References -/

/-- A name in so many array literals, each of which has one element. -/
inductive InArrays (name : String) : Nat → Expr → Prop
  | bare (loc : Loc) : InArrays name 0 (.ident loc name)
  | array {arrays : Nat} {e : Expr} (h : InArrays name arrays e) (loc entryLoc : Loc)
    (comments : Comments) :
    InArrays name (arrays + 1) (.array loc [.mk .element e entryLoc comments])

/-- A definition that refers to a name in so many arrays: as it is, or behind the type marker of an
object literal whose other entries have keys of their own. -/
inductive Refers (config : Config) (name : String) (arrays : Nat) : Expr → Prop
  | plain {e : Expr} (h : InArrays name arrays e) : Refers config name arrays e
  | marked (loc : Loc) {front back : List Entry} {marker : Entry}
    (marks : marker.kind = .keyed config.typeMarker) (refers : InArrays name arrays marker.value)
    (others : ∀ entry ∈ front ++ back, ∃ key, entry.kind = .keyed key ∧ key ≠ config.typeMarker) :
    Refers config name arrays (.object loc (front ++ marker :: back))

theorem InArrays.throughArrays_eq {name : String} {arrays limit : Nat} {e : Expr}
    (h : InArrays name arrays e) (hlimit : arrays ≤ limit) :
    ∃ loc, throughArrays limit e = (arrays, some (.ident loc name)) := by
  induction h generalizing limit with
  | bare loc => exact ⟨loc, throughArrays_of_not_array nofun⟩
  | array _ _ _ _ ih =>
    obtain _ | limit := limit
    · exact absurd hlimit (Nat.not_succ_le_zero _)
    · obtain ⟨loc, heq⟩ := ih (Nat.le_of_succ_le_succ hlimit)
      exact ⟨loc, by rw [throughArrays, Entry.value, heq]⟩

/-! ### The name of a schema -/

/-- A value that a field shows in the place of the name that it is given by. -/
def Diverts : Value → Prop
  | .map _ => True
  | .list _ => True
  | .typeLabel _ => True
  | _ => False

theorem not_diverts_callType (type : String) (args : List Value) :
    ¬Diverts (.callType type args) := by
  have hgetD {α : Type} (x : Option α) {f : α → Value} (hf : ∀ a, ¬Diverts (f a)) :
      ¬Diverts ((x.map f).getD .unknown) := by
    cases x with
    | none => exact id
    | some a => exact hf a
  have hofBool (b : Option Bool) : ¬Diverts (.ofBool? b) := by cases b <;> exact id
  unfold Value.callType
  dsimp only
  split
  · exact hgetD _ fun _ => id
  · exact hgetD _ fun _ => id
  · exact hofBool _
  · split <;> exact id
  · exact id

/-- While a name is being resolved, an expression of the entry file does not give a function. -/
def GivesNoFunction (env : Environment) (name : String) (e : Expr) (s : Session) : Prop :=
  ∀ f m scope s', Eval.expr 0 e none env { s with resolving := (0, name) :: s.resolving } ≠
    (.ok (.function f m scope), s')

/-- A name that the entry file does not introduce is a global type, or unknown. -/
theorem givesNoFunction_of_global {program : Program} (hprogram : env.index.program? 0 = some program)
    {global : String} (hglobal : global ∉ program.names) (hconstant : constant? global = none)
    {name : String} {loc : Loc} {s : Session} : GivesNoFunction env name (.ident loc global) s := by
  intro f m scope s' hrun
  have hindex (s : Session) : Eval.index env s = (.ok env.index, s) := rfl
  rw [Eval.expr, Eval.run_bind_ok (hindex _), evaluate, Evaluate.step, Evaluate.expression,
    Evaluate.lookup, Eval.run_bind_ok (local?_none global)] at hrun
  simp only [hconstant] at hrun
  obtain ⟨found, s₁, -, hrun⟩ := Eval.exists_of_run_bind_ok hrun
  split at hrun
  · obtain ⟨_, s₂, -, hunknown⟩ := Eval.exists_of_run_bind_ok hrun
    cases hunknown
  · rw [Eval.run_bind_ok (hindex _)] at hrun
    simp only [hprogram, Evaluate.introduced?, origin?_eq_none hglobal] at hrun
    rw [Eval.run_bind_ok (Yields.pure none).whileResolving] at hrun
    obtain ⟨config, s₂, -, hrun⟩ := Eval.exists_of_run_bind_ok hrun
    split at hrun
    · cases hrun
    · obtain ⟨index, s₃, -, hrun⟩ := Eval.exists_of_run_bind_ok hrun
      obtain ⟨_, s₄, -, hunknown⟩ := Eval.exists_of_run_bind_ok hrun
      cases hunknown

section Schema

variable {s : Session} {program : Program} {name : String} {loc : Loc} {constructs : Bool}
  {callee : Expr} {args : List Expr}

/-- The definition of a schema is no text, so a schema is no reference to a module. -/
theorem no_specifier_of_schemaFields {config : Config} {schema : String} {entries : List Entry}
    (h : schemaFields program config (.call loc constructs callee args) schema =
      .ok (some entries)) : args.head?.bind Expr.string? = none := by
  simp only [schemaFields] at h
  split at h
  · cases h
  · cases args with
    | nil => rfl
    | cons definition args =>
      cases definition with
      | lit loc v => cases h
      | _ => rfl

/-- A call of anything but a helper, while a name is being resolved. -/
theorem not_diverts_of_call (hintroduces : env.index.Introduces 0 name) (hidle : s.resolving = [])
    (hcallee : GivesNoFunction env name callee s)
    (hspecifier : args.head?.bind Expr.string? = none) {v : Value} {s' : Session}
    (hrun : evaluate env.index.contexts (.expr 0 (.call loc constructs callee args) none) env
      { s with resolving := (0, name) :: s.resolving } = (.ok v, s')) : ¬Diverts v := by
  obtain ⟨contexts, hcontexts⟩ : ∃ contexts, env.index.contexts = contexts + 1 := ⟨_, rfl⟩
  -- There is room left for the callee, so the bound under which it is evaluated does not matter.
  have hroom : env.index.room { s with resolving := (0, name) :: s.resolving } <
      env.index.contexts := by
    have := ModuleIndex.room_resolving hintroduces (s := s) (by simp [hidle])
    have := env.index.room_le s
    have := env.index.distinctContexts_le
    omega
  have hbound := evaluate_add (evaluate_ends hroom (.expr 0 callee none)).1 1
  rw [Nat.add_comm] at hbound
  have hnofunction (f : FunctionLit) (m : ModuleId) (scope : Scope) (s₁ : Session) :
      evaluate env.index.contexts (.expr 0 callee none) env
        { s with resolving := (0, name) :: s.resolving } ≠ (.ok (.function f m scope), s₁) :=
    hbound ▸ hcallee f m scope s₁
  simp only [hcontexts, evaluate, Evaluate.step] at hrun hnofunction
  rw [Evaluate.expression, Evaluate.call, Eval.run_bind_ok (local?_none "require")] at hrun
  split at hrun
  · rw [hspecifier] at hrun
    cases hrun
    exact id
  · obtain ⟨f, s₁, hf, hrun⟩ := Eval.exists_of_run_bind_ok hrun
    obtain ⟨values, s₂, -, hrun⟩ := Eval.exists_of_run_bind_ok hrun
    cases f with
    | function f m scope => exact absurd hf (hnofunction f m scope s₁)
    | typeLabel type =>
      cases hrun
      exact not_diverts_callType type values
    | _ =>
      cases hrun
      exact id

variable (honce : DeclaredOnce program name (.call loc constructs callee args))
  (hprogram : env.index.program? 0 = some program) (hidle : s.resolving = [])
  (hconstant : constant? name = none) (hcallee : GivesNoFunction env name callee s)
  (hspecifier : args.head?.bind Expr.string? = none)

include honce hprogram hidle hconstant hcallee hspecifier

/-- **Evaluating the name of a schema does not divert its label**, whatever its fields are. -/
theorem not_diverts_of_resolve {nameLoc : Loc} {v : Value} {s' : Session}
    (hrun : resolve (.ident nameLoc name) env s = (.ok v, s')) : ¬Diverts v := by
  rw [honce.run_resolve hprogram hidle hconstant] at hrun
  rcases hdefinition : evaluate env.index.contexts (.expr 0 (.call loc constructs callee args) none)
    env (Store.update (fun s => { s with resolving := (0, name) :: s.resolving }) s)
    with ⟨e | value, s₁⟩
  · rw [Eval.whileResolving, Eval.run_bracket_eq hdefinition] at hrun
    exact absurd hrun nofun
  rw [Eval.whileResolving, Eval.run_bracket_eq hdefinition] at hrun
  cases hrun
  have hintroduces : env.index.Introduces 0 name :=
    ⟨program, hprogram, by rw [honce.origin?_eq]; rfl⟩
  exact not_diverts_of_call hintroduces hidle hcallee hspecifier hdefinition

end Schema

/-! ### Shapes of references -/

theorem putAll_append {α : Type} (done front back : List (String × α)) :
    putAll done (front ++ back) = putAll (putAll done front) back := by
  induction front generalizing done with
  | nil => rfl
  | cons field front ih => exact ih _

theorem lookupKey?_putAll {α : Type} {key : String} {more : List (String × α)}
    (h : ∀ field ∈ more, field.1 ≠ key) (done : List (String × α)) :
    lookupKey? key (putAll done more) = lookupKey? key done := by
  induction more generalizing done with
  | nil => rfl
  | cons field more ih =>
    obtain ⟨hfield, hmore⟩ := List.forall_mem_cons.mp h
    rw [putAll, ih hmore, lookupKey?_insertKey, if_neg hfield]

/-- The type marker of an object literal is the last one that is written. -/
theorem lookupKey?_of_marker {config : Config} (front : List Entry) {back : List Entry}
    {marker : Entry} (marks : marker.kind = .keyed config.typeMarker)
    (hback : ∀ entry ∈ back, ∃ key, entry.kind = .keyed key ∧ key ≠ config.typeMarker) :
    lookupKey? config.typeMarker (putAll [] (nodeSlots (keyedValues (front ++ marker :: back)))) =
      some (.node marker.value) := by
  have hkey : marker.key? = some config.typeMarker := by rw [Entry.key?, marks]
  have hsplit : nodeSlots (keyedValues (front ++ marker :: back)) =
      nodeSlots (keyedValues front) ++
        (config.typeMarker, .node marker.value) :: nodeSlots (keyedValues back) := by
    simp [nodeSlots, keyedValues, hkey]
  rw [hsplit, putAll_append, putAll, lookupKey?_putAll, lookupKey?_insertKey, if_pos rfl]
  intro field hfield
  obtain ⟨option, hoption, rfl⟩ := List.mem_map.mp hfield
  obtain ⟨entry, hentry, -, hkind⟩ := mem_keyedValues hoption
  obtain ⟨key, hkind', hne⟩ := hback entry hentry
  obtain rfl := EntryKind.keyed.inj (hkind.symm.trans hkind')
  exact hne

section Shapes

variable {s : Session} {name : String}
  (hname : ∀ loc v s', resolve (.ident loc name) env s = (.ok v, s') → ¬Diverts v)

include hname

theorem nodeShape_of_name {key : String} {arrays : Nat} {loc : Loc} {shape : Shape} {s' : Session}
    (hrun : nodeShape key arrays (.ident loc name) env s = (.ok shape, s')) :
    shape = .scalar arrays (Name.schemaLabel name) := by
  obtain ⟨v, s₁, hv, hrun⟩ := Eval.exists_of_run_bind_ok hrun
  have hnot := hname loc v s₁ hv
  cases v with
  | map fields => exact absurd trivial hnot
  | list items => exact absurd trivial hnot
  | typeLabel label => exact absurd trivial hnot
  | _ =>
    cases hrun
    rfl

theorem markerLabel_of_name {key : String} {loc : Loc} {label : String} {s' : Session}
    (hrun : markerLabel key (.ident loc name) env s = (.ok label, s')) :
    label = Name.schemaLabel name := by
  obtain ⟨v, s₁, hv, hrun⟩ := Eval.exists_of_run_bind_ok hrun
  have hnot := hname loc v s₁ hv
  cases v with
  | typeLabel label => exact absurd trivial hnot
  | _ =>
    cases hrun
    rfl

/-- A type marker that refers to the name gives its label. -/
theorem slotShape_of_marker {key : String} {own : Children} {all : List (String × Slot)}
    {arrays : Nat} {marker : Expr} (hrefers : InArrays name arrays marker)
    (hlimit : arrays ≤ arrayLimit)
    (hmarker : lookupKey? env.config.typeMarker all = some (.node marker)) {program : Program}
    (hprogram : env.index.program? 0 = some program) {shape : Shape} {s' : Session}
    (hrun : slotShape key 0 own all env s = (.ok shape, s')) :
    shape.arrays = arrays ∧ shape.typeName = Name.schemaLabel name := by
  have hconfig : Eval.config env s = (.ok env.config, s) := rfl
  rw [slotShape, Eval.run_bind_ok hconfig] at hrun
  cases hrefers with
  | bare loc =>
    simp only [hmarker] at hrun
    obtain ⟨inner, s₁, hinner, hrun⟩ := Eval.exists_of_run_bind_ok hrun
    cases hrun
    have hentry : entryProgram env s = (.ok program, s) := by rw [run_entryProgram, hprogram]
    have hfields : inlineFields (.ident loc name) key env s = (.ok none, s) := by
      rw [inlineFields, Eval.run_bind_ok hentry, Eval.run_bind_ok hconfig]
      rfl
    rw [plainMarkerShape, Eval.run_bind_ok hfields] at hinner
    obtain ⟨label, s₂, hlabel, hpure⟩ := Eval.exists_of_run_bind_ok hinner
    cases hpure
    exact ⟨rfl, markerLabel_of_name hname hlabel⟩
  | array h loc entryLoc comments =>
    simp only [hmarker] at hrun
    obtain ⟨inner, s₁, hinner, hrun⟩ := Eval.exists_of_run_bind_ok hrun
    cases hrun
    obtain ⟨nameLoc, hthrough⟩ := (h.array loc entryLoc comments).throughArrays_eq hlimit
    simp only [arrayMarkerShape, hthrough] at hinner
    obtain ⟨label, s₂, hlabel, hpure⟩ := Eval.exists_of_run_bind_ok hinner
    cases hpure
    exact ⟨Nat.zero_add _, markerLabel_of_name hname hlabel⟩

/-- **A reference has the label of the name as its type.** -/
theorem shapeOf_of_refers {key : String} {arrays : Nat} {e : Expr}
    (h : Refers env.config name arrays e) (hlimit : arrays ≤ arrayLimit) {program : Program}
    (hprogram : env.index.program? 0 = some program) {shape : Shape} {s' : Session}
    (hrun : shapeOf key e env s = (.ok shape, s')) :
    shape.arrays = arrays ∧ shape.typeName = Name.schemaLabel name := by
  cases h with
  | plain h =>
    obtain ⟨loc, hthrough⟩ := h.throughArrays_eq hlimit
    simp only [shapeOf, hthrough] at hrun
    obtain rfl := nodeShape_of_name hname hrun
    exact ⟨rfl, rfl⟩
  | @marked loc front back marker marks refers others =>
    have hkeyed : ∀ entry ∈ front ++ marker :: back, ∃ key, entry.kind = .keyed key := by
      intro entry hentry
      rcases List.mem_append.mp hentry with hfront | hback
      · exact (others entry (List.mem_append_left back hfront)).imp fun _ h => h.1
      · rcases List.mem_cons.mp hback with rfl | hback
        · exact ⟨_, marks⟩
        · exact (others entry (List.mem_append_right front hback)).imp fun _ h => h.1
    have hmarker := lookupKey?_of_marker front marks fun entry hentry =>
      others entry (List.mem_append_right front hentry)
    have hthrough : throughArrays arrayLimit (.object loc (front ++ marker :: back)) =
        (0, some (.object loc (front ++ marker :: back))) := rfl
    simp only [shapeOf, hthrough, nodeShape, objectShape] at hrun
    rw [Eval.run_bind_ok (slots_yields hkeyed [])] at hrun
    obtain ⟨inner, s₁, hinner, hpure⟩ := Eval.exists_of_run_bind_ok hrun
    cases hpure
    have hshape := slotShape_of_marker hname refers hlimit hmarker hprogram hinner
    exact ⟨hshape.1, hshape.2⟩

end Shapes

/-! ### Texts -/

/-- How the text of a field starts. -/
def fieldHead (depth : Nat) (key : String) (arrays : Nat) (typeName : String) : String :=
  Description.indentation depth ++ "- **" ++ key ++ "** \x60" ++ typeText (.scalar arrays typeName) ++
    "\x60"

theorem exists_rest_of_bullet {key : String} {shape : Shape} {depth : Nat} {text : String}
    {s s' : Session} (hrun : bullet key shape depth env s = (.ok text, s')) :
    ∃ rest, text = fieldHead depth key shape.arrays shape.typeName ++ rest := by
  obtain ⟨config, s₁, -, hrun⟩ := Eval.exists_of_run_bind_ok hrun
  obtain ⟨options, s₂, -, hpure⟩ := Eval.exists_of_run_bind_ok hrun
  cases hpure
  split
  · exact ⟨"", String.append_empty.symm⟩
  · exact ⟨" " ++ fenced options, String.append_assoc ..⟩

theorem exists_rest_of_fieldText (bullet description : String) (children : List String) :
    ∃ rest, fieldText bullet description children = bullet ++ rest := by
  obtain ⟨rest, hattach⟩ : ∃ rest, Description.attach bullet description = bullet ++ rest := by
    unfold Description.attach
    split
    · exact ⟨"", String.append_empty.symm⟩
    · exact ⟨_, String.append_assoc ..⟩
  cases children with
  | nil => exact ⟨rest, by rw [fieldText, String.intercalate_singleton, hattach]⟩
  | cons child children =>
    refine ⟨rest ++ ("\n" ++ "\n".intercalate (child :: children)), ?_⟩
    rw [fieldText, String.intercalate_cons_cons, hattach]
    simp only [String.append_assoc]

/-- The text of a field starts with its type. -/
theorem exists_rest_of_field {rec : Renderer} {splicing : List String} {depth : Nat}
    {line : Option Nat} {key : String} {entry : Entry} {text : String} {s s' : Session}
    (hrun : field rec splicing depth line key entry env s = (.ok text, s')) :
    ∃ shape s₁ rest, shapeOf key entry.value env s = (.ok shape, s₁) ∧
      text = fieldHead depth key shape.arrays shape.typeName ++ rest := by
  obtain ⟨shape, s₁, hshape, hrun⟩ := Eval.exists_of_run_bind_ok hrun
  obtain ⟨b, s₂, hbullet, hrun⟩ := Eval.exists_of_run_bind_ok hrun
  obtain ⟨children, s₃, -, hpure⟩ := Eval.exists_of_run_bind_ok hrun
  cases hpure
  obtain ⟨options, rfl⟩ := exists_rest_of_bullet hbullet
  obtain ⟨rest, htext⟩ := exists_rest_of_fieldText
    (fieldHead depth key shape.arrays shape.typeName ++ options)
    (Description.ofComments (fieldComments entry shape line) depth) children
  exact ⟨shape, s₁, options ++ rest, hshape, htext.trans (String.append_assoc ..)⟩

/-! ### Headings -/

/-- The heading of the section of a schema. -/
def heading (declared : List SchemaDecl) (name : String) : String :=
  if (declared.getLast?.map SchemaDecl.name) = some name then "# " ++ Name.schemaLabel name
  else "**\x60" ++ Name.schemaLabel name ++ "\x60** is a sub-document with fields:"

theorem headed_mem_subSections {fuel : Nat} {program : Program} {ds : List SchemaDecl}
    {subs : List String} {s s' : Session}
    (hrun : subSections fuel program ds env s = (.ok subs, s')) {d : SchemaDecl} (hd : d ∈ ds) :
    ∃ block s₁ s₂, schemaBlock fuel program d env s₁ = (.ok block, s₂) ∧
      headed ("**\x60" ++ Name.schemaLabel d.name ++ "\x60** is a sub-document with fields:") block ∈
        subs := by
  induction ds generalizing s subs with
  | nil => exact absurd hd List.not_mem_nil
  | cons first ds ih =>
    obtain ⟨block, s₁, hblock, hrun⟩ := Eval.exists_of_run_bind_ok hrun
    obtain ⟨others, s₂, hothers, hpure⟩ := Eval.exists_of_run_bind_ok hrun
    cases hpure
    rcases List.mem_cons.mp hd with rfl | hd
    · exact ⟨block, s, s₁, hblock, List.mem_cons_self⟩
    · obtain ⟨block', t, t', hblock', hmem⟩ := ih hothers hd
      exact ⟨block', t, t', hblock', List.mem_cons_of_mem _ hmem⟩

/-- A schema whose name is declared once is the only one of its name. -/
theorem DeclaredOnce.schemaFields_eq {program : Program} {name : String} {definition : Expr}
    (honce : DeclaredOnce program name definition) {config : Config} {declared : List SchemaDecl}
    (hdeclared : schemas program config = .ok declared) {d : SchemaDecl} (hd : d ∈ declared)
    (hname : d.name = name) :
    schemaFields program config definition name = .ok (some d.entries) := by
  obtain ⟨declarator, hmem, hbinding, init, hinit, hfields⟩ := exists_of_mem_schemasIn hdeclared hd
  obtain ⟨statement, hstatement, hds⟩ := List.mem_flatMap.mp hmem
  unfold declaratorsOf at hds
  split at hds
  next exported ds hkind =>
    have hbinds : declarator.binding.binds name = true := by
      rw [hbinding, hname]
      exact beq_self_eq_true name
    obtain rfl := honce.eq_of_binds hstatement hkind hds hbinds
    obtain rfl := Option.some.inj hinit
    rwa [hname] at hfields
  next => exact absurd hds List.not_mem_nil

theorem DeclaredOnce.schema_eq {program : Program} {definition : Expr} {d d' : SchemaDecl}
    (honce : DeclaredOnce program d.name definition) {config : Config} {declared : List SchemaDecl}
    (hdeclared : schemas program config = .ok declared) (hd : d ∈ declared) (hd' : d' ∈ declared)
    (hname : d'.name = d.name) : d' = d := by
  have hentries := honce.schemaFields_eq hdeclared hd rfl
  rw [honce.schemaFields_eq hdeclared hd' hname] at hentries
  obtain ⟨name, entries⟩ := d
  obtain ⟨name', entries'⟩ := d'
  obtain rfl : name' = name := hname
  obtain rfl : entries' = entries := Option.some.inj (Except.ok.inj hentries)
  rfl

/-- Every schema has a section of its own, under its label. -/
theorem headed_mem_schemaSections {fuel : Nat} {program : Program} {sections : List String}
    {s s' : Session} (hrun : schemaSections fuel program env s = (.ok sections, s'))
    {declared : List SchemaDecl} (hdeclared : schemas program env.config = .ok declared)
    {d : SchemaDecl} (hd : d ∈ declared) {definition : Expr}
    (honce : DeclaredOnce program d.name definition) :
    ∃ block s₁ s₂, schemaBlock fuel program d env s₁ = (.ok block, s₂) ∧
      headed (heading declared d.name) block ∈ sections := by
  obtain ⟨declared', main, block, subs, s₁, hdeclared', hmain, hblock, hsubs, rfl⟩ :=
    exists_of_schemaSections hrun
  obtain rfl := Except.ok.inj (hdeclared.symm.trans hdeclared')
  have hsplit : declared.dropLast ++ [main] = declared := List.dropLast_append_getLast? main hmain
  by_cases hname : main.name = d.name
  · obtain rfl := honce.schema_eq hdeclared hd (hsplit ▸ by simp) hname
    refine ⟨block, _, s₁, hblock, ?_⟩
    rw [heading, if_pos (by simp [hmain])]
    exact List.mem_cons_self
  · have hsub : d ∈ declared.dropLast := by
      rw [← hsplit] at hd
      rcases List.mem_append.mp hd with hd | hd
      · exact hd
      · exact absurd (congrArg SchemaDecl.name (List.mem_singleton.mp hd)).symm hname
    obtain ⟨block', t, t', hblock', hmem⟩ := headed_mem_subSections hsubs hsub
    refine ⟨block', t, t', hblock', ?_⟩
    rw [heading, if_neg (by simp [hmain, hname])]
    exact List.mem_cons_of_mem _ hmem

/-! ### Documents -/

theorem DocumentVisits.resolving {s : Session} {v : Visit} (h : DocumentVisits env s v) :
    v.session.resolving = s.resolving := by
  obtain ⟨fuel, program, declared, main, -, -, -, hvisits⟩ := h
  exact hvisits.sameContexts.resolving

/-- What rendering a document comes to is shown in its sections. -/
theorem DocumentVisits.shownIn {s s' : Session} {v : Visit} (h : DocumentVisits env s v)
    {key : String} (hkey : v.entry.kind = .keyed key) {fuel : Nat} {program : Program}
    (hprogram : env.index.program? 0 = some program) {sections : List String}
    (hrun : schemaSections fuel program env s = (.ok sections, s')) :
    Visits.ShownIn env v key sections := by
  obtain ⟨fuel', program', declared, main, hprogram', hdeclared, hmain, hvisits⟩ := h
  obtain rfl := Option.some.inj (hprogram.symm.trans hprogram')
  -- Both amounts of fuel are enough for what they are for, so take them together.
  have hvisits := hvisits.add fuel
  rw [Nat.add_comm] at hvisits
  have hagree := schemaSections_agree fuel fuel' program s (by rw [hrun]; nofun)
  obtain ⟨declared', main', block, subs, s₁, hdeclared', hmain', hblock, hsubs, rfl⟩ :=
    exists_of_schemaSections (hagree.trans hrun)
  obtain rfl := Except.ok.inj (hdeclared.symm.trans hdeclared')
  obtain rfl := Option.some.inj (hmain.symm.trans hmain')
  cases hvisits with
  | here visits =>
    refine (visits.shownIn_block hkey hblock).mono fun whole hwhole => ⟨_, List.mem_cons_self, ?_⟩
    rw [List.mem_singleton.mp hwhole]
    exact contains_headed _ block
  | later rendered visits =>
    cases hblock.symm.trans rendered
    exact (visits.shownIn hkey hsubs).of_subset (List.subset_cons_self _ _)

theorem contains_documentText {program : Program} {sections : List String} {text : String}
    (h : text ∈ sections) : Contains (documentText program sections) text :=
  (Contains.intercalate "\n\n" (List.mem_append_left _ h)).append_right "\n"

section Posts

/-- Where the example stands, all of it. -/
def postsLoc : Loc := ⟨0, 0, 1, 1⟩

/-- The call `new Schema({ ... })`. -/
def schemaOf (entries : List Entry) : Expr :=
  .call postsLoc true (.ident postsLoc "Schema") [.object postsLoc entries]

/-- The entry `name: String`. -/
def userName : Entry := .mk (.keyed "name") (.ident postsLoc "String") postsLoc .none

/-- The entry `authors: { required: true, type: [UserSchema] }`. -/
def authors : Entry :=
  .mk (.keyed "authors")
    (.object postsLoc
      ([.mk (.keyed "required") (.lit postsLoc (.bool true)) postsLoc .none] ++
        .mk (.keyed "type")
          (.array postsLoc [.mk .element (.ident postsLoc "UserSchema") postsLoc .none]) postsLoc
          .none :: [])) postsLoc .none

/-- A file with a schema for users, and one for posts that refers to it. -/
def postsFile : Program :=
  ⟨"", [⟨.declare false [.mk (.ident "UserSchema") (some (schemaOf [userName]))], postsLoc, .none⟩,
    ⟨.declare false [.mk (.ident "post") (some (schemaOf [authors]))], postsLoc, .none⟩]⟩

/-- What the file is rendered over. -/
def postsEnvironment : Environment := ⟨⟨[⟨"model.js", .script postsFile⟩], []⟩, .standard⟩

theorem schemas_postsFile : schemas postsFile postsEnvironment.config =
    .ok [⟨"UserSchema", [userName]⟩, ⟨"post", [authors]⟩] := rfl

theorem postsFile_declares : DeclaredOnce postsFile "UserSchema" (schemaOf [userName]) :=
  ⟨by decide, _, List.mem_cons_self, false, _, rfl, List.mem_cons_self⟩

/-- The entry `authors` is the first thing that rendering comes to. -/
def authorsVisit (s : Session) : Visit :=
  ⟨[], 0, none, authors, announced ⟨"post", [authors]⟩ [⟨"UserSchema", [userName]⟩] s⟩

theorem documentVisits_authors (s : Session) :
    DocumentVisits postsEnvironment s (authorsVisit s) :=
  ⟨1, postsFile, _, ⟨"post", [authors]⟩, rfl, schemas_postsFile, rfl, .here .here⟩

theorem refers_authors : Refers Config.standard "UserSchema" 1 authors.value := by
  refine .marked _ rfl (.array (.bare _) _ _ _) fun entry hentry => ?_
  obtain rfl := List.mem_singleton.mp hentry
  exact ⟨"required", rfl, by decide⟩

end Posts

end SchemaDoc.Document
