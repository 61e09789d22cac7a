import SchemaDoc.Proofs.ObjectMarkers
import SchemaDoc.Proofs.Rendering

/-!
# The order of the keys of a definition

The definition of a field is often an object literal whose entries are no fields of their own: a
type under the type marker, and options beside it. Nothing depends on the order in which they are
written. They are read by their keys only: the type marker first, then each option that the
configuration lists, in the order in which it lists them. So the field is determined by two things
that a permutation of the entries leaves alone, what stands under the type marker and what stands
under the other keys (`field_of_definition`).

That there is such a field at all is another matter, since evaluation may fail. It does not if the
definition is composed of literals, names of global types, arrays and objects (`Composed`).
Rendering then does nothing but report, on every level of nested fields (`renderEntries_completes`).
-/

namespace SchemaDoc.Document

/-! ### Keys in any order -/

theorem lookupKey?_perm {α : Type} {fields fields' : List (String × α)} (h : fields.Perm fields')
    (hdistinct : (fields.map Prod.fst).Nodup) (key : String) :
    lookupKey? key fields = lookupKey? key fields' := by
  have hdistinct' : (fields'.map Prod.fst).Nodup := (h.map Prod.fst).nodup_iff.mp hdistinct
  refine Option.ext fun a => ⟨fun ha => ?_, fun ha => ?_⟩
  · exact lookupKey?_of_mem hdistinct' (h.mem_iff.mp (mem_of_lookupKey? ha))
  · exact lookupKey?_of_mem hdistinct (h.mem_iff.mpr (mem_of_lookupKey? ha))

/-- What is shown of options is found by their keys. -/
theorem optionTexts_congr {options options' : List (String × Slot)}
    (h : ∀ name, lookupKey? name options = lookupKey? name options') (names : List String) :
    optionTexts options names = optionTexts options' names := by
  induction names with
  | nil => rfl
  | cons name names ih => rw [optionTexts, optionTexts, h name, ih]

/-! ### Definitions that are read by their keys -/

/-- Entries of a definition that are no nested fields: beside the type marker there are only
options, or the type marker is there and no object literal. -/
def ReadByKeys (config : Config) (options : List (String × Expr)) : Prop :=
  (∀ key ∈ options.map Prod.fst, key ≠ config.typeMarker → config.isOption key = true) ∨
    ∃ marker, lookupKey? config.typeMarker options = some marker ∧
      ∀ loc inner, marker ≠ .object loc inner

theorem ReadByKeys.perm {config : Config} {options options' : List (String × Expr)}
    (h : ReadByKeys config options) (hperm : options.Perm options')
    (hdistinct : (options.map Prod.fst).Nodup) : ReadByKeys config options' := by
  refine h.imp (fun h key hkey => h key ?_) fun ⟨marker, hmarker, hnot⟩ => ⟨marker, ?_, hnot⟩
  · exact (hperm.map Prod.fst).mem_iff.mpr hkey
  · exact (lookupKey?_perm hperm hdistinct _).symm.trans hmarker

/-- The shape that a type marker gives, if there is one. -/
def typeShape (key : String) (arrays : Nat) : Option Expr → Eval Shape
  | none => return .scalar arrays objectType
  | some (.object _ inner) => return .inline arrays (.entries inner none)
  | some (.array loc inner) => arrayMarkerShape key arrays (.array loc inner)
  | some marker => plainMarkerShape key arrays marker

/-- The comments of a field, apart from those in its definition. -/
def ownComments (comments : Comments) (claimedLine : Option Nat) : List Comment :=
  (comments.leading.filter fun c => some c.line != claimedLine) ++
    comments.trailing.filter (·.kind == .line)

/-- **A field, given what stands under its type marker and its options.** -/
def definedField (rec : Renderer) (splicing : List String) (depth : Nat) (claimedLine : Option Nat)
    (key : String) (comments : Comments) (marker : Option Expr) (options : List (String × Expr)) :
    Eval String := do
  let shape ← typeShape key 0 marker
  let b ← bullet key (shape.withOptions (nodeSlots options)) depth
  let children ← childFields rec splicing (depth + 1) shape.children
  return fieldText b (Description.ofComments (ownComments comments claimedLine) depth) children

section Shape

variable {env : Environment} {s : Session} {options : List (String × Expr)}

theorem all_eraseKey_nodeSlots :
    ((eraseKey env.config.typeMarker (nodeSlots options)).all fun (name, _) =>
        env.config.isOption name) = true ↔
      ∀ key ∈ options.map Prod.fst, key ≠ env.config.typeMarker →
        env.config.isOption key = true := by
  rw [eraseKey_nodeSlots, nodeSlots, List.all_map, List.all_eq_true]
  simp only [eraseKey, List.mem_filter, bne_iff_ne, List.forall_mem_map, and_imp]
  rfl

/-- Entries that are read by their keys have the shape that the type marker gives. -/
theorem slotShape_of_readByKeys (h : ReadByKeys env.config options) (key : String) (arrays : Nat)
    (own : Children) :
    slotShape key arrays own (nodeSlots options) env s =
      (do
        let shape ← typeShape key arrays (lookupKey? env.config.typeMarker options)
        return shape.withOptions (nodeSlots (eraseKey env.config.typeMarker options))) env s := by
  have hslot : lookupKey? env.config.typeMarker (nodeSlots options) =
      (lookupKey? env.config.typeMarker options).map Slot.node := lookupKey?_map _ _ _
  refine (Eval.run_bind_ok Yields.config).trans ?_
  dsimp only
  rw [hslot, ← eraseKey_nodeSlots]
  cases hmarker : lookupKey? env.config.typeMarker options with
  | none =>
    have honly := all_eraseKey_nodeSlots.mpr (h.resolve_right fun ⟨marker, hsome, _⟩ =>
      absurd (hmarker.symm.trans hsome) nofun)
    simp only [Option.map_none, honly, if_true]
    rfl
  | some marker =>
    cases marker with
    | object loc inner =>
      have honly := all_eraseKey_nodeSlots.mpr (h.resolve_right fun ⟨marker, hsome, hnot⟩ =>
        hnot loc inner (Option.some.inj (hsome.symm.trans hmarker)))
      simp only [Option.map_some, honly, if_true]
      rfl
    | _ => rfl

/-- All other entries are nested fields. -/
theorem slotShape_of_not_readByKeys (h : ¬ReadByKeys env.config options) (key : String)
    (arrays : Nat) (own : Children) :
    Yields env s (slotShape key arrays own (nodeSlots options)) (.inline arrays own) := by
  obtain ⟨hnot, hobject⟩ := not_or.mp h
  have honly := (Bool.not_eq_true _).mp (mt all_eraseKey_nodeSlots.mp hnot)
  have hslot : lookupKey? env.config.typeMarker (nodeSlots options) =
      (lookupKey? env.config.typeMarker options).map Slot.node := lookupKey?_map _ _ _
  refine Yields.config.bind ?_
  dsimp only
  rw [hslot]
  cases hmarker : lookupKey? env.config.typeMarker options with
  | none =>
    simp only [Option.map_none, honly, Bool.false_eq_true, if_false]
    exact .pure _
  | some marker =>
    cases marker with
    | object loc inner =>
      simp only [Option.map_some, honly, Bool.false_eq_true, if_false]
      exact .pure _
    | _ => exact absurd ⟨_, hmarker, nofun⟩ hobject

variable {entries : List Entry}

theorem fieldComments_of_uncommented (huncommented : ∀ entry ∈ entries, entry.comments = .none)
    {entry : Entry} {shape : Shape} {loc : Loc} (hobject : shape.object = some (loc, entries))
    (line : Option Nat) : fieldComments entry shape line = ownComments entry.comments line := by
  rw [fieldComments, ownComments, hobject]
  cases entries with
  | nil => simp
  | cons first entries =>
    have hfirst : first.comments = .none := huncommented first List.mem_cons_self
    simp [hfirst, Comments.none]

/-- The shape of a definition whose entries are read by their keys: that of its type marker, with
the other entries as its options. -/
theorem shapeOf_of_definition (hkeyed : ∀ entry ∈ entries, ∃ key, entry.kind = .keyed key)
    (hdistinct : (entries.filterMap Entry.key?).Nodup)
    (hread : ReadByKeys env.config (keyedValues entries)) (key : String) (loc : Loc) :
    shapeOf key (.object loc entries) env s =
      (do
        let shape ← typeShape key 0 (lookupKey? env.config.typeMarker (keyedValues entries))
        return { shape.withOptions
            (nodeSlots (eraseKey env.config.typeMarker (keyedValues entries))) with
          object := some (loc, entries) }) env s := by
  have hslots : Yields env s (slots key [] entries) (nodeSlots (keyedValues entries)) :=
    putAll_nodeSlots hdistinct ▸ slots_yields hkeyed []
  refine (Eval.run_bind_ok hslots).trans ?_
  refine (Eval.run_bind_congr (slotShape_of_readByKeys hread key 0 _) fun _ _ _ => rfl).trans ?_
  simp only [bind_assoc, pure_bind]

/-- **What a field depends on**, if the entries of its definition are read by their keys. -/
theorem field_of_definition (hkeyed : ∀ entry ∈ entries, ∃ key, entry.kind = .keyed key)
    (hdistinct : (entries.filterMap Entry.key?).Nodup)
    (huncommented : ∀ entry ∈ entries, entry.comments = .none)
    (hread : ReadByKeys env.config (keyedValues entries)) (rec : Renderer) (splicing : List String)
    (depth : Nat) (line : Option Nat) (key : String) (loc entryLoc : Loc) (comments : Comments) :
    field rec splicing depth line key
        (.mk (.keyed key) (.object loc entries) entryLoc comments) env s =
      definedField rec splicing depth line key comments
        (lookupKey? env.config.typeMarker (keyedValues entries))
        (eraseKey env.config.typeMarker (keyedValues entries)) env s := by
  refine (Eval.run_bind_congr (shapeOf_of_definition hkeyed hdistinct hread key loc)
    fun _ _ _ => rfl).trans ?_
  simp only [bind_assoc, pure_bind, definedField]
  refine Eval.run_bind_congr rfl fun shape s' _ => Eval.run_bind_congr rfl fun b s'' _ => ?_
  rw [fieldComments_of_uncommented huncommented rfl]
  rfl

/-- A field from its parts: the shape that its type marker gives, its first line and its nested
fields. -/
theorem definedField_of_parts {rec : Renderer} {splicing : List String} {depth : Nat}
    {key b : String} {marker : Option Expr} {shape : Shape} {s₁ s' : Session} {children : List String}
    (hshape : typeShape key 0 marker env s = (.ok shape, s₁))
    (hbullet : Yields env s₁ (bullet key (shape.withOptions (nodeSlots options)) depth) b)
    (hchildren : childFields rec splicing (depth + 1) shape.children env s₁ = (.ok children, s'))
    (line : Option Nat) (comments : Comments) :
    definedField rec splicing depth line key comments marker options env s =
      (.ok (fieldText b (Description.ofComments (ownComments comments line) depth) children), s') :=
  (Eval.run_bind_ok hshape).trans ((Eval.run_bind_ok hbullet).trans (Eval.run_bind_ok hchildren))

theorem definedField_congr {options' : List (String × Expr)}
    (h : ∀ name, lookupKey? name options = lookupKey? name options') (rec : Renderer)
    (splicing : List String) (depth : Nat) (line : Option Nat) (key : String) (comments : Comments)
    (marker : Option Expr) :
    definedField rec splicing depth line key comments marker options =
      definedField rec splicing depth line key comments marker options' := by
  have hslots (name : String) :
      lookupKey? name (nodeSlots options) = lookupKey? name (nodeSlots options') := by
    rw [nodeSlots, nodeSlots, lookupKey?_map, lookupKey?_map, h]
  have hbullet (shape : Shape) : bullet key (shape.withOptions (nodeSlots options)) depth =
      bullet key (shape.withOptions (nodeSlots options')) depth := by
    simp only [bullet, Shape.withOptions, optionTexts_congr hslots]
    rfl
  simp only [definedField, hbullet]

end Shape

/-! ### Composed definitions -/

/-- An expression that is composed of literals, names of global types, arrays and objects. There are
no spreads in it, and no expressions in its templates. -/
inductive Composed (env : Environment) : Expr → Prop
  | lit {loc : Loc} {value : Script.Literal} : Composed env (.lit loc value)
  | regex {loc : Loc} {pattern flags : String} : Composed env (.regex loc pattern flags)
  | template {loc : Loc} {chunk : String} : Composed env (.template loc [chunk] [])
  | typeName {loc : Loc} {name : String} (h : IsTypeName env name) : Composed env (.ident loc name)
  | array {loc : Loc} {entries : List Entry} (elements : ∀ entry ∈ entries, entry.kind = .element)
    (values : ∀ entry ∈ entries, Composed env entry.value) : Composed env (.array loc entries)
  | object {loc : Loc} {entries : List Entry}
    (keyed : ∀ entry ∈ entries, ∃ key, entry.kind = .keyed key)
    (values : ∀ entry ∈ entries, Composed env entry.value) : Composed env (.object loc entries)

/-- Fields whose definitions are composed. -/
structure ComposedFields (env : Environment) (entries : List Entry) : Prop where
  keyed : ∀ entry ∈ entries, ∃ key, entry.kind = .keyed key
  values : ∀ entry ∈ entries, Composed env entry.value

/-- From every session in which nothing is being resolved, a computation gives a result with a
property, and nothing is being resolved afterwards. -/
def Completes {α : Type} (env : Environment) (x : Eval α) (result : α → Prop) : Prop :=
  ∀ s, s.resolving = [] → ∃ a s', x env s = (.ok a, s') ∧ s'.resolving = [] ∧ result a

namespace Completes

variable {α β : Type} {env : Environment} {x : Eval α} {result : α → Prop} {final : β → Prop}

theorem pure {a : α} (h : result a) : Completes env (Pure.pure a) result :=
  fun s hidle => ⟨a, s, rfl, hidle, h⟩

theorem of_yields {a : α} (h : ∀ s, s.resolving = [] → Yields env s x a) (ha : result a) :
    Completes env x result :=
  fun s hidle => ⟨a, s, h s hidle, hidle, ha⟩

theorem bind {f : α → Eval β} (hx : Completes env x result)
    (hf : ∀ a, result a → Completes env (f a) final) : Completes env (x >>= f) final := by
  intro s hidle
  obtain ⟨a, s₁, hrun, hidle₁, ha⟩ := hx s hidle
  obtain ⟨b, s₂, hrun', hidle₂, hb⟩ := hf a ha s₁ hidle₁
  exact ⟨b, s₂, (Eval.run_bind_ok hrun).trans hrun', hidle₂, hb⟩

theorem congr {y : Eval α} (h : Completes env y result) (heq : ∀ s, x env s = y env s) :
    Completes env x result :=
  fun s hidle => heq s ▸ h s hidle

theorem warn (message : String) : Completes env (Eval.warn message) fun _ => True :=
  fun _ hidle => ⟨(), _, rfl, hidle, trivial⟩

theorem config : Completes env Eval.config (· = env.config) := of_yields (fun _ _ => .config) rfl

end Completes

section Composed

variable {env : Environment} {program : Program} (hprogram : env.index.program? 0 = some program)

/-! #### Values -/

/-- An expression with one value, whenever nothing is being resolved. -/
def HasValue (env : Environment) (enter : Evaluator Session) (e : Expr) : Prop :=
  ∃ v, ∀ s, s.resolving = [] → Yields env s (Evaluate.expression enter 0 none e) v

theorem exists_fields {enter : Evaluator Session} {entries : List Entry}
    (hkeyed : ∀ entry ∈ entries, ∃ key, entry.kind = .keyed key)
    (hvalues : ∀ entry ∈ entries, HasValue env enter entry.value) (done : List (String × Value)) :
    ∃ fields, ∀ s, s.resolving = [] →
      Yields env s (Evaluate.object enter 0 none done entries) fields := by
  induction entries generalizing done with
  | nil => exact ⟨done, fun _ _ => .pure done⟩
  | cons entry entries ih =>
    obtain ⟨⟨key, hkey⟩, hrest⟩ := List.forall_mem_cons.mp hkeyed
    obtain ⟨⟨v, hv⟩, hvalues⟩ := List.forall_mem_cons.mp hvalues
    obtain ⟨fields, hfields⟩ := ih hrest hvalues (insertKey key v done)
    obtain ⟨kind, e, loc, comments⟩ := entry
    obtain rfl : kind = .keyed key := hkey
    refine ⟨fields, fun s hidle => ?_⟩
    rw [Evaluate.object]
    exact (hv s hidle).bind (hfields s hidle)

theorem exists_items {enter : Evaluator Session} {entries : List Entry}
    (helements : ∀ entry ∈ entries, entry.kind = .element)
    (hvalues : ∀ entry ∈ entries, HasValue env enter entry.value) :
    ∃ items, ∀ s, s.resolving = [] →
      Yields env s (Evaluate.array enter 0 none entries) items := by
  induction entries with
  | nil => exact ⟨[], fun _ _ => .pure []⟩
  | cons entry entries ih =>
    obtain ⟨helement, hrest⟩ := List.forall_mem_cons.mp helements
    obtain ⟨⟨v, hv⟩, hvalues⟩ := List.forall_mem_cons.mp hvalues
    obtain ⟨items, hitems⟩ := ih hrest hvalues
    obtain ⟨kind, e, loc, comments⟩ := entry
    obtain rfl : kind = .element := helement
    refine ⟨v :: items, fun s hidle => ?_⟩
    rw [Evaluate.array]
    refine (hv s hidle).bind ((Yields.pure [v]).bind ?_)
    exact (hitems s hidle).bind (.pure _)

include hprogram

theorem Composed.hasValue {e : Expr} (h : Composed env e) (enter : Evaluator Session) :
    HasValue env enter e := by
  induction h with
  | lit => exact ⟨_, fun _ _ => .pure _⟩
  | @regex loc pattern flags => exact ⟨.pattern pattern flags, fun _ _ => .pure _⟩
  | @template loc chunk =>
    refine ⟨.str ("" ++ String.join [chunk]), fun s _ => ?_⟩
    rw [Evaluate.expression, Evaluate.template]
    exact .pure _
  | @typeName loc name h =>
    refine ⟨.typeLabel name, fun s hidle => ?_⟩
    rw [Evaluate.expression]
    exact lookup_typeName h hprogram (by rw [hidle]; exact List.not_mem_nil)
  | array elements _ ih =>
    obtain ⟨items, hitems⟩ := exists_items elements ih
    refine ⟨.list items, fun s hidle => ?_⟩
    rw [Evaluate.expression]
    exact (hitems s hidle).bind (.pure _)
  | object keyed _ ih =>
    obtain ⟨fields, hfields⟩ := exists_fields keyed ih []
    refine ⟨.map fields, fun s hidle => ?_⟩
    rw [Evaluate.expression]
    exact (hfields s hidle).bind (.pure _)

/-- **Composed expressions have values**, and nothing happens when these are found. -/
theorem exists_values : ∃ value : Expr → Value, ∀ e, Composed env e →
    ∀ s, s.resolving = [] → Yields env s (resolve e) (value e) := by
  have hexists (e : Expr) : ∃ v, Composed env e →
      ∀ s, s.resolving = [] → Yields env s (resolve e) v := by
    by_cases h : Composed env e
    · obtain ⟨v, hv⟩ := h.hasValue hprogram (evaluate env.index.contexts)
      exact ⟨v, fun _ s hidle => Yields.index.bind (hv s hidle)⟩
    · exact ⟨.unknown, fun h' => absurd h' h⟩
  choose value hvalue using hexists
  exact ⟨value, hvalue⟩

theorem Composed.resolve_completes {e : Expr} (h : Composed env e) :
    Completes env (resolve e) fun _ => True := by
  obtain ⟨value, hvalue⟩ := exists_values hprogram
  exact .of_yields (hvalue e h) trivial

/-! #### Shapes -/

omit hprogram in
theorem Composed.inside {limit : Nat} {e node : Expr} (h : Composed env e)
    (hnode : (throughArrays limit e).2 = some node) : Composed env node := by
  fun_induction throughArrays limit e with
  | case1 e =>
    obtain rfl : e = node := Option.some.inj hnode
    exact h
  | case2 limit loc => cases hnode
  | case3 limit loc first entries n element heq ih =>
    cases h with
    | array _ values =>
      rw [heq] at ih
      exact ih (values _ List.mem_cons_self) hnode
  | case4 limit e hnot =>
    obtain rfl : e = node := Option.some.inj hnode
    exact h

/-- A shape whose options are composed, and so are its nested fields, which are smaller. -/
structure ComposedShape (env : Environment) (size : Nat) (shape : Shape) : Prop where
  options : ∃ options : List (String × Expr), (∀ option ∈ options, Composed env option.2) ∧
    shape.options = nodeSlots options
  children : shape.children = .none ∨ ∃ inner line, shape.children = .entries inner line ∧
    ComposedFields env inner ∧ sizeOf inner < size

omit hprogram in
theorem composedShape_scalar (size arrays : Nat) (typeName : String) :
    ComposedShape env size (.scalar arrays typeName) :=
  ⟨⟨[], nofun, rfl⟩, .inl rfl⟩

omit hprogram in
theorem composedShape_inline {size : Nat} {loc : Loc} {inner : List Entry}
    (h : Composed env (.object loc inner)) (hsize : sizeOf (Expr.object loc inner) ≤ size)
    (arrays : Nat) (line : Option Nat) :
    ComposedShape env size (.inline arrays (.entries inner line)) := by
  cases h with
  | object keyed values =>
    refine ⟨⟨[], nofun, rfl⟩, .inr ⟨inner, line, rfl, ⟨keyed, values⟩, ?_⟩⟩
    simp only [Expr.object.sizeOf_spec] at hsize
    omega

omit hprogram in
theorem ComposedShape.withOptions {size : Nat} {shape : Shape} (h : ComposedShape env size shape)
    {options : List (String × Expr)} (hoptions : ∀ option ∈ options, Composed env option.2) :
    ComposedShape env size (shape.withOptions (nodeSlots options)) :=
  ⟨⟨options, hoptions, rfl⟩, h.children⟩

theorem markerLabel_completes {marker : Expr} (h : Composed env marker) (key : String) :
    Completes env (markerLabel key marker) fun _ => True := by
  unfold markerLabel
  split
  · refine (h.resolve_completes hprogram).bind fun v _ => ?_
    split <;> exact .pure trivial
  · exact .pure trivial
  · exact .pure trivial
  · refine (h.resolve_completes hprogram).bind fun v _ => ?_
    split
    · exact .pure trivial
    · exact (Completes.warn _).bind fun _ _ => .pure trivial

/-- A composed expression constructs no schema. -/
theorem Composed.inlineFields_completes {e : Expr} (h : Composed env e) (key : String) :
    Completes env (inlineFields e key) (· = none) := by
  refine .of_yields (fun s _ => ?_) rfl
  have hentry : Yields env s entryProgram program := by rw [Yields, run_entryProgram, hprogram]
  have hfields : schemaFields program env.config e key = .ok none := by cases h <;> rfl
  refine hentry.bind (Yields.config.bind ?_)
  rw [hfields]
  exact .pure _

theorem typeShape_completes {marker : Option Expr} {size : Nat}
    (h : ∀ e ∈ marker, Composed env e ∧ sizeOf e ≤ size) (key : String) (arrays : Nat) :
    Completes env (typeShape key arrays marker) (ComposedShape env size) := by
  unfold typeShape
  split
  next => exact .pure (composedShape_scalar _ _ _)
  next loc inner =>
    obtain ⟨hinner, hsize⟩ := h _ rfl
    exact .pure (composedShape_inline hinner hsize _ _)
  next loc inner =>
    obtain ⟨hmarker, hsize⟩ := h _ rfl
    unfold arrayMarkerShape
    dsimp only
    split
    next => exact .pure (composedShape_scalar _ _ _)
    next loc' fields hfound =>
      have hle := sizeOf_throughArrays hfound
      exact .pure (composedShape_inline (hmarker.inside hfound) (hle.trans hsize) _ _)
    next element _ hfound =>
      refine (markerLabel_completes hprogram (hmarker.inside hfound) key).bind fun _ _ => ?_
      exact .pure (composedShape_scalar _ _ _)
  next marker hobject harray =>
    obtain ⟨hmarker, -⟩ := h _ rfl
    refine (hmarker.inlineFields_completes hprogram key).bind ?_
    rintro _ rfl
    refine (markerLabel_completes hprogram hmarker key).bind fun _ _ => ?_
    exact .pure (composedShape_scalar _ _ _)

omit hprogram in
theorem mem_putAll {α : Type} {P : α → Prop} {done more : List (String × α)}
    (hdone : ∀ field ∈ done, P field.2) (hmore : ∀ field ∈ more, P field.2) :
    ∀ field ∈ putAll done more, P field.2 := by
  induction more generalizing done with
  | nil => exact hdone
  | cons field more ih =>
    obtain ⟨hfield, hmore⟩ := List.forall_mem_cons.mp hmore
    exact ih (forall_mem_insertKey hdone field.1 hfield) hmore

omit hprogram in
theorem putAll_map {α β : Type} (f : α → β) (done more : List (String × α)) :
    putAll (done.map fun (key, a) => (key, f a)) (more.map fun (key, a) => (key, f a)) =
      (putAll done more).map fun (key, a) => (key, f a) := by
  have hinsert (key : String) (a : α) (fields : List (String × α)) :
      insertKey key (f a) (fields.map fun (key, a) => (key, f a)) =
        (insertKey key a fields).map fun (key, a) => (key, f a) := by
    induction fields with
    | nil => rfl
    | cons field fields ih =>
      simp only [List.map_cons, insertKey, ih]
      split <;> rfl
  induction more generalizing done with
  | nil => rfl
  | cons field more ih =>
    rw [List.map_cons, putAll, hinsert, ih]
    rfl

theorem objectShape_completes {loc : Loc} {entries : List Entry}
    (h : Composed env (.object loc entries)) {size : Nat}
    (hsize : sizeOf (Expr.object loc entries) ≤ size) (key : String) (arrays : Nat) :
    Completes env (objectShape key arrays loc entries) (ComposedShape env size) := by
  obtain ⟨hkeyed, hvalues⟩ : ComposedFields env entries := by
    cases h with
    | object keyed values => exact ⟨keyed, values⟩
  -- Keys may be written twice, so the options are what is left of the entries.
  let options := putAll [] (keyedValues entries)
  have hmem : ∀ option ∈ options, Composed env option.2 ∧ sizeOf option.2 ≤ size := by
    refine mem_putAll (P := fun e => Composed env e ∧ sizeOf e ≤ size) nofun
      fun option hoption => ?_
    obtain ⟨entry, hentry, hvalue, -⟩ := mem_keyedValues hoption
    have hlt := sizeOf_value_lt entry
    have hlt' := List.sizeOf_lt_of_mem hentry
    simp only [Expr.object.sizeOf_spec] at hsize
    exact ⟨hvalue ▸ hvalues entry hentry, by rw [← hvalue]; omega⟩
  have hslots (s : Session) : Yields env s (slots key [] entries) (nodeSlots options) := by
    rw [nodeSlots, ← putAll_map]
    exact slots_yields hkeyed []
  have hslot : Completes env
      (slotShape key arrays (.entries entries (some loc.startLine)) (nodeSlots options))
      (ComposedShape env size) := by
    by_cases hread : ReadByKeys env.config options
    · refine .congr ?_ fun s => slotShape_of_readByKeys hread key arrays _
      have hmarker : ∀ e ∈ lookupKey? env.config.typeMarker options,
          Composed env e ∧ sizeOf e ≤ size := fun e he => hmem _ (mem_of_lookupKey? he)
      refine (typeShape_completes hprogram hmarker key arrays).bind fun shape hshape => ?_
      exact .pure (hshape.withOptions fun option hoption =>
        (hmem option (List.mem_of_mem_filter hoption)).1)
    · exact .of_yields (fun s _ => slotShape_of_not_readByKeys hread key arrays _)
        (composedShape_inline h hsize _ _)
  have hobject : Completes env (slots key [] entries) (· = nodeSlots options) :=
    .of_yields (fun s _ => hslots s) rfl
  refine hobject.bind ?_
  rintro _ rfl
  exact hslot.bind fun shape hshape => .pure ⟨hshape.options, hshape.children⟩

/-- The shape of a literal of which nothing can be seen before it is evaluated. -/
theorem evaluatedShape_completes {e : Expr} (h : Composed env e) {v : Value}
    (hvalue : ∀ s, s.resolving = [] → Yields env s (resolve e) v)
    (hatom : (∀ items, v ≠ .list items) ∧ ∀ fields, v ≠ .map fields) (size : Nat) (key : String)
    (arrays : Nat) :
    Completes env (do
      match ← inlineFields e key with
      | some entries => return .inline arrays (.entries entries none)
      | none => valueShape (← Eval.config) key arrays (← resolve e)) (ComposedShape env size) := by
  refine (h.inlineFields_completes hprogram key).bind ?_
  rintro _ rfl
  refine Completes.config.bind ?_
  rintro _ rfl
  have hresolve : Completes env (resolve e) (· = v) := .of_yields hvalue rfl
  refine hresolve.bind ?_
  rintro v rfl
  cases v with
  | list items => exact absurd rfl (hatom.1 items)
  | map fields => exact absurd rfl (hatom.2 fields)
  | _ =>
    first
    | exact .pure (composedShape_scalar _ _ _)
    | exact (Completes.warn _).bind fun _ _ => .pure (composedShape_scalar _ _ _)

theorem shapeOf_completes {e : Expr} (h : Composed env e) (key : String) :
    Completes env (shapeOf key e) (ComposedShape env (sizeOf e)) := by
  unfold shapeOf
  split
  next => exact .pure (composedShape_scalar _ _ _)
  next arrays node hfound =>
    have hnode := h.inside (congrArg Prod.snd hfound)
    have hsize := sizeOf_throughArrays (congrArg Prod.snd hfound)
    cases hnode with
    | lit => exact .pure (composedShape_scalar _ _ _)
    | @typeName loc name hname =>
      refine .of_yields (fun s hidle => ?_) (composedShape_scalar _ arrays name)
      exact ((SaysValue.typeName hname).resolve_yields hprogram hidle).bind (.pure _)
    | array => exact .pure (composedShape_scalar _ _ _)
    | regex =>
      exact evaluatedShape_completes hprogram .regex (fun s _ => Yields.index.bind (.pure _))
        ⟨nofun, nofun⟩ _ key arrays
    | template =>
      exact evaluatedShape_completes hprogram .template (fun s _ => Yields.index.bind (.pure _))
        ⟨nofun, nofun⟩ _ key arrays
    | object keyed values => exact objectShape_completes hprogram (.object keyed values) hsize key _

/-! #### Fields -/

/-- **The options that are shown**, in the order of the configuration, given their values. -/
def shownOptions (config : Config) (value : Expr → Value) (options : List (String × Expr)) :
    List String :=
  config.options.filterMap fun name =>
    (lookupKey? name options).bind fun e => optionText? name (value e)

/-- The first line of a field with that type, if these options are shown. -/
def bulletText (key type : String) (shown : List String) (depth : Nat) : String :=
  let head := Description.indentation depth ++ "- **" ++ key ++ "** \x60" ++ type ++ "\x60"
  if shown.isEmpty then head else head ++ " " ++ fenced shown

omit hprogram in
theorem optionTexts_yields_values {options : List (String × Expr)} {value : Expr → Value}
    {s : Session} (h : ∀ option ∈ options, Yields env s (resolve option.2) (value option.2))
    (names : List String) :
    Yields env s (optionTexts (nodeSlots options) names) (names.filterMap fun name =>
      (lookupKey? name options).bind fun e => optionText? name (value e)) := by
  induction names with
  | nil => exact .pure _
  | cons name names ih =>
    have hslot : lookupKey? name (nodeSlots options) = (lookupKey? name options).map Slot.node :=
      lookupKey?_map _ _ _
    rw [optionTexts, hslot, List.filterMap_cons]
    cases hoption : lookupKey? name options with
    | none => exact ih
    | some e =>
      refine (h _ (mem_of_lookupKey? hoption)).bind (ih.bind ?_)
      cases htext : optionText? name (value e) <;> simp [htext] <;> exact .pure _

omit hprogram in
theorem bullet_yields_values {options : List (String × Expr)} {value : Expr → Value} {s : Session}
    (h : ∀ option ∈ options, Yields env s (resolve option.2) (value option.2)) {shape : Shape}
    (hshape : shape.options = nodeSlots options) (key : String) (depth : Nat) :
    Yields env s (bullet key shape depth)
      (bulletText key (typeText shape) (shownOptions env.config value options) depth) := by
  have htexts := optionTexts_yields_values h env.config.options
  rw [← hshape] at htexts
  exact Yields.config.bind (htexts.bind (.pure _))

theorem bullet_completes {size : Nat} {shape : Shape} (h : ComposedShape env size shape)
    (key : String) (depth : Nat) : Completes env (bullet key shape depth) fun _ => True := by
  obtain ⟨options, hoptions, hshape⟩ := h.options
  obtain ⟨value, hvalue⟩ := exists_values hprogram
  exact .of_yields (fun s hidle => bullet_yields_values
    (fun option hoption => hvalue _ (hoptions option hoption) s hidle) hshape key depth) trivial

/-- A way to render composed fields up to some size. -/
def RendersComposed (env : Environment) (rec : Renderer) (size : Nat) : Prop :=
  ∀ inner, ComposedFields env inner → sizeOf inner < size → ∀ splicing depth line,
    Completes env (rec splicing depth line inner) fun _ => True

omit hprogram in
theorem childFields_completes {rec : Renderer} {size : Nat} (hrec : RendersComposed env rec size)
    {shape : Shape} (h : ComposedShape env size shape) (splicing : List String) (depth : Nat) :
    Completes env (childFields rec splicing depth shape.children) fun _ => True := by
  rcases h.children with hnone | ⟨inner, line, hinner, hfields, hsize⟩
  · rw [hnone]
    exact .pure trivial
  · rw [hinner]
    exact hrec inner hfields hsize splicing depth line

theorem field_completes {rec : Renderer} {entry : Entry} (h : Composed env entry.value)
    (hrec : RendersComposed env rec (sizeOf entry.value)) (splicing : List String) (depth : Nat)
    (line : Option Nat) (key : String) :
    Completes env (field rec splicing depth line key entry) fun _ => True := by
  refine (shapeOf_completes hprogram h key).bind fun shape hshape => ?_
  refine (bullet_completes hprogram hshape key depth).bind fun _ _ => ?_
  exact (childFields_completes hrec hshape splicing (depth + 1)).bind fun _ _ => .pure trivial

theorem entryFields_completes {rec : Renderer} {entries : List Entry}
    (h : ComposedFields env entries)
    (hrec : ∀ entry ∈ entries, RendersComposed env rec (sizeOf entry.value))
    (splicing : List String) (depth : Nat) (line : Option Nat) :
    Completes env (entryFields rec splicing depth line entries) fun _ => True := by
  induction entries with
  | nil => exact .pure trivial
  | cons entry entries ih =>
    obtain ⟨⟨key, hkind⟩, hkeyed⟩ := List.forall_mem_cons.mp h.keyed
    obtain ⟨hvalue, hvalues⟩ := List.forall_mem_cons.mp h.values
    obtain ⟨hfirst, hrest⟩ := List.forall_mem_cons.mp hrec
    simp only [entryFields, hkind]
    refine (field_completes hprogram hvalue hfirst splicing depth line key).bind fun _ _ => ?_
    exact (ih ⟨hkeyed, hvalues⟩ hrest).bind fun _ _ => .pure trivial

/-- **Composed fields render**, with as much fuel as their size. -/
theorem renderEntries_completes (fuel : Nat) : RendersComposed env (renderEntries fuel) fuel := by
  induction fuel with
  | zero => exact fun _ _ hsize => absurd hsize (Nat.not_lt_zero _)
  | succ fuel ih =>
    intro inner hinner hsize splicing depth line
    refine entryFields_completes hprogram hinner (fun entry hentry => ?_) splicing depth line
    have hlt := List.sizeOf_lt_of_mem hentry
    have hlt' := sizeOf_value_lt entry
    exact fun inner' hinner' hsize' => ih inner' hinner' (by omega)

/-- The parts of a field with a composed definition that is read by its keys. -/
theorem exists_parts {rec : Renderer} {size : Nat} (hrec : RendersComposed env rec size)
    {marker : Option Expr} (hmarker : ∀ e ∈ marker, Composed env e ∧ sizeOf e ≤ size)
    (splicing : List String) (depth : Nat) (key : String) {s : Session} (hidle : s.resolving = []) :
    ∃ shape s₁ children s', typeShape key 0 marker env s = (.ok shape, s₁) ∧ s₁.resolving = [] ∧
      childFields rec splicing (depth + 1) shape.children env s₁ = (.ok children, s') := by
  obtain ⟨shape, s₁, hshape, hidle₁, hcomposed⟩ :=
    typeShape_completes hprogram hmarker key 0 s hidle
  obtain ⟨children, s', hchildren, -, -⟩ :=
    childFields_completes hrec hcomposed splicing (depth + 1) s₁ hidle₁
  exact ⟨shape, s₁, children, s', hshape, hidle₁, hchildren⟩

end Composed

/-! ### Definitions in another order -/

/-- **The order of keys does not matter.** Take a definition without comments whose entries are
keyed, with distinct keys, and are read by their keys: beside the type marker there are only
options, or the type marker is there and no object literal. With its entries in any other order the
field is the same, whatever way there is to render nested fields and from whatever session: it has
the same text or fails in the same way, and the same is reported. If the definition is composed of
literals, names of global types, arrays and objects, then it has a text, with three parts. The first
line says the type of the shape that the type marker alone gives, and shows as options those of the
configuration that are among the keys beside the type marker, in the order of the configuration,
each by its name and its value. Below it stand the comments of the field, and the nested fields of
that shape. -/
theorem definition_renders_in_any_order {env : Environment} {entries entries' : List Entry}
    (hperm : entries.Perm entries') (hkeyed : ∀ entry ∈ entries, ∃ key, entry.kind = .keyed key)
    (hdistinct : (entries.filterMap Entry.key?).Nodup)
    (huncommented : ∀ entry ∈ entries, entry.comments = .none)
    (hread : ReadByKeys env.config (keyedValues entries)) (splicing : List String) (depth : Nat)
    (line : Option Nat) (key : String) (loc loc' entryLoc entryLoc' : Loc) (comments : Comments) :
    let entry : Entry := .mk (.keyed key) (.object loc entries) entryLoc comments
    let entry' : Entry := .mk (.keyed key) (.object loc' entries') entryLoc' comments
    let options := eraseKey env.config.typeMarker (keyedValues entries)
    (∀ rec s, field rec splicing depth line key entry env s =
      field rec splicing depth line key entry' env s) ∧
    ∀ program, env.index.program? 0 = some program →
      (∀ entry ∈ entries, Composed env entry.value) → ∀ s, s.resolving = [] →
        ∃ fuel shape s₁ children s', ∃ value : Expr → Value,
          (∀ entry ∈ entries, Yields env s (resolve entry.value) (value entry.value)) ∧
          typeShape key 0 (lookupKey? env.config.typeMarker (keyedValues entries)) env s =
            (.ok shape, s₁) ∧
          shapeOf key (.object loc entries) env s =
            (.ok { shape.withOptions (nodeSlots options) with object := some (loc, entries) }, s₁) ∧
          ∀ more,
            let nested := renderEntries (fuel + more)
            let text := fieldText
              (bulletText key (typeText shape) (shownOptions env.config value options) depth)
              (Description.ofComments (ownComments comments line) depth) children
            childFields nested splicing (depth + 1) shape.children env s₁ = (.ok children, s') ∧
              field nested splicing depth line key entry env s = (.ok text, s') ∧
              field nested splicing depth line key entry' env s = (.ok text, s') := by
  intro entry entry' options
  have hoptions : (keyedValues entries).Perm (keyedValues entries') := hperm.filterMap _
  have hkeys : ((keyedValues entries).map Prod.fst).Nodup := keys_keyedValues entries ▸ hdistinct
  have hmarker := lookupKey?_perm hoptions hkeys env.config.typeMarker
  have hsame (rec : Renderer) (s : Session) : field rec splicing depth line key entry env s =
      field rec splicing depth line key entry' env s := by
    have hbeside (name : String) : lookupKey? name options =
        lookupKey? name (eraseKey env.config.typeMarker (keyedValues entries')) :=
      lookupKey?_perm (hoptions.filter _) (hkeys.sublist (List.filter_sublist.map Prod.fst)) name
    rw [field_of_definition hkeyed hdistinct huncommented hread,
      field_of_definition (fun other h => hkeyed other (hperm.mem_iff.mpr h))
        ((hperm.filterMap _).nodup_iff.mp hdistinct)
        (fun other h => huncommented other (hperm.mem_iff.mpr h)) (hread.perm hoptions hkeys),
      hmarker, definedField_congr hbeside]
  refine ⟨hsame, fun program hprogram hcomposed s hidle => ?_⟩
  obtain ⟨value, hvalue⟩ := exists_values hprogram
  -- The type marker is one of the entries, and their size is enough fuel for what is nested in it.
  have hmem (option : String × Expr) (hoption : option ∈ keyedValues entries) :
      Composed env option.2 ∧ sizeOf option.2 ≤ sizeOf entries := by
    obtain ⟨other, hother, hvalue, -⟩ := mem_keyedValues hoption
    have hlt := sizeOf_value_lt other
    have hlt' := List.sizeOf_lt_of_mem hother
    exact ⟨hvalue ▸ hcomposed other hother, by rw [← hvalue]; omega⟩
  have hmarked : ∀ e ∈ lookupKey? env.config.typeMarker (keyedValues entries),
      Composed env e ∧ sizeOf e ≤ sizeOf entries := fun e he => hmem _ (mem_of_lookupKey? he)
  obtain ⟨shape, s₁, children, s', hshape, hidle₁, hchildren⟩ := exists_parts hprogram
    (renderEntries_completes hprogram (sizeOf entries)) hmarked splicing depth key hidle
  have hshown : ∀ option ∈ options, Yields env s₁ (resolve option.2) (value option.2) :=
    fun option h => hvalue _ (hmem option (List.mem_of_mem_filter h)).1 s₁ hidle₁
  have hbullet : Yields env s₁ (bullet key (shape.withOptions (nodeSlots options)) depth)
      (bulletText key (typeText shape) (shownOptions env.config value options) depth) :=
    bullet_yields_values hshown rfl key depth
  refine ⟨sizeOf entries, shape, s₁, children, s', value,
    fun other h => hvalue _ (hcomposed other h) s hidle, hshape,
    (shapeOf_of_definition hkeyed hdistinct hread key loc).trans (Eval.run_bind_ok hshape), ?_⟩
  intro more nested text
  have hmore : childFields nested splicing (depth + 1) shape.children env s₁ = (.ok children, s') :=
    (childFields_agree (renderEntries_agree _ more) splicing (depth + 1) shape.children
      (by rw [hchildren]; exact nofun)).trans hchildren
  have htext : field nested splicing depth line key entry env s = (.ok text, s') :=
    (field_of_definition hkeyed hdistinct huncommented hread _ _ _ _ _ _ _ _).trans
      (definedField_of_parts hshape hbullet hmore line comments)
  exact ⟨hmore, htext, (hsame _ s).symm.trans htext⟩

/-- `{ note: 'x', required: true, type: [String], ref: 'User' }` -/
def notedReference : List Entry :=
  [.mk (.keyed "note") (.lit somewhere (.string "x")) somewhere .none,
    .mk (.keyed "required") (.lit somewhere (.bool true)) somewhere .none,
    .mk (.keyed "type")
      (.array somewhere [.mk .element (.ident somewhere "String") somewhere .none]) somewhere .none,
    .mk (.keyed "ref") (.lit somewhere (.string "User")) somewhere .none]

/-- A definition that is read from behind. -/
theorem notedReference_renders_reversed :
    let env := environmentBinding (.object somewhere notedReference)
    let s := Session.start (.empty true)
    let entry' := fieldOf (.object somewhere notedReference.reverse)
    (∀ entry ∈ notedReference, Composed env entry.value) ∧
      (∀ rec, field rec [] 0 none "k" entry' env s =
        (.ok "- **k** \x60[String]\x60 \x60\x60ref: 'User'\x60\x60 \x60\x60required\x60\x60", s)) ∧
      ∃ fuel shape, ∃ value : Expr → Value,
        (∀ entry ∈ notedReference, Yields env s (resolve entry.value) (value entry.value)) ∧
        ∀ more, ∃ children s', field (renderEntries (fuel + more)) [] 0 none "k" entry' env s =
          (.ok (fieldText (bulletText "k" (typeText shape)
            (shownOptions env.config value (eraseKey "type" (keyedValues notedReference))) 0) ""
              children), s') := by
  intro env s entry'
  have hcomposed : ∀ entry ∈ notedReference, Composed env entry.value := by
    simp only [notedReference, List.mem_cons, List.not_mem_nil, or_false, forall_eq_or_imp,
      forall_eq]
    refine ⟨.lit, .lit, .array (by simp [Entry.kind]) ?_, .lit⟩
    simp only [List.mem_singleton, forall_eq]
    exact .typeName (isTypeName_string _)
  have hread : ReadByKeys env.config (keyedValues notedReference) :=
    .inr ⟨_, rfl, fun _ _ he => Expr.noConfusion he⟩
  obtain ⟨hsame, hrender⟩ := definition_renders_in_any_order
    (List.reverse_perm notedReference).symm (by simp [notedReference, Entry.kind]) (by decide)
    (by simp [notedReference, Entry.comments]) hread [] 0 none "k" somewhere somewhere somewhere
    somewhere .none
  obtain ⟨fuel, shape, s₁, children, s', value, hvalue, -, -, htext⟩ :=
    hrender _ rfl hcomposed s rfl
  exact ⟨hcomposed, fun rec => (hsame rec s).symm.trans rfl, fuel, shape, value, hvalue,
    fun more => ⟨children, s', (htext more).2.2⟩⟩

end SchemaDoc.Document
