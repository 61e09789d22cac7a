import SchemaDoc.Proofs.Shapes

/-!
# Definitions under a name

A field may be given by a definition that is written in place, or by a name that is bound to one. The
first is read as it is written, the second is evaluated and read as a value, so every rule about
definitions is applied in two ways: to syntax and to values. This file compares the two on
definitions that are made of literals, names of global types, arrays and objects, and nothing that
has to be found out about. They are **plain** (`Plain`) if each type marker is a type, and
**readable** (`Readable`) if it may also be an object, as long as that is read as the fields of a
document in both ways.

Evaluating a readable definition changes nothing and gives `writtenValue`, so both ways can be
followed side by side from one session. What they have in common on the way is said by
`Shape.Matches`: the same type in as many arrays, and options and nested fields that are the same
expressions, on one side as they are written and on the other side as values. Nested fields are
compared by induction on how deeply they nest, and the theorem is that a name renders as its
definition (`name_renders_as_definition`).
-/

namespace SchemaDoc.Document

open Evaluate (constant? originIn? origin? Origin)

/-! ### Computations that change nothing -/

/-- From a session, a computation gives a result and leaves the session as it is. -/
def Yields {α : Type} (env : Environment) (s : Session) (x : Eval α) (a : α) : Prop :=
  x env s = (.ok a, s)

namespace Yields

variable {α β : Type} {env : Environment} {s : Session} {x : Eval α} {a : α}

theorem pure (a : α) : Yields env s (Pure.pure a) a := rfl

theorem bind {f : α → Eval β} {b : β} (hx : Yields env s x a) (hf : Yields env s (f a) b) :
    Yields env s (x >>= f) b :=
  (Eval.run_bind_ok hx).trans hf

theorem config : Yields env s Eval.config env.config := rfl

theorem index : Yields env s Eval.index env.index := rfl

theorem asks (question : Session → α) : Yields env s (Eval.asks question) (question s) := rfl

theorem whileResolving {key : ModuleId × String}
    (h : Yields env { s with resolving := key :: s.resolving } x a) :
    Yields env s (Eval.whileResolving key x) a := by
  have hrun : x env (Store.update (fun s => { s with resolving := key :: s.resolving }) s) = _ := h
  rw [Yields, Eval.whileResolving, Eval.run_bracket, hrun]
  rfl

end Yields

/-! ### Plain definitions -/

/-- A name that stands for a global type: the entry file does not introduce it. -/
structure IsTypeName (env : Environment) (name : String) : Prop where
  builtin : env.config.isBuiltinType name = true
  not_constant : constant? name = none
  not_introduced : ∀ program, env.index.program? 0 = some program → name ∉ program.names

/-- A plain type marker: the name of a global type or a string, in at most that many arrays of at
most one element. -/
def PlainMarker (env : Environment) : Nat → Expr → Prop
  | _, .ident _ name => IsTypeName env name
  | _, .lit _ (.string _) => True
  | _ + 1, .array _ [] => True
  | room + 1, .array _ [.mk .element e _ _] => PlainMarker env room e
  | _, _ => False

/-- A plain definition that stands inside that many arrays: a literal, the name of a global type, an
array of plain definitions, or an object of them, without comments. There are no spreads, the keys of
an object are distinct, and its type marker is a plain one, with at most two arrays around the type. -/
inductive Plain (env : Environment) : Nat → Expr → Prop
  | lit {arrays : Nat} {loc : Loc} {value : Script.Literal} : Plain env arrays (.lit loc value)
  | typeName {arrays : Nat} {loc : Loc} {name : String} (h : IsTypeName env name) :
    Plain env arrays (.ident loc name)
  | array {arrays : Nat} {loc : Loc} {entries : List Entry}
    (elements : ∀ entry ∈ entries, entry.kind = .element)
    (uncommented : ∀ entry ∈ entries, entry.comments = .none)
    (values : ∀ entry ∈ entries, Plain env (arrays + 1) entry.value) :
    Plain env arrays (.array loc entries)
  | object {arrays : Nat} {loc : Loc} {entries : List Entry}
    (keyed : ∀ entry ∈ entries, ∃ key, entry.kind = .keyed key)
    (distinct : (entries.filterMap Entry.key?).Nodup)
    (uncommented : ∀ entry ∈ entries, entry.comments = .none)
    (values : ∀ entry ∈ entries, Plain env 0 entry.value)
    (marker : ∀ entry ∈ entries, entry.kind = .keyed env.config.typeMarker →
      PlainMarker env (arrayLimit - arrays) entry.value) :
    Plain env arrays (.object loc entries)

/-! ### Readable definitions -/

/-- An expression that says its value: a literal, the name of a global type, an array of such
expressions, or an object of them under distinct keys. There are no spreads. -/
inductive SaysValue (env : Environment) : Expr → Prop
  | lit {loc : Loc} {value : Script.Literal} : SaysValue env (.lit loc value)
  | typeName {loc : Loc} {name : String} (h : IsTypeName env name) :
    SaysValue env (.ident loc name)
  | array {loc : Loc} {entries : List Entry}
    (elements : ∀ entry ∈ entries, entry.kind = .element)
    (values : ∀ entry ∈ entries, SaysValue env entry.value) : SaysValue env (.array loc entries)
  | object {loc : Loc} {entries : List Entry}
    (keyed : ∀ entry ∈ entries, ∃ key, entry.kind = .keyed key)
    (distinct : (entries.filterMap Entry.key?).Nodup)
    (values : ∀ entry ∈ entries, SaysValue env entry.value) : SaysValue env (.object loc entries)

/-- The entries of an object literal that is read as the fields of a document, under a type marker
as well as under the key of a field: there are none, or none of them is a type marker and not all
of them are options. -/
def ReadAsFields (config : Config) (entries : List Entry) : Prop :=
  entries = [] ∨ config.typeMarker ∉ entries.filterMap Entry.key? ∧
    ∃ key ∈ entries.filterMap Entry.key?, config.isOption key = false

/-- The entries of an object literal that are all options, its type marker apart. -/
def BesideOptions (config : Config) (entries : List Entry) : Prop :=
  ∀ key ∈ entries.filterMap Entry.key?, key ≠ config.typeMarker → config.isOption key = true

/-- A readable type marker: the name of a global type, a string or the fields of a document, in at
most that many arrays. -/
def ReadableMarker (env : Environment) : Nat → Expr → Prop
  | _, .ident _ name => IsTypeName env name
  | _, .lit _ (.string _) => True
  | _, .object _ inner => ReadAsFields env.config inner
  | _ + 1, .array _ [] => True
  | room + 1, .array _ (.mk _ e _ _ :: _) => ReadableMarker env room e
  | _, _ => False

/-- A readable definition that stands inside that many arrays. It says its value, its type markers
are readable, and beside one that is an object there are only options. This is asked of a
definition only as far as it is shown: the value of an option may be anything that says its
value. -/
inductive Readable (env : Environment) : Nat → Expr → Prop
  | lit {arrays : Nat} {loc : Loc} {value : Script.Literal} : Readable env arrays (.lit loc value)
  | typeName {arrays : Nat} {loc : Loc} {name : String} (h : IsTypeName env name) :
    Readable env arrays (.ident loc name)
  | array {arrays : Nat} {loc : Loc} {entries : List Entry}
    (elements : ∀ entry ∈ entries, entry.kind = .element)
    (values : ∀ entry ∈ entries, Readable env (arrays + 1) entry.value) :
    Readable env arrays (.array loc entries)
  | object {arrays : Nat} {loc : Loc} {entries : List Entry}
    (keyed : ∀ entry ∈ entries, ∃ key, entry.kind = .keyed key)
    (distinct : (entries.filterMap Entry.key?).Nodup)
    (uncommented : ∀ entry ∈ entries, entry.comments = .none)
    (values : ∀ entry ∈ entries, SaysValue env entry.value)
    (fields : ReadAsFields env.config entries → ∀ entry ∈ entries, Readable env 0 entry.value)
    (type : ∀ entry ∈ entries, entry.kind = .keyed env.config.typeMarker →
      Readable env 0 entry.value)
    (marker : ∀ entry ∈ entries, entry.kind = .keyed env.config.typeMarker →
      ReadableMarker env (arrayLimit - arrays) entry.value)
    (beside : ∀ entry ∈ entries, entry.kind = .keyed env.config.typeMarker →
      (∃ loc inner, entry.value = .object loc inner) → BesideOptions env.config entries) :
    Readable env arrays (.object loc entries)

theorem Readable.saysValue {env : Environment} {arrays : Nat} {e : Expr}
    (h : Readable env arrays e) : SaysValue env e := by
  induction h with
  | lit => exact .lit
  | typeName h => exact .typeName h
  | array elements _ ih => exact .array elements ih
  | object keyed distinct _ values => exact .object keyed distinct values

theorem PlainMarker.readable {env : Environment} {room : Nat} {e : Expr}
    (h : PlainMarker env room e) : ReadableMarker env room e := by
  fun_induction PlainMarker env room e with
  | case1 => simpa only [ReadableMarker] using h
  | case2 => simp only [ReadableMarker]
  | case3 => trivial
  | case4 room loc e loc' comments ih => exact ih h
  | case5 => exact h.elim

theorem Plain.readable {env : Environment} {arrays : Nat} {e : Expr} (h : Plain env arrays e) :
    Readable env arrays e := by
  induction h with
  | lit => exact .lit
  | typeName h => exact .typeName h
  | array elements _ _ ih => exact .array elements ih
  | object keyed distinct uncommented _ marker ih =>
    refine .object keyed distinct uncommented (fun entry hentry => (ih entry hentry).saysValue)
      (fun _ => ih) (fun entry hentry _ => ih entry hentry)
      (fun entry hentry hkind => (marker entry hentry hkind).readable)
      fun entry hentry hkind hobject => ?_
    obtain ⟨loc, inner, hvalue⟩ := hobject
    have hplain := marker entry hentry hkind
    rw [hvalue] at hplain
    simp [PlainMarker] at hplain

/-- Fields that are readable definitions. -/
def ReadableFields (env : Environment) (entries : List Entry) : Prop :=
  ∀ entry ∈ entries, (∃ key, entry.kind = .keyed key) ∧ entry.comments = .none ∧
    Readable env 0 entry.value

theorem Readable.fields {env : Environment} {arrays : Nat} {loc : Loc} {entries : List Entry}
    (h : Readable env arrays (.object loc entries)) (hread : ReadAsFields env.config entries) :
    ReadableFields env entries := by
  cases h with
  | object keyed _ uncommented _ fields =>
    exact fun entry hentry =>
      ⟨keyed entry hentry, uncommented entry hentry, fields hread entry hentry⟩

mutual
/-- The value that an expression says. -/
def writtenValue : Expr → Value
  | .lit _ value => Evaluate.literal value
  | .ident _ name => .typeLabel name
  | .array _ entries => .list (writtenItems entries)
  | .object _ entries => .map (writtenFields entries)
  | _ => .unknown

/-- The items that the entries of an array say. -/
def writtenItems : List Entry → List Value
  | [] => []
  | .mk _ e _ _ :: entries => writtenValue e :: writtenItems entries

/-- The fields that the entries of an object say. -/
def writtenFields : List Entry → List (String × Value)
  | [] => []
  | .mk (.keyed key) e _ _ :: entries => (key, writtenValue e) :: writtenFields entries
  | _ :: entries => writtenFields entries
end

theorem writtenItems_eq (entries : List Entry) :
    writtenItems entries = entries.map fun entry => writtenValue entry.value := by
  induction entries with
  | nil => rfl
  | cons entry entries ih =>
    obtain ⟨kind, e, loc, comments⟩ := entry
    rw [writtenItems, ih]
    rfl

/-- The entries of an object by their keys. -/
def keyedValues (entries : List Entry) : List (String × Expr) :=
  entries.filterMap fun entry => entry.key?.map (·, entry.value)

theorem writtenFields_eq (entries : List Entry) :
    writtenFields entries = (keyedValues entries).map fun (key, e) => (key, writtenValue e) := by
  induction entries with
  | nil => rfl
  | cons entry entries ih =>
    obtain ⟨kind, e, loc, comments⟩ := entry
    cases kind with
    | keyed key => rw [writtenFields, ih]; rfl
    | spread => rw [writtenFields, ih]; rfl; nofun
    | element => rw [writtenFields, ih]; rfl; nofun

theorem mem_keyedValues {entries : List Entry} {option : String × Expr}
    (h : option ∈ keyedValues entries) :
    ∃ entry ∈ entries, entry.value = option.2 ∧ entry.kind = .keyed option.1 := by
  obtain ⟨⟨kind, e, loc, comments⟩, hentry, hoption⟩ := List.mem_filterMap.mp h
  cases kind with
  | keyed key =>
    obtain rfl := Option.some.inj hoption
    exact ⟨_, hentry, rfl, rfl⟩
  | spread => exact absurd hoption nofun
  | element => exact absurd hoption nofun

theorem keys_keyedValues (entries : List Entry) :
    (keyedValues entries).map Prod.fst = entries.filterMap Entry.key? := by
  rw [keyedValues, List.map_filterMap]
  congr 1
  funext entry
  cases entry.key? <;> rfl

theorem keys_writtenFields (entries : List Entry) :
    (writtenFields entries).map Prod.fst = entries.filterMap Entry.key? := by
  rw [writtenFields_eq, List.map_map, ← keys_keyedValues]
  rfl

theorem SaysValue.options {env : Environment} {loc : Loc} {entries : List Entry}
    (h : SaysValue env (.object loc entries)) :
    ∀ option ∈ keyedValues entries, SaysValue env option.2 := by
  intro option hoption
  obtain ⟨entry, hentry, hvalue, -⟩ := mem_keyedValues hoption
  cases h with
  | object _ _ values => exact hvalue ▸ values entry hentry

/-! ### Keys -/

theorem insertKey_of_not_mem {α : Type} {key : String} (value : α) {fields : List (String × α)}
    (h : key ∉ fields.map Prod.fst) : insertKey key value fields = fields ++ [(key, value)] := by
  induction fields with
  | nil => rfl
  | cons field fields ih =>
    simp only [List.map_cons, List.mem_cons, not_or] at h
    have hne : (field.1 == key) = false := beq_eq_false_iff_ne.mpr (Ne.symm h.1)
    rw [insertKey, hne, ih h.2]
    rfl

/-- Fields with others put into them, one after the other. -/
def putAll {α : Type} : List (String × α) → List (String × α) → List (String × α)
  | fields, [] => fields
  | fields, (key, value) :: more => putAll (insertKey key value fields) more

theorem putAll_of_distinct {α : Type} {done more : List (String × α)}
    (h : (done.map Prod.fst ++ more.map Prod.fst).Nodup) : putAll done more = done ++ more := by
  induction more generalizing done with
  | nil => exact (List.append_nil done).symm
  | cons field more ih =>
    obtain ⟨key, value⟩ := field
    have hnew : key ∉ done.map Prod.fst := fun hmem =>
      (List.nodup_append.mp h).2.2 _ hmem _ List.mem_cons_self rfl
    rw [List.append_cons, putAll, insertKey_of_not_mem _ hnew]
    refine ih ?_
    rw [List.map_append, List.append_assoc]
    exact h

theorem putAll_writtenFields {entries : List Entry}
    (distinct : (entries.filterMap Entry.key?).Nodup) :
    putAll [] (writtenFields entries) = writtenFields entries := by
  refine putAll_of_distinct ?_
  rw [keys_writtenFields]
  exact distinct

theorem lookupKey?_map {α β : Type} (f : α → β) (key : String) (fields : List (String × α)) :
    lookupKey? key (fields.map fun (k, a) => (k, f a)) = (lookupKey? key fields).map f := by
  induction fields with
  | nil => rfl
  | cons field fields ih =>
    rw [List.map_cons, lookupKey?, lookupKey?, ih]
    split <;> rfl

theorem lookupKey?_writtenFields (key : String) (entries : List Entry) :
    lookupKey? key (writtenFields entries) =
      (lookupKey? key (keyedValues entries)).map writtenValue := by
  rw [writtenFields_eq]
  exact lookupKey?_map writtenValue key _

theorem eraseKey_map {α β : Type} (f : α → β) (key : String) (fields : List (String × α)) :
    eraseKey key (fields.map fun (k, a) => (k, f a)) =
      (eraseKey key fields).map fun (k, a) => (k, f a) := by
  rw [eraseKey, List.filter_map]
  rfl

theorem eraseKey_of_lookupKey? {α : Type} {key : String} {fields : List (String × α)}
    (h : lookupKey? key fields = none) : eraseKey key fields = fields := by
  induction fields with
  | nil => rfl
  | cons field fields ih =>
    obtain ⟨k, b⟩ := field
    rw [lookupKey?] at h
    split at h
    next => cases h
    next hk =>
      rw [eraseKey, List.filter_cons_of_pos (by simpa using hk)]
      exact congrArg _ (ih h)

theorem lookupKey?_eq_none_iff {α : Type} {key : String} {fields : List (String × α)} :
    lookupKey? key fields = none ↔ key ∉ fields.map Prod.fst := by
  induction fields with
  | nil => simp [lookupKey?]
  | cons field fields ih =>
    rw [lookupKey?, List.map_cons, List.mem_cons, not_or, ← ih]
    by_cases hkey : field.1 = key
    · simp [hkey]
    · simp [hkey, Ne.symm hkey]

theorem all_eraseKey_iff {config : Config} {entries : List Entry} :
    ((eraseKey config.typeMarker (keyedValues entries)).all fun option =>
      config.isOption option.1) = true ↔ BesideOptions config entries := by
  rw [List.all_eq_true, BesideOptions, ← keys_keyedValues]
  simp only [eraseKey, List.mem_filter, bne_iff_ne, List.mem_map]
  constructor
  · rintro h key ⟨option, hoption, rfl⟩ hne
    exact h option ⟨hoption, hne⟩
  · exact fun h option hoption => h _ ⟨option, hoption.1, rfl⟩ hoption.2

theorem readAsFields_of_not_all {config : Config} {entries : List Entry}
    (hmarker : lookupKey? config.typeMarker (keyedValues entries) = none)
    (hall : ¬((keyedValues entries).all fun option => config.isOption option.1) = true) :
    ReadAsFields config entries := by
  rw [List.all_eq_true] at hall
  push Not at hall
  obtain ⟨option, hoption, hnot⟩ := hall
  rw [ReadAsFields, ← keys_keyedValues]
  exact .inr ⟨lookupKey?_eq_none_iff.mp hmarker, option.1, List.mem_map_of_mem hoption,
    Bool.eq_false_iff.mpr hnot⟩

theorem Readable.marker {env : Environment} {arrays : Nat} {loc : Loc} {entries : List Entry}
    (h : Readable env arrays (.object loc entries)) {marker : Expr}
    (hmarker : lookupKey? env.config.typeMarker (keyedValues entries) = some marker) :
    Readable env 0 marker ∧ ReadableMarker env (arrayLimit - arrays) marker ∧
      ((∃ loc inner, marker = .object loc inner) → BesideOptions env.config entries) := by
  obtain ⟨entry, hentry, rfl, hkind⟩ := mem_keyedValues (mem_of_lookupKey? hmarker)
  cases h with
  | object _ _ _ _ _ type marker beside =>
    exact ⟨type entry hentry hkind, marker entry hentry hkind, beside entry hentry hkind⟩

/-! ### Evaluation -/

section Evaluation

variable {env : Environment} {s : Session} {enter : Evaluator Session} {program : Program}

theorem local?_none (name : String) : Yields env s (Eval.local? none name) none := by
  have hnone : s.frames.lookup? none name = none := by
    rw [Frames.lookup?]
    cases s.frames.frames.size <;> rfl
  exact congrArg (fun value => (Except.ok value, s)) hnone

/-- A name that the entry file introduces nowhere has no origin in it. -/
theorem origin?_eq_none {name : String} (h : name ∉ program.names) : origin? program name = none := by
  rw [origin?, List.findSome?_eq_none_iff]
  intro statement hstatement
  rw [← Option.not_isSome_iff_eq_none]
  exact fun hsome =>
    h (List.mem_flatMap.mpr ⟨statement, hstatement, Statement.mem_names_of_origin hsome⟩)

theorem lookup_yields {name : String} (hconstant : constant? name = none) {value : Value}
    (h : Yields env s (Evaluate.topLevel enter 0 name) value) :
    Yields env s (Evaluate.lookup enter 0 name none) value := by
  refine (local?_none name).bind ?_
  simp only [hconstant]
  exact h

/-- **The name of a global type is its own label.** -/
theorem lookup_typeName {name : String} (h : IsTypeName env name)
    (hprogram : env.index.program? 0 = some program) (hfree : (0, name) ∉ s.resolving) :
    Yields env s (Evaluate.lookup enter 0 name none) (.typeLabel name) := by
  apply lookup_yields h.not_constant
  refine (Yields.asks _).bind ?_
  rw [if_neg (by simpa using hfree)]
  refine Yields.index.bind ?_
  simp only [hprogram]
  have hintroduced : Evaluate.introduced? enter 0 name program = pure none := by
    rw [Evaluate.introduced?, origin?_eq_none (h.not_introduced program hprogram)]
  rw [hintroduced]
  refine (Yields.pure none).whileResolving.bind ?_
  refine Yields.config.bind ?_
  rw [if_pos h.builtin]
  exact .pure _

theorem object_yields {value : Expr → Value} {entries : List Entry}
    (keyed : ∀ entry ∈ entries, ∃ key, entry.kind = .keyed key)
    (values : ∀ entry ∈ entries,
      Yields env s (Evaluate.expression enter 0 none entry.value) (value entry.value))
    (done : List (String × Value)) :
    Yields env s (Evaluate.object enter 0 none done entries)
      (putAll done ((keyedValues entries).map fun (key, e) => (key, value e))) := by
  induction entries generalizing done with
  | nil =>
    rw [Evaluate.object]
    exact .pure _
  | cons entry entries ih =>
    obtain ⟨kind, e, loc, comments⟩ := entry
    obtain ⟨key, rfl⟩ := keyed _ List.mem_cons_self
    rw [Evaluate.object]
    refine (values _ List.mem_cons_self).bind ?_
    exact ih (fun entry hentry => keyed entry (List.mem_cons_of_mem _ hentry))
      (fun entry hentry => values entry (List.mem_cons_of_mem _ hentry)) _

theorem array_yields {value : Expr → Value} {entries : List Entry}
    (elements : ∀ entry ∈ entries, entry.kind = .element)
    (values : ∀ entry ∈ entries,
      Yields env s (Evaluate.expression enter 0 none entry.value) (value entry.value)) :
    Yields env s (Evaluate.array enter 0 none entries)
      (entries.map fun entry => value entry.value) := by
  induction entries with
  | nil =>
    rw [Evaluate.array]
    exact .pure _
  | cons entry entries ih =>
    obtain ⟨kind, e, loc, comments⟩ := entry
    obtain rfl : kind = .element := elements _ List.mem_cons_self
    rw [Evaluate.array]
    refine (values _ List.mem_cons_self).bind ?_
    refine (Yields.pure [value e]).bind ?_
    refine (ih (fun entry hentry => elements entry (List.mem_cons_of_mem _ hentry))
      (fun entry hentry => values entry (List.mem_cons_of_mem _ hentry))).bind ?_
    exact .pure _

/-- **An expression evaluates to the value that it says, and nothing else happens.** -/
theorem SaysValue.expression_yields {e : Expr} (h : SaysValue env e)
    (hprogram : env.index.program? 0 = some program)
    (hfree : ∀ name, IsTypeName env name → (0, name) ∉ s.resolving) :
    Yields env s (Evaluate.expression enter 0 none e) (writtenValue e) := by
  induction h with
  | lit =>
    rw [Evaluate.expression, writtenValue]
    exact .pure _
  | typeName h =>
    rw [Evaluate.expression, writtenValue]
    exact lookup_typeName h hprogram (hfree _ h)
  | array elements _ ih =>
    rw [Evaluate.expression, writtenValue, writtenItems_eq]
    exact (array_yields elements ih).bind (.pure _)
  | object keyed distinct _ ih =>
    rw [Evaluate.expression, writtenValue, ← putAll_writtenFields distinct, writtenFields_eq]
    exact (object_yields keyed ih []).bind (.pure _)

theorem SaysValue.resolve_yields {e : Expr} (h : SaysValue env e)
    (hprogram : env.index.program? 0 = some program) (hidle : s.resolving = []) :
    Yields env s (resolve e) (writtenValue e) :=
  Yields.index.bind (h.expression_yields hprogram fun _ _ => by
    rw [hidle]
    exact List.not_mem_nil)

end Evaluation

/-! ### Shapes -/

/-- Expressions as options. -/
def nodeSlots (options : List (String × Expr)) : List (String × Slot) :=
  options.map fun (key, e) => (key, .node e)

/-- The shape of a definition as it is written, and the shape of its value: the type is the same,
and options and nested fields are the same expressions. The definition holds no comments that
would describe it. -/
structure Shape.Matches (env : Environment) (written value : Shape) : Prop where
  arrays : written.arrays = value.arrays
  typeName : written.typeName = value.typeName
  options : ∃ options : List (String × Expr), (∀ option ∈ options, SaysValue env option.2) ∧
    written.options = nodeSlots options ∧
    value.options = valueSlots (options.map fun (key, e) => (key, writtenValue e))
  children : (written.children = .none ∨ ∃ line, written.children = .entries [] line) ∧
      value.children = .none ∨
    ∃ entries line, ReadableFields env entries ∧ written.children = .entries entries line ∧
      value.children = .values (writtenFields entries)
  uncommented : ∀ loc entries, written.object = some (loc, entries) →
    ∀ entry ∈ entries, entry.comments = .none
  not_object : value.object = none

namespace Shape.Matches

variable {env : Environment} {written value : Shape}

theorem scalar (arrays : Nat) (typeName : String) :
    Shape.Matches env (.scalar arrays typeName) (.scalar arrays typeName) :=
  ⟨rfl, rfl, ⟨[], nofun, rfl, rfl⟩, .inl ⟨.inl rfl, rfl⟩, nofun, rfl⟩

theorem withOptions (h : Shape.Matches env written value) {options : List (String × Expr)}
    (hvalues : ∀ option ∈ options, SaysValue env option.2) :
    Shape.Matches env (written.withOptions (nodeSlots options))
      (value.withOptions (valueSlots (options.map fun (key, e) => (key, writtenValue e)))) :=
  { h with options := ⟨options, hvalues, rfl, rfl⟩ }

theorem inline (arrays : Nat) {entries : List Entry} (line : Option Nat)
    (h : ReadableFields env entries) :
    Shape.Matches env (.inline arrays (.entries entries line))
      (.inline arrays (.values (writtenFields entries))) :=
  ⟨rfl, rfl, ⟨[], nofun, rfl, rfl⟩, .inr ⟨entries, line, h, rfl, rfl⟩, nofun, rfl⟩

/-- An object without nested fields is one whose nested fields are none. -/
theorem empty (arrays : Nat) (line : Option Nat) :
    Shape.Matches env (.inline arrays (.entries [] line)) (.scalar arrays objectType) :=
  ⟨rfl, rfl, ⟨[], nofun, rfl, rfl⟩, .inl ⟨.inr ⟨line, rfl⟩, rfl⟩, nofun, rfl⟩

theorem ofObject (h : Shape.Matches env written value) (loc : Loc) {entries : List Entry}
    (uncommented : ∀ entry ∈ entries, entry.comments = .none) :
    Shape.Matches env { written with object := some (loc, entries) } value :=
  { h with
    uncommented := fun _ _ hobject => (Prod.mk.inj (Option.some.inj hobject)).2 ▸ uncommented }

end Shape.Matches

theorem markerShape?_eq (config : Config) (key : String) (arrays : Nat)
    (fields : List (String × Value)) :
    markerShape? config key arrays fields =
      (lookupKey? config.typeMarker fields).map (valueShape config key arrays) := by
  induction fields with
  | nil => rfl
  | cons field fields ih =>
    rw [markerShape?, lookupKey?, ih]
    split <;> rfl

theorem valueShape_marked {config : Config} {key : String} {arrays : Nat}
    {fields : List (String × Value)} {marker : Value}
    (h : lookupKey? config.typeMarker fields = some marker) :
    valueShape config key arrays (.map fields) =
      valueShape config key arrays marker >>= fun shape =>
        pure (shape.withOptions (valueSlots (eraseKey config.typeMarker fields))) := by
  rw [valueShape, markerShape?_eq, h]
  rfl

theorem valueShape_unmarked {config : Config} {key : String} {arrays : Nat}
    {fields : List (String × Value)} (h : lookupKey? config.typeMarker fields = none) :
    valueShape config key arrays (.map fields) =
      if fields.all fun option => config.isOption option.1 then
        pure ((Shape.scalar arrays objectType).withOptions (valueSlots fields))
      else pure (.inline arrays (.values fields)) := by
  rw [valueShape, markerShape?_eq, h, eraseKey_of_lookupKey? h]
  rfl

theorem throughArrays_of_not_array {limit : Nat} {node : Expr}
    (h : ∀ loc entries, node ≠ .array loc entries) : throughArrays limit node = (0, some node) := by
  cases limit with
  | zero => rfl
  | succ limit =>
    rw [throughArrays]
    exact h

theorem eraseKey_nodeSlots (key : String) (options : List (String × Expr)) :
    eraseKey key (nodeSlots options) = nodeSlots (eraseKey key options) :=
  eraseKey_map Slot.node key options

theorem putAll_nodeSlots {entries : List Entry} (distinct : (entries.filterMap Entry.key?).Nodup) :
    putAll [] (nodeSlots (keyedValues entries)) = nodeSlots (keyedValues entries) := by
  refine putAll_of_distinct ?_
  rw [nodeSlots, List.map_map]
  exact (keys_keyedValues entries).symm ▸ distinct

theorem slots_yields {env : Environment} {s : Session} {key : String} {entries : List Entry}
    (keyed : ∀ entry ∈ entries, ∃ key, entry.kind = .keyed key) (done : List (String × Slot)) :
    Yields env s (slots key done entries) (putAll done (nodeSlots (keyedValues entries))) := by
  induction entries generalizing done with
  | nil => exact .pure _
  | cons entry entries ih =>
    obtain ⟨kind, e, loc, comments⟩ := entry
    obtain ⟨name, rfl⟩ := keyed _ List.mem_cons_self
    exact ih (fun entry hentry => keyed entry (List.mem_cons_of_mem _ hentry)) _

section Shapes

variable {env : Environment} {s : Session} {program : Program}
  (hprogram : env.index.program? 0 = some program) (hidle : s.resolving = [])

include hprogram hidle

omit hprogram hidle in
/-- The fields of a document under a type marker have the shape of their value. -/
theorem ReadAsFields.shape {inner : List Entry} (h : ReadAsFields env.config inner)
    (hfields : ReadableFields env inner) (key : String) (arrays : Nat) :
    ∃ value, Yields env s (valueShape env.config key arrays (.map (writtenFields inner))) value ∧
      Shape.Matches env (.inline arrays (.entries inner none)) value := by
  rcases h with rfl | ⟨hmarker, name, hname, hoption⟩
  · refine ⟨_, ?_, .empty arrays none⟩
    rw [writtenFields, valueShape_unmarked rfl]
    exact .pure _
  · rw [← keys_writtenFields] at hmarker hname
    obtain ⟨field, hfield, rfl⟩ := List.mem_map.mp hname
    have hall : ¬((writtenFields inner).all fun field => env.config.isOption field.1) = true :=
      fun hall => absurd (List.all_eq_true.mp hall field hfield) (by rw [hoption]; nofun)
    refine ⟨_, ?_, .inline arrays none hfields⟩
    rw [valueShape_unmarked (lookupKey?_eq_none_iff.mpr hmarker), if_neg hall]
    exact .pure _

/-- What a type marker says, given what stands inside its arrays, and the shape of its value. -/
inductive MarkerMatches (env : Environment) (s : Session) (key : String) (arrays : Nat) :
    Nat × Option Expr → Shape → Prop
  | empty (n : Nat) : MarkerMatches env s key arrays (n, none) (.scalar (arrays + n) mixedType)
  | fields (n : Nat) {loc : Loc} {inner : List Entry} {value : Shape}
    (h : Shape.Matches env (.inline (arrays + n) (.entries inner none)) value) :
    MarkerMatches env s key arrays (n, some (.object loc inner)) value
  | label (n : Nat) {node : Expr} {label : String} (hnode : ∀ loc inner, node ≠ .object loc inner)
    (h : Yields env s (markerLabel key node) label) :
    MarkerMatches env s key arrays (n, some node) (.scalar (arrays + n) label)

omit hprogram hidle in
theorem MarkerMatches.inArray {key : String} {arrays : Nat} {found : Nat × Option Expr}
    {value : Shape} (h : MarkerMatches env s key (arrays + 1) found value) :
    MarkerMatches env s key arrays (found.1 + 1, found.2) value := by
  have hadd (n : Nat) : arrays + 1 + n = arrays + (n + 1) := by omega
  cases h with
  | empty n => exact hadd n ▸ .empty (n + 1)
  | fields n h => exact .fields (n + 1) (hadd n ▸ h)
  | label n hnode h => exact hadd n ▸ .label (n + 1) hnode h

/-- A readable marker says what its value does. -/
theorem ReadableMarker.matches {room : Nat} {e : Expr} (h : ReadableMarker env room e)
    {within : Nat} (hreadable : Readable env within e) (key : String) {limit arrays : Nat}
    (hlimit : room ≤ limit) (harrays : arrays + room ≤ arrayLimit) :
    ∃ value, Yields env s (valueShape env.config key arrays (writtenValue e)) value ∧
      MarkerMatches env s key arrays (throughArrays limit e) value := by
  fun_induction ReadableMarker env room e generalizing limit arrays within with
  | case1 room loc name =>
    have hthrough : throughArrays limit (.ident loc name) = (0, some (.ident loc name)) :=
      throughArrays_of_not_array nofun
    refine ⟨_, .pure _, ?_⟩
    rw [hthrough]
    exact .label 0 nofun ((hreadable.saysValue.resolve_yields hprogram hidle).bind (.pure _))
  | case2 room loc text =>
    have hthrough : throughArrays limit (.lit loc (.string text)) =
        (0, some (.lit loc (.string text))) := throughArrays_of_not_array nofun
    refine ⟨_, .pure _, ?_⟩
    rw [hthrough]
    exact .label 0 nofun (.pure _)
  | case3 room loc inner =>
    obtain ⟨value, hvalue, hmatches⟩ := ReadAsFields.shape h (hreadable.fields h) key arrays
    have hthrough : throughArrays limit (.object loc inner) = (0, some (.object loc inner)) :=
      throughArrays_of_not_array nofun
    refine ⟨value, hvalue, ?_⟩
    rw [hthrough]
    exact .fields 0 hmatches
  | case4 room loc =>
    obtain ⟨limit, rfl⟩ : ∃ l, limit = l + 1 := ⟨limit - 1, by omega⟩
    have hlt : arrays < arrayLimit := by omega
    refine ⟨_, ?_, .empty 1⟩
    rw [writtenValue, writtenItems, valueShape, if_pos hlt]
    exact .pure _
  | case5 room loc kind e loc' comments rest ih =>
    obtain ⟨limit, rfl⟩ : ∃ l, limit = l + 1 := ⟨limit - 1, by omega⟩
    have hlt : arrays < arrayLimit := by omega
    cases hreadable with
    | array _ values =>
    have hfirst : Readable env (within + 1) e := values _ List.mem_cons_self
    obtain ⟨value, hvalue, hmatches⟩ :=
      @ih h (within + 1) hfirst limit (arrays + 1) (by omega) (by omega)
    refine ⟨value, ?_, hmatches.inArray⟩
    rw [writtenValue, writtenItems, valueShape, if_pos hlt]
    exact hvalue
  | case6 => exact h.elim

omit hidle in
theorem plainMarkerShape_yields {key : String} {arrays : Nat} {marker : Expr} {label : String}
    (hnot : ∀ loc constructs callee args, marker ≠ .call loc constructs callee args)
    (h : Yields env s (markerLabel key marker) label) :
    Yields env s (plainMarkerShape key arrays marker) (.scalar arrays label) := by
  have hfields : schemaFields program env.config marker key = .ok none := by
    rw [schemaFields]
    exact hnot
  have hentry : Yields env s entryProgram program := by
    refine Yields.index.bind ?_
    simp only [hprogram]
    exact .pure _
  have hinline : Yields env s (inlineFields marker key) none := by
    refine hentry.bind (Yields.config.bind ?_)
    simp only [hfields]
    exact .pure _
  exact hinline.bind (h.bind (.pure _))

/-- The shape that a readable marker gives, and the shape of its value. -/
theorem ReadableMarker.shape {arrays : Nat} {marker : Expr}
    (h : ReadableMarker env (arrayLimit - arrays) marker) (hreadable : Readable env 0 marker)
    (harrays : arrays ≤ arrayLimit) (key : String) (own : Children) {all : List (String × Slot)}
    (hmarker : lookupKey? env.config.typeMarker all = some (.node marker))
    (hbeside : (∃ loc inner, marker = .object loc inner) →
      ((eraseKey env.config.typeMarker all).all fun option =>
        env.config.isOption option.1) = true) :
    ∃ written value : Shape,
      Yields env s (valueShape env.config key arrays (writtenValue marker)) value ∧
      Yields env s (slotShape key arrays own all)
        (written.withOptions (eraseKey env.config.typeMarker all)) ∧
      written.Matches env value := by
  obtain ⟨value, hvalue, hmatches⟩ := h.matches hprogram hidle hreadable key
    (Nat.sub_le arrayLimit arrays) (Nat.add_sub_cancel' harrays).le
  cases marker with
  | array loc inner =>
    have hslot {written : Shape}
        (hwritten : Yields env s (arrayMarkerShape key arrays (.array loc inner)) written) :
        Yields env s (slotShape key arrays own all)
          (written.withOptions (eraseKey env.config.typeMarker all)) := by
      refine Yields.config.bind ?_
      simp only [hmarker]
      exact hwritten.bind (.pure _)
    generalize hfound : throughArrays arrayLimit (.array loc inner) = found at hmatches
    cases hmatches with
    | empty n =>
      refine ⟨_, _, hvalue, hslot ?_, .scalar _ _⟩
      rw [arrayMarkerShape, hfound]
      exact .pure _
    | fields n hmatches =>
      refine ⟨_, _, hvalue, hslot ?_, hmatches⟩
      rw [arrayMarkerShape, hfound]
      exact .pure _
    | label n hnode hlabel =>
      refine ⟨_, _, hvalue, hslot ?_, .scalar _ _⟩
      simp only [arrayMarkerShape, hfound]
      exact hlabel.bind (.pure _)
  | object loc inner =>
    have hthrough : throughArrays arrayLimit (.object loc inner) = (0, some (.object loc inner)) :=
      rfl
    rw [hthrough] at hmatches
    cases hmatches with
    | label _ hnode => exact absurd rfl (hnode loc inner)
    | fields n hmatches =>
      refine ⟨_, _, hvalue, Yields.config.bind ?_, hmatches⟩
      simp only [hmarker]
      rw [if_pos (hbeside ⟨loc, inner, rfl⟩)]
      exact .pure _
  | ident loc name | lit loc literal =>
    -- Neither is an array, so what stands inside the arrays is the marker itself.
    change MarkerMatches env s key arrays (0, some _) value at hmatches
    cases hmatches with
    | label n hnode hlabel =>
      refine ⟨_, _, hvalue, Yields.config.bind ?_, .scalar _ _⟩
      simp only [hmarker]
      exact (plainMarkerShape_yields hprogram (by nofun) hlabel).bind (.pure _)
  | _ => simp [ReadableMarker] at h

/-- The shape that the options of an object literal give it, and the shape of the mapping. -/
theorem slotShape_matches {arrays : Nat} {loc : Loc} {entries : List Entry} (key : String)
    (h : Readable env arrays (.object loc entries)) (harrays : arrays ≤ arrayLimit)
    (line : Option Nat) :
    ∃ written value, Yields env s
        (slotShape key arrays (.entries entries line) (nodeSlots (keyedValues entries))) written ∧
      Yields env s (valueShape env.config key arrays (writtenValue (.object loc entries))) value ∧
      written.Matches env value := by
  have hvalues : ∀ option ∈ eraseKey env.config.typeMarker (keyedValues entries),
      SaysValue env option.2 := fun option hoption =>
    h.saysValue.options option (List.mem_of_mem_filter hoption)
  have hslots : lookupKey? env.config.typeMarker (nodeSlots (keyedValues entries)) =
      (lookupKey? env.config.typeMarker (keyedValues entries)).map Slot.node := lookupKey?_map _ _ _
  have hfields := lookupKey?_writtenFields env.config.typeMarker entries
  rw [writtenValue]
  cases hmarker : lookupKey? env.config.typeMarker (keyedValues entries) with
  | some marker =>
    rw [hmarker] at hslots hfields
    obtain ⟨hreadable, hmarkerReadable, hbeside⟩ := h.marker hmarker
    obtain ⟨written, value, hvalue, hwritten, hmatches⟩ := hmarkerReadable.shape hprogram hidle
      hreadable harrays key (.entries entries line) hslots
      fun hobject => by
        rw [eraseKey_nodeSlots, nodeSlots, List.all_map]
        exact all_eraseKey_iff.mpr (hbeside hobject)
    rw [eraseKey_nodeSlots] at hwritten
    rw [valueShape_marked hfields, writtenFields_eq, eraseKey_map]
    exact ⟨_, _, hwritten, hvalue.bind (.pure _), hmatches.withOptions hvalues⟩
  | none =>
    rw [hmarker] at hslots hfields
    rw [eraseKey_of_lookupKey? hmarker] at hvalues
    -- Without a marker, both ask whether there is anything but options.
    have hslot : slotShape key arrays (.entries entries line) (nodeSlots (keyedValues entries)) env s =
        (if (keyedValues entries).all fun option => env.config.isOption option.1 then
          pure ((Shape.scalar arrays objectType).withOptions (nodeSlots (keyedValues entries)))
        else pure (Shape.inline arrays (.entries entries line)) : Eval Shape) env s := by
      rw [slotShape, Eval.run_bind_ok Yields.config]
      simp only [hslots, eraseKey_nodeSlots, eraseKey_of_lookupKey? hmarker]
      simp only [nodeSlots, List.all_map]
      rfl
    rw [valueShape_unmarked hfields, writtenFields_eq]
    simp only [Yields, hslot, List.all_map, Function.comp_def]
    split
    next => exact ⟨_, _, rfl, rfl, (Shape.Matches.scalar _ _).withOptions hvalues⟩
    next hall => exact ⟨_, _, rfl, rfl, by
      rw [← writtenFields_eq]
      exact .inline arrays line (h.fields (readAsFields_of_not_all hmarker hall))⟩

/-- **What stands inside the arrays of a readable definition has the shape of its value.** -/
theorem nodeShape_matches {arrays : Nat} {node : Expr} (key : String) (h : Readable env arrays node)
    (harrays : arrays ≤ arrayLimit)
    (hnode : arrays = arrayLimit ∨ ∀ loc entries, node ≠ .array loc entries) :
    ∃ written value, Yields env s (nodeShape key arrays node) written ∧
      Yields env s (valueShape env.config key arrays (writtenValue node)) value ∧
      written.Matches env value := by
  have hresolve : Yields env s (resolve node) (writtenValue node) :=
    h.saysValue.resolve_yields hprogram hidle
  have hreadable := h
  cases h with
  | @lit _ loc value =>
    refine ⟨_, _, .pure _, ?_, .scalar arrays (literalText value)⟩
    rw [writtenValue]
    cases value <;> exact .pure _
  | typeName hname =>
    exact ⟨_, _, hresolve.bind (.pure _), .pure _, .scalar arrays _⟩
  | array =>
    obtain rfl : arrays = arrayLimit := hnode.resolve_right fun hnot => hnot _ _ rfl
    refine ⟨_, _, .pure _, ?_, .scalar arrayLimit arrayType⟩
    rw [writtenValue]
    cases writtenItems _ <;> exact .pure _
  | @object _ loc entries keyed distinct uncommented =>
    obtain ⟨written, value, hwritten, hvalue, hmatches⟩ :=
      slotShape_matches hprogram hidle key hreadable harrays (some loc.startLine)
    have hslots : Yields env s (slots key [] entries) (nodeSlots (keyedValues entries)) := by
      rw [← putAll_nodeSlots distinct]
      exact slots_yields keyed []
    exact ⟨_, value, hslots.bind (hwritten.bind (.pure _)), hvalue, hmatches.ofObject loc uncommented⟩

omit hprogram hidle in
/-- Looking through the arrays of a readable definition is what happens to its value. -/
theorem throughArrays_matches {limit arrays : Nat} {e : Expr} (key : String)
    (h : Readable env arrays e) (hlimit : arrays + limit = arrayLimit) :
    ∃ n, (throughArrays limit e = (n, none) ∧
        Yields env s (valueShape env.config key arrays (writtenValue e))
          (.scalar (arrays + n) mixedType)) ∨
      ∃ node, throughArrays limit e = (n, some node) ∧ Readable env (arrays + n) node ∧
        arrays + n ≤ arrayLimit ∧
        (arrays + n = arrayLimit ∨ ∀ loc entries, node ≠ .array loc entries) ∧
        valueShape env.config key arrays (writtenValue e) =
          valueShape env.config key (arrays + n) (writtenValue node) := by
  induction limit generalizing arrays e with
  | zero => exact ⟨0, .inr ⟨e, rfl, h, hlimit.le, .inl hlimit, rfl⟩⟩
  | succ limit ih =>
    by_cases harray : ∃ loc entries, e = .array loc entries
    · obtain ⟨loc, entries, rfl⟩ := harray
      have hlt : arrays < arrayLimit := by omega
      cases h with
      | array _ values =>
      cases entries with
      | nil =>
        refine ⟨1, .inl ⟨rfl, ?_⟩⟩
        rw [writtenValue, writtenItems, valueShape, if_pos hlt]
        exact .pure _
      | cons first rest =>
        obtain ⟨kind, e, loc', comments⟩ := first
        have hfirst : Readable env (arrays + 1) e := values _ List.mem_cons_self
        have hthrough : throughArrays (limit + 1) (.array loc (.mk kind e loc' comments :: rest)) =
            ((throughArrays limit e).1 + 1, (throughArrays limit e).2) := rfl
        rw [hthrough, writtenValue, writtenItems, valueShape, if_pos hlt]
        obtain ⟨n, hn⟩ := ih hfirst (by omega)
        refine ⟨n + 1, ?_⟩
        rw [Nat.add_comm n, ← Nat.add_assoc]
        rcases hn with ⟨hempty, hvalue⟩ | ⟨node, hnode, hreadable⟩
        · exact .inl ⟨by rw [hempty, Nat.add_comm], hvalue⟩
        · exact .inr ⟨node, by rw [hnode, Nat.add_comm], hreadable⟩
    · have hnot : ∀ loc entries, e ≠ .array loc entries := fun loc entries heq =>
        harray ⟨loc, entries, heq⟩
      exact ⟨0, .inr ⟨e, throughArrays_of_not_array hnot, h, by omega, .inr hnot, rfl⟩⟩

/-- **A readable definition has the shape of its value.** -/
theorem shapeOf_matches {e : Expr} (key : String) (h : Readable env 0 e) :
    ∃ written value, Yields env s (shapeOf key e) written ∧
      Yields env s (valueShape env.config key 0 (writtenValue e)) value ∧
      written.Matches env value := by
  obtain ⟨n, ⟨hempty, hvalue⟩ | ⟨node, hthrough, hreadable, hle, hnode, hshape⟩⟩ :=
    throughArrays_matches key h (Nat.zero_add arrayLimit)
  · refine ⟨_, _, ?_, hvalue, .scalar (0 + n) mixedType⟩
    rw [shapeOf, hempty, Nat.zero_add]
    exact .pure _
  · rw [shapeOf, hthrough, hshape]
    rw [Nat.zero_add] at hreadable hle hnode ⊢
    exact nodeShape_matches hprogram hidle key hreadable hle hnode

/-! ### Fields -/

/-- The options of a field are shown alike. -/
theorem optionTexts_yields {options : List (String × Expr)}
    (h : ∀ option ∈ options, SaysValue env option.2) (names : List String) :
    ∃ texts, Yields env s (optionTexts (nodeSlots options) names) texts ∧
      Yields env s (optionTexts
        (valueSlots (options.map fun (key, e) => (key, writtenValue e))) names) texts := by
  induction names with
  | nil => exact ⟨[], .pure _, .pure _⟩
  | cons name names ih =>
    obtain ⟨texts, hwritten, hvalue⟩ := ih
    have hnode : lookupKey? name (nodeSlots options) = (lookupKey? name options).map Slot.node :=
      lookupKey?_map _ _ _
    have hslot : lookupKey? name (valueSlots (options.map fun (key, e) => (key, writtenValue e))) =
        ((lookupKey? name options).map writtenValue).map Slot.value := by
      rw [← lookupKey?_map writtenValue]
      exact lookupKey?_map _ _ _
    rw [optionTexts, optionTexts, hnode, hslot]
    cases hoption : lookupKey? name options with
    | none => exact ⟨texts, hwritten, hvalue⟩
    | some e =>
      have hvalue' : SaysValue env e := h _ (mem_of_lookupKey? hoption)
      exact ⟨_, (hvalue'.resolve_yields hprogram hidle).bind (hwritten.bind (.pure _)),
        (Yields.pure _).bind (hvalue.bind (.pure _))⟩

theorem Shape.Matches.bullet_yields {written value : Shape} (h : written.Matches env value)
    (key : String) (depth : Nat) :
    ∃ b, Yields env s (bullet key written depth) b ∧ Yields env s (bullet key value depth) b := by
  obtain ⟨options, hvalues, hwritten, hvalue⟩ := h.options
  obtain ⟨texts, htexts, htexts'⟩ := optionTexts_yields hprogram hidle hvalues env.config.options
  have htype : typeText written = typeText value := by
    rw [typeText, typeText, h.arrays, h.typeName]
  rw [bullet, bullet, hwritten, hvalue, htype]
  exact ⟨_, Yields.config.bind (htexts.bind (.pure _)), Yields.config.bind (htexts'.bind (.pure _))⟩

omit hprogram hidle in
theorem Shape.Matches.fieldComments_eq {written value : Shape} (h : written.Matches env value)
    (entry : Entry) (line : Option Nat) :
    fieldComments entry written line = fieldComments entry value line := by
  rw [fieldComments, fieldComments, h.not_object]
  cases hobject : written.object with
  | none => rfl
  | some object =>
    obtain ⟨loc, entries⟩ := object
    cases entries with
    | nil => rfl
    | cons first entries =>
      have hfirst : first.comments = .none := h.uncommented loc _ hobject first List.mem_cons_self
      simp only [hfirst]
      rfl

/-- With that much fuel, readable fields render as the fields of a value. -/
def RenderAsValues (env : Environment) (s : Session) (fuel : Nat) : Prop :=
  ∀ entries, ReadableFields env entries → fieldsDepth (writtenFields entries) < fuel → ∀ depth,
    ∃ texts, (∀ splicing line,
        Yields env s (renderEntries fuel splicing depth line entries) texts) ∧
      ∀ fuel', fieldsDepth (writtenFields entries) < fuel' →
        Yields env s (valueFields fuel' depth (writtenFields entries)) texts

/-- A field as its bullet, with the description below it, and its nested fields. -/
def fieldParts (rec : Renderer) (splicing : List String) (depth : Nat) (line : Option Nat)
    (key : String) (entry : Entry) : Eval (String × List String) := do
  let s ← shapeOf key entry.value
  let description := Description.ofComments (fieldComments entry s line) depth
  let b ← bullet key s depth
  let children ← childFields rec splicing (depth + 1) s.children
  return (Description.attach b description, children)

omit hprogram hidle in
theorem field_eq (rec : Renderer) (splicing : List String) (depth : Nat) (line : Option Nat)
    (key : String) (entry : Entry) :
    field rec splicing depth line key entry = do
      let (b, children) ← fieldParts rec splicing depth line key entry
      return "\n".intercalate (b :: children) := by
  simp only [field, fieldParts, bind_assoc, pure_bind]
  rfl

omit hprogram hidle in
theorem Yields.field {rec : Renderer} {splicing : List String} {depth : Nat} {line : Option Nat}
    {key : String} {entry : Entry} {b : String} {children : List String}
    (h : Yields env s (fieldParts rec splicing depth line key entry) (b, children)) :
    Yields env s (field rec splicing depth line key entry) ("\n".intercalate (b :: children)) := by
  rw [field_eq]
  exact h.bind (.pure _)

/-- What the nested fields of the shape of a value render as. -/
def RenderChildren (env : Environment) (s : Session) (depth : Nat) (value : Shape)
    (children : List String) : Prop :=
  value.children = .none ∧ children = [] ∨ ∃ fields, value.children = .values fields ∧
    ∀ fuel, fieldsDepth fields < fuel → Yields env s (valueFields fuel depth fields) children

/-- **One field**: if its nested fields render as those of its value, then so does it. -/
theorem field_yields {fuel : Nat} (hfuel : RenderAsValues env s fuel) {e : Expr}
    (h : Readable env 0 e) (hdepth : valueDepth (writtenValue e) ≤ fuel) (key : String) (depth : Nat) :
    ∃ value b children, Yields env s (valueShape env.config key 0 (writtenValue e)) value ∧
      OfValue (valueDepth (writtenValue e)) value ∧ value.object = none ∧
      Yields env s (bullet key value depth) b ∧ RenderChildren env s (depth + 1) value children ∧
      ∀ splicing line entry, entry.value = e →
        Yields env s (fieldParts (renderEntries fuel) splicing depth line key entry)
          (Description.attach b (Description.ofComments (fieldComments entry value line) depth),
            children) := by
  obtain ⟨written, value, hwritten, hvalue, hmatches⟩ := shapeOf_matches hprogram hidle key h
  obtain ⟨b, hb, hb'⟩ := hmatches.bullet_yields hprogram hidle key depth
  have hgives : Gives env (fun _ => True) (valueShape env.config key 0 (writtenValue e))
      (OfValue (valueDepth (writtenValue e))) := valueShape_gives _ _ _ _
  have hbelow := (hgives s).1 value (by rw [hvalue])
  rcases hmatches.children with ⟨hnone, hnone'⟩ | ⟨entries, line', hreadable, hown, hown'⟩
  · refine ⟨value, b, [], hvalue, hbelow, hmatches.not_object, hb', .inl ⟨hnone', rfl⟩,
      fun splicing line entry hentry => ?_⟩
    rw [fieldParts, hentry, ← hmatches.fieldComments_eq]
    refine hwritten.bind (hb.bind ?_)
    have hchildren : Yields env s
        (childFields (renderEntries fuel) splicing (depth + 1) written.children) [] := by
      rcases hnone with hnone | ⟨line', hnone⟩
      · rw [hnone]
        exact .pure []
      · have hpositive := one_le_valueDepth (writtenValue e)
        obtain ⟨fuel, rfl⟩ : ∃ k, fuel = k + 1 := ⟨fuel - 1, by omega⟩
        rw [hnone]
        exact .pure []
    exact hchildren.bind (.pure _)
  · have hlt := hbelow.2 _ hown'
    obtain ⟨texts, htexts, htexts'⟩ := hfuel entries hreadable (by omega) (depth + 1)
    refine ⟨value, b, texts, hvalue, hbelow, hmatches.not_object, hb', .inr ⟨_, hown', htexts'⟩,
      fun splicing line entry hentry => ?_⟩
    rw [fieldParts, hentry, ← hmatches.fieldComments_eq]
    refine hwritten.bind (hb.bind ?_)
    rw [hown]
    exact (htexts splicing line').bind (.pure _)

omit hprogram hidle in
theorem fieldComments_of_none {entry : Entry} {value : Shape} (hentry : entry.comments = .none)
    (hvalue : value.object = none) (line : Option Nat) : fieldComments entry value line = [] := by
  rw [fieldComments, hentry, hvalue]
  rfl

omit hprogram hidle in
theorem ofComments_nil (depth : Nat) : Description.ofComments [] depth = "" := rfl

/-- **Readable fields render as the fields of their values**, by induction on how deeply they nest. -/
theorem renderAsValues (fuel : Nat) : RenderAsValues env s fuel := by
  induction fuel with
  | zero => exact fun _ _ hdepth => absurd hdepth (Nat.not_lt_zero _)
  | succ fuel ih =>
    intro entries hentries hdepth depth
    induction entries with
    | nil =>
      refine ⟨[], fun _ _ => .pure _, fun fuel' _ => ?_⟩
      rw [writtenFields, valueFields]
      exact .pure _
    | cons entry entries ihEntries =>
      obtain ⟨kind, e, loc, comments⟩ := entry
      obtain ⟨⟨key, rfl⟩, hcomments, hreadable⟩ := hentries _ List.mem_cons_self
      rw [writtenFields, fieldsDepth] at hdepth
      obtain ⟨texts, htexts, htexts'⟩ := ihEntries
        (fun entry hentry => hentries entry (List.mem_cons_of_mem _ hentry)) (by omega)
      obtain ⟨value, b, children, hvalue, hbelow, hobject, hb, hchildren, hfield⟩ :=
        field_yields hprogram hidle ih hreadable (by change valueDepth (writtenValue e) ≤ fuel; omega)
          key depth
      refine ⟨fieldText b "" children :: texts, fun splicing line => ?_, fun fuel' hfuel' => ?_⟩
      · have hfirst := hfield splicing line _ rfl
        rw [fieldComments_of_none hcomments hobject, ofComments_nil] at hfirst
        exact hfirst.field.bind ((htexts splicing line).bind (.pure _))
      · rw [writtenFields, fieldsDepth] at hfuel'
        obtain ⟨fuel', rfl⟩ : ∃ k, fuel' = k + 1 := ⟨fuel' - 1, by omega⟩
        rw [writtenFields, valueFields]
        refine Yields.config.bind (hvalue.bind (hb.bind ?_))
        rcases hchildren with ⟨hnone, rfl⟩ | ⟨fields, hfields, hyields⟩
        · simp only [hnone]
          exact (Yields.pure []).bind ((htexts' _ (by omega)).bind (.pure _))
        · simp only [hfields]
          have hlt : fieldsDepth fields < valueDepth (writtenValue e) := hbelow.2 fields hfields
          exact (hyields fuel' (by omega)).bind ((htexts' _ (by omega)).bind (.pure _))

end Shapes

/-! ### Names -/

theorem eq_of_count_flatMap {α β : Type} [DecidableEq β] {f : α → List β} {b : β} {as : List α}
    (h : (as.flatMap f).count b ≤ 1) {a a' : α} (ha : a ∈ as) (ha' : a' ∈ as) (hb : b ∈ f a)
    (hb' : b ∈ f a') : a = a' := by
  induction as with
  | nil => exact absurd ha List.not_mem_nil
  | cons first as ih =>
    rw [List.flatMap_cons, List.count_append] at h
    have hfirst : b ∈ f first → ∀ a ∈ as, b ∉ f a := by
      intro hfirst a ha hb
      have h₁ := List.count_pos_iff.mpr hfirst
      have h₂ := List.count_pos_iff.mpr (List.mem_flatMap.mpr ⟨a, ha, hb⟩)
      omega
    rcases List.mem_cons.mp ha with rfl | hrest <;> rcases List.mem_cons.mp ha' with rfl | hrest'
    · rfl
    · exact absurd hb' (hfirst hb a' hrest')
    · exact absurd hb (hfirst hb' a hrest)
    · exact ih (by omega) hrest hrest'

/-- A name that a program introduces once, by a declaration with a definition. -/
structure DeclaredOnce (program : Program) (name : String) (definition : Expr) : Prop where
  once : program.names.count name = 1
  declared : ∃ statement ∈ program.body, ∃ exported ds, statement.kind = .declare exported ds ∧
    Declarator.mk (.ident name) (some definition) ∈ ds

/-- No other statement introduces the name, and no other declarator of the same one. -/
theorem DeclaredOnce.eq_of_binds {program : Program} {name : String} {definition : Expr}
    (h : DeclaredOnce program name definition) {statement : Statement}
    (hstatement : statement ∈ program.body) {exported : Bool} {ds : List Declarator}
    (hkind : statement.kind = .declare exported ds) {d : Declarator} (hd : d ∈ ds)
    (hbinds : d.binding.binds name = true) : d = .mk (.ident name) (some definition) := by
  obtain ⟨statement', hstatement', exported', ds', hkind', hd'⟩ := h.declared
  have hnames {statement : Statement} {exported : Bool} {ds : List Declarator} {d : Declarator}
      (hkind : statement.kind = .declare exported ds) (hd : d ∈ ds)
      (hbinds : d.binding.binds name = true) : name ∈ statement.names := by
    rw [Statement.names_of_declare hkind]
    exact List.mem_flatMap.mpr ⟨d, hd, Binding.mem_names_of_binds hbinds⟩
  have hbinds' : (Declarator.mk (.ident name) (some definition)).binding.binds name = true :=
    beq_self_eq_true name
  obtain rfl : statement = statement' := eq_of_count_flatMap h.once.le hstatement hstatement'
    (hnames hkind hd hbinds) (hnames hkind' hd' hbinds')
  obtain ⟨-, rfl⟩ := StatementKind.declare.inj (hkind.symm.trans hkind')
  have hdeclarators : (ds.flatMap fun d => d.binding.names).count name ≤ 1 := by
    rw [← Statement.names_of_declare hkind]
    exact ((List.sublist_flatten_of_mem (List.mem_map_of_mem hstatement)).count_le name).trans
      h.once.le
  exact eq_of_count_flatMap hdeclarators hd hd' (Binding.mem_names_of_binds hbinds)
    (Binding.mem_names_of_binds hbinds')

theorem DeclaredOnce.origin?_eq {program : Program} {name : String} {definition : Expr}
    (h : DeclaredOnce program name definition) :
    origin? program name = some (.declarator (.mk (.ident name) (some definition))) := by
  obtain ⟨statement, hstatement, exported, ds, hkind, hd⟩ := h.declared
  have horigin : originIn? name statement = (ds.find? (·.binding.binds name)).map .declarator := by
    rw [originIn?, hkind]
  have hhere : (originIn? name statement).isSome := by
    rw [horigin, Option.isSome_map, List.find?_isSome]
    exact ⟨_, hd, beq_self_eq_true name⟩
  have hsome : (origin? program name).isSome :=
    List.findSome?_isSome_iff.mpr ⟨statement, hstatement, hhere⟩
  obtain ⟨origin, hfound⟩ := Option.isSome_iff_exists.mp hsome
  obtain ⟨statement', hstatement', hfound'⟩ := List.exists_of_findSome?_eq_some hfound
  obtain rfl : statement' = statement := eq_of_count_flatMap h.once.le hstatement' hstatement
    (Statement.mem_names_of_origin (by rw [hfound']; rfl)) (Statement.mem_names_of_origin hhere)
  rw [horigin] at hfound'
  obtain ⟨d, hfind, rfl⟩ := Option.map_eq_some_iff.mp hfound'
  have hbinds : d.binding.binds name = true := by simpa using List.find?_some hfind
  obtain rfl := h.eq_of_binds hstatement hkind (List.mem_of_find?_eq_some hfind) hbinds
  exact hfound

/-- **A name is what its first binder says**, while it is being resolved. -/
theorem run_lookup_of_origin {env : Environment} {program : Program} {m : ModuleId} {name : String}
    {s : Session} {enter : Evaluator Session} {origin : Evaluate.Origin}
    (hprogram : env.index.program? m = some program)
    (horigin : origin? program name = some origin) (hconstant : constant? name = none)
    (hfree : (m, name) ∉ s.resolving) :
    Evaluate.lookup enter m name none env s =
      Eval.whileResolving (m, name) (Evaluate.ofOrigin enter m name origin) env s := by
  have hindex : Eval.index env s = (.ok env.index, s) := rfl
  have hasks : Eval.asks (fun s => s.resolving.contains (m, name)) env s = (.ok false, s) := by
    have hnone : s.resolving.contains (m, name) = false := by simpa using hfree
    exact congrArg (fun found => (Except.ok found, s)) hnone
  rw [Evaluate.lookup, Eval.run_bind_ok (local?_none name)]
  simp only [hconstant]
  rw [Evaluate.topLevel, Eval.run_bind_ok hasks, if_neg Bool.false_ne_true, Eval.run_bind_ok hindex]
  simp only [hprogram]
  rw [Evaluate.introduced?, horigin]
  simp only [Eval.whileResolving]
  rcases hrun : Evaluate.ofOrigin enter m name origin env
    (Store.update (fun s => { s with resolving := (m, name) :: s.resolving }) s)
    with ⟨e | value, s'⟩
  · rw [Eval.run_bracket_eq hrun,
      Eval.run_bind_error (Eval.run_bracket_eq (Eval.run_bind_error hrun))]
  · rw [Eval.run_bracket_eq hrun, Eval.run_bind_ok (Eval.run_bracket_eq (Eval.run_bind_ok hrun))]
    rfl

section Named

variable {env : Environment} {s : Session} {program : Program} {name : String} {definition : Expr}
  (h : DeclaredOnce program name definition) (hprogram : env.index.program? 0 = some program)
  (hidle : s.resolving = []) (hconstant : constant? name = none)

include h hprogram hidle hconstant

/-- **A name evaluates to what its definition does**, while the name is being resolved. -/
theorem DeclaredOnce.run_resolve (loc : Loc) :
    resolve (.ident loc name) env s =
      Eval.whileResolving (0, name) (evaluate env.index.contexts (.expr 0 definition none)) env s := by
  have hfree : (0, name) ∉ s.resolving := by simp [hidle]
  have hdeclared : (Evaluate.ofOrigin (evaluate env.index.contexts) 0 name
      (.declarator (.mk (.ident name) (some definition))) : Eval Value) =
        evaluate env.index.contexts (.expr 0 definition none) := bind_pure _
  rw [← hdeclared]
  exact run_lookup_of_origin hprogram h.origin?_eq hconstant hfree

/-- A name evaluates to a value that its definition has while no name of a global type is being
resolved. -/
theorem DeclaredOnce.resolve_yields_of {v : Value}
    (hvalue : ∀ s', (∀ typeName, IsTypeName env typeName → (0, typeName) ∉ s'.resolving) →
      Yields env s' (Evaluate.expression (evaluate (env.index.contexts - 1)) 0 none definition) v)
    (loc : Loc) : Yields env s (resolve (.ident loc name)) v := by
  have hcontexts : env.index.contexts = env.index.contexts - 1 + 1 := rfl
  have hdefinition : Yields env { s with resolving := (0, name) :: s.resolving }
      (evaluate env.index.contexts (.expr 0 definition none)) v := by
    rw [hcontexts, evaluate, Evaluate.step]
    refine hvalue _ fun typeName htype hmem => ?_
    rw [hidle, List.mem_singleton, Prod.mk.injEq] at hmem
    obtain ⟨-, rfl⟩ := hmem
    exact htype.not_introduced program hprogram (List.count_pos_iff.mp (by rw [h.once]; omega))
  exact (h.run_resolve hprogram hidle hconstant loc).trans hdefinition.whileResolving

variable (hvalue : SaysValue env definition)

include hvalue

/-- A name evaluates to the value that its definition says. -/
theorem DeclaredOnce.resolve_yields (loc : Loc) :
    Yields env s (resolve (.ident loc name)) (writtenValue definition) :=
  h.resolve_yields_of hprogram hidle hconstant
    (fun _ hfree => hvalue.expression_yields hprogram hfree) loc

/-- A field that is given by a name is the field of the value that the definition says. -/
theorem DeclaredOnce.fieldParts_yields
    (hliteral : (∃ loc entries, definition = .array loc entries) ∨
      ∃ loc entries, definition = .object loc entries)
    {key : String} {depth : Nat} {value : Shape} {b : String} {children : List String}
    (hshape : Yields env s (valueShape env.config key 0 (writtenValue definition)) value)
    (hb : Yields env s (bullet key value depth) b)
    (hchildren : RenderChildren env s (depth + 1) value children) (rec : Renderer)
    (splicing : List String) (line : Option Nat) (kind : EntryKind) (nameLoc loc : Loc)
    (comments : Comments) :
    Yields env s
      (fieldParts rec splicing depth line key (.mk kind (.ident nameLoc name) loc comments))
      (Description.attach b (Description.ofComments
        (fieldComments (.mk kind (.ident nameLoc name) loc comments) value line) depth),
        children) := by
  have hresolve := h.resolve_yields hprogram hidle hconstant hvalue nameLoc
  have hnamed : Yields env s (shapeOf key (.ident nameLoc name)) value := by
    have hthrough : throughArrays arrayLimit (.ident nameLoc name) = (0, some (.ident nameLoc name)) :=
      rfl
    rw [shapeOf, hthrough]
    refine hresolve.bind ?_
    rcases hliteral with ⟨loc, entries, rfl⟩ | ⟨loc, entries, rfl⟩ <;>
      · rw [writtenValue] at hshape ⊢
        exact Yields.config.bind hshape
  refine hnamed.bind (hb.bind ?_)
  rcases hchildren with ⟨hnone, rfl⟩ | ⟨fields, hfields, hyields⟩
  · rw [hnone]
    exact (Yields.pure []).bind (.pure _)
  · rw [hfields]
    exact (hyields _ (Nat.lt_succ_self _)).bind (.pure _)

end Named

/-- **A name renders as its definition.** A field may be given by a plain definition that is written
in place, or by a name that is bound to it: the text is the same. Neither leaves a trace in the session. -/
theorem name_renders_as_definition (env : Environment) (s : Session) {program : Program}
    (hprogram : env.index.program? 0 = some program) (hidle : s.resolving = [])
    {name : String} {definition : Expr} (hconstant : constant? name = none)
    (hdeclared : DeclaredOnce program name definition) (hplain : Plain env 0 definition)
    (hliteral : (∃ loc entries, definition = .array loc entries) ∨
      ∃ loc entries, definition = .object loc entries)
    (key : String) (depth : Nat) (splicing : List String) (line : Option Nat)
    (comments : Comments) (loc loc' nameLoc : Loc) {fuel : Nat}
    (hfuel : valueDepth (writtenValue definition) ≤ fuel) :
    ∃ text,
      field (renderEntries fuel) splicing depth line key
        (.mk (.keyed key) definition loc comments) env s = (.ok text, s) ∧
      field (renderEntries fuel) splicing depth line key
        (.mk (.keyed key) (.ident nameLoc name) loc' comments) env s = (.ok text, s) := by
  obtain ⟨value, b, children, hvalue, -, -, hb, hchildren, hfield⟩ :=
    field_yields hprogram hidle (renderAsValues hprogram hidle fuel) hplain.readable hfuel key depth
  exact ⟨_, (hfield splicing line _ rfl).field,
    (hdeclared.fieldParts_yields hprogram hidle hconstant hplain.readable.saysValue hliteral hvalue
      hb hchildren (renderEntries fuel) splicing line (.keyed key) nameLoc loc' comments).field⟩

/-! ### An example -/

/-- An array of objects with two fields: one with a type marker and an option, and one that is an
empty array in an array. -/
def nestedDefinition : Expr :=
  let loc : Loc := ⟨0, 0, 1, 1⟩
  .array loc [.mk .element (.object loc [
    .mk (.keyed "name") (.object loc [
      .mk (.keyed "type") (.array loc [.mk .element (.ident loc "String") loc .none]) loc .none,
      .mk (.keyed "required") (.lit loc (.bool true)) loc .none]) loc .none,
    .mk (.keyed "grid") (.array loc [.mk .element (.array loc []) loc .none]) loc .none]) loc .none]

/-- An entry file that binds the name `D` to it. -/
def definitionFile : Program :=
  let loc : Loc := ⟨0, 0, 1, 1⟩
  ⟨"", [⟨.declare false [.mk (.ident "D") (some nestedDefinition)], loc, .none⟩]⟩

/-- What the file is rendered over. -/
def definitionEnvironment : Environment :=
  ⟨⟨[⟨"model.js", .script definitionFile⟩], []⟩, .standard⟩

theorem nestedDefinition_plain : Plain definitionEnvironment 0 nestedDefinition := by
  have hname : IsTypeName definitionEnvironment "String" := by
    refine ⟨by decide, by decide, fun program hprogram => ?_⟩
    obtain rfl : definitionFile = program := Option.some.inj hprogram
    decide
  have htypeMarker : definitionEnvironment.config.typeMarker = "type" := rfl
  -- From the outside to the inside, each literal has its entries one by one.
  refine .array (by simp [Entry.kind]) (by simp [Entry.comments]) ?_
  simp only [List.mem_singleton, forall_eq]
  refine .object (by simp [Entry.kind]) (by decide) (by simp [Entry.comments]) ?_
    (by simp [Entry.kind, htypeMarker])
  simp only [List.mem_cons, List.not_mem_nil, or_false, forall_eq_or_imp, forall_eq]
  constructor
  · refine .object (by simp [Entry.kind]) (by decide) (by simp [Entry.comments]) ?_ ?_
    · simp only [List.mem_cons, List.not_mem_nil, or_false, forall_eq_or_imp, forall_eq]
      refine ⟨.array (by simp [Entry.kind]) (by simp [Entry.comments]) ?_, .lit⟩
      simp only [List.mem_singleton, forall_eq]
      exact .typeName hname
    · simpa [Entry.kind, Entry.value, htypeMarker, arrayLimit, PlainMarker] using hname
  · refine .array (by simp [Entry.kind]) (by simp [Entry.comments]) ?_
    simp only [List.mem_singleton, forall_eq]
    exact .array (by simp) (by simp) (by simp)

theorem definitionFile_declares : DeclaredOnce definitionFile "D" nestedDefinition :=
  ⟨by decide, _, List.mem_singleton_self _, false, _, rfl, List.mem_singleton_self _⟩

/-- The field `k: D` and the field `k: [{ name: { type: [String], required: true }, grid: [[]] }]`. -/
theorem nestedDefinition_renders :
    let loc : Loc := ⟨0, 0, 1, 1⟩
    let s := Session.start (.empty true)
    definitionEnvironment.index.program? 0 = some definitionFile ∧
      DeclaredOnce definitionFile "D" nestedDefinition ∧
      Plain definitionEnvironment 0 nestedDefinition ∧
      ∃ text,
        field (renderEntries 5) [] 0 none "k" (.mk (.keyed "k") nestedDefinition loc .none)
          definitionEnvironment s = (.ok text, s) ∧
        field (renderEntries 5) [] 0 none "k" (.mk (.keyed "k") (.ident loc "D") loc .none)
          definitionEnvironment s = (.ok text, s) :=
  ⟨rfl, definitionFile_declares, nestedDefinition_plain,
    name_renders_as_definition definitionEnvironment _ rfl rfl (by decide) definitionFile_declares
      nestedDefinition_plain (.inl ⟨_, _, rfl⟩) "k" 0 [] none .none _ _ _ (by decide)⟩

end SchemaDoc.Document
