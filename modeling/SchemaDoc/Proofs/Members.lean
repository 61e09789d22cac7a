import Mathlib.Data.List.Basic
import SchemaDoc.Document.Schema

/-!
# Members belong to one schema and one section

A statement adds members to a schema in one of three ways: a chain of calls that starts with
`schema.virtual(…)` and calls `get` somewhere adds a virtual, and methods and statics are assigned
into a collection of the schema or registered by a call on it. The functions that recognize these
are given the name of a schema and asked for one kind of member at a time.

Still, what they find in a statement belongs together. All three forms start with the name of the
schema, so that a statement never adds members to two schemas (`Adds.rootName?_eq`). And the last call
of a chain is not a call on a name, while the calls that register members are, so that a statement
never adds members of two kinds (`Adds.kind_eq`). So one pass over the statements finds all members
of all schemas (`additions`), and the block of a schema has those of its name, by kind, and each kind
in the order of the text (`members_eq`).
-/

namespace SchemaDoc.Document

/-! ### Chains of calls -/

/-- **A chain of calls** that starts with the call `schema.virtual(args)`, with the names of the
properties that are called behind it, in order. -/
inductive VirtualChain (schema : String) (args : List Expr) : List String → Expr → Prop
  | start (loc place root : Loc) (constructs : Bool) :
    VirtualChain schema args []
      (.call loc constructs (.member place (.ident root schema) "virtual") args)
  | call (loc place : Loc) (constructs : Bool) (name : String) (args' : List Expr)
    {names : List String} {object : Expr} (h : VirtualChain schema args names object) :
    VirtualChain schema args (names ++ [name])
      (.call loc constructs (.member place object name) args')

theorem VirtualChain.ident?_eq_none {schema : String} {args : List Expr} {names : List String}
    {e : Expr} (h : VirtualChain schema args names e) : e.ident? = none := by
  cases h <;> rfl

/-- Following a chain from its last call to its first one. -/
theorem VirtualChain.virtualName?_eq {schema : String} {args : List Expr} {names : List String}
    {e : Expr} (h : VirtualChain schema args names e) (hasGetter : Bool) :
    virtualName? schema hasGetter e =
      if hasGetter = true ∨ "get" ∈ names then args.head?.bind Expr.string? else none := by
  induction h generalizing hasGetter with
  | start loc place root constructs => simp [virtualName?, Expr.ident?]
  | @call loc place constructs name args' names object h ih =>
    have hgetter : (hasGetter || name == "get") = true ∨ "get" ∈ names ↔
        hasGetter = true ∨ "get" ∈ names ++ [name] := by
      rw [Bool.or_eq_true, beq_iff_eq, List.mem_append, List.mem_singleton, eq_comm (a := name)]
      tauto
    rw [virtualName?, h.ident?_eq_none, if_neg (by simp), ih]
    simp only [hgetter]

theorem ident?_eq_some {e : Expr} {name : String} (h : (e.ident? == some name) = true) :
    ∃ loc, e = .ident loc name := by
  cases e with
  | ident loc name' => exact ⟨loc, by rw [Option.some.inj (eq_of_beq h)]⟩
  | _ => cases eq_of_beq h

/-- What is found is found in a chain. -/
theorem exists_chain_of_virtualName? {schema name : String} {hasGetter : Bool} {e : Expr}
    (h : virtualName? schema hasGetter e = some name) :
    ∃ args names, VirtualChain schema args names e ∧ (hasGetter = true ∨ "get" ∈ names) ∧
      args.head?.bind Expr.string? = some name := by
  fun_induction virtualName? schema hasGetter e with
  | case1 loc constructs place object property args hstart =>
    obtain ⟨hproperty, hobject⟩ := Bool.and_eq_true_iff.mp hstart
    obtain ⟨root, rfl⟩ := ident?_eq_some hobject
    obtain rfl := eq_of_beq hproperty
    exact ⟨args, [], .start loc place root constructs, .inl rfl, h⟩
  | case2 => cases h
  | case3 hasGetter loc constructs place object property args' hstart ih =>
    obtain ⟨args, names, hchain, hgetter, hname⟩ := ih h
    refine ⟨args, names ++ [property], .call loc place constructs property args' hchain, ?_, hname⟩
    rw [Bool.or_eq_true, beq_iff_eq] at hgetter
    rw [List.mem_append, List.mem_singleton, eq_comm (b := property)]
    tauto
  | case4 => cases h

theorem exists_lit_of_string? {e : Expr} {s : String} (h : e.string? = some s) :
    ∃ loc, e = .lit loc (.string s) := by
  unfold Expr.string? at h
  split at h
  next loc s' =>
    cases h
    exact ⟨loc, rfl⟩
  next => cases h

/-- **A virtual is a chain of calls with a getter.** -/
theorem virtualName?_eq_some_iff (schema name : String) (e : Expr) :
    virtualName? schema false e = some name ↔
      ∃ loc rest names, VirtualChain schema (.lit loc (.string name) :: rest) names e ∧
        "get" ∈ names := by
  constructor
  · intro h
    obtain ⟨args, names, hchain, hgetter, hname⟩ := exists_chain_of_virtualName? h
    obtain ⟨first, hfirst, hstring⟩ := Option.bind_eq_some_iff.mp hname
    obtain ⟨rest, rfl⟩ := List.head?_eq_some_iff.mp hfirst
    obtain ⟨loc, rfl⟩ := exists_lit_of_string? hstring
    exact ⟨loc, rest, names, hchain, hgetter.resolve_left nofun⟩
  · rintro ⟨loc, rest, names, hchain, hgetter⟩
    rw [hchain.virtualName?_eq, if_pos (.inr hgetter)]
    rfl

/-! ### The schema and the kind of a statement -/

/-- **The forms of a statement that adds members**: to which schema, and of which kind. -/
inductive Adds : MemberKind → String → Expr → Prop
  | virtual {schema : String} {args : List Expr} {names : List String} {e : Expr}
    (h : VirtualChain schema args names e) (hne : names ≠ []) : Adds .virtual schema e
  | assigned (kind : MemberKind) (schema : String) (loc place place' root : Loc) (name : String)
    (value : Expr) :
    Adds kind schema
      (.assign loc (.member place (.member place' (.ident root schema) kind.collection) name) value)
  | registered (kind : MemberKind) (schema : String) (loc place root : Loc) (constructs : Bool)
    (args : List Expr) :
    Adds kind schema (.call loc constructs (.member place (.ident root schema) kind.tag) args)

theorem adds_of_operationNames {kind : MemberKind} {schema : String} {e : Expr}
    (h : operationNames kind schema e ≠ []) : Adds kind schema e := by
  unfold operationNames at h
  split at h
  next loc place place' owner collection name value =>
    split at h
    next hform =>
      obtain ⟨hcollection, howner⟩ := Bool.and_eq_true_iff.mp hform
      obtain ⟨root, rfl⟩ := ident?_eq_some howner
      obtain rfl := eq_of_beq hcollection
      exact .assigned kind schema loc place place' root name value
    next => exact absurd rfl h
  next loc constructs place owner property args =>
    split at h
    next hform =>
      obtain ⟨hproperty, howner⟩ := Bool.and_eq_true_iff.mp hform
      obtain ⟨root, rfl⟩ := ident?_eq_some howner
      obtain rfl := eq_of_beq hproperty
      exact .registered kind schema loc place root constructs args
    next => exact absurd rfl h
  next => exact absurd rfl h

theorem adds_of_memberNames {kind : MemberKind} {schema : String} {e : Expr}
    (h : memberNames kind schema e ≠ []) : Adds kind schema e := by
  cases kind with
  | virtual =>
    obtain ⟨name, hname⟩ := Option.ne_none_iff_exists'.mp (mt (congrArg Option.toList) h)
    obtain ⟨loc, rest, names, hchain, hgetter⟩ := (virtualName?_eq_some_iff schema name e).mp hname
    exact .virtual hchain (List.ne_nil_of_mem hgetter)
  | method => exact adds_of_operationNames h
  | static => exact adds_of_operationNames h

theorem MemberKind.tag_injective : Function.Injective MemberKind.tag := by
  rintro (_ | _ | _) (_ | _ | _) <;> decide

theorem MemberKind.collection_injective : Function.Injective MemberKind.collection := by
  rintro (_ | _ | _) (_ | _ | _) <;> decide

/-- The name that an expression starts with. -/
def rootName? : Expr → Option String
  | .ident _ name => some name
  | .member _ object _ => rootName? object
  | .call _ _ callee _ => rootName? callee
  | .assign _ target _ => rootName? target
  | _ => none

theorem VirtualChain.rootName?_eq {schema : String} {args : List Expr} {names : List String}
    {e : Expr} (h : VirtualChain schema args names e) : rootName? e = some schema := by
  induction h with
  | start loc place root constructs => rfl
  | call loc place constructs name args' h ih => exact ih

namespace Adds

variable {kind kind' : MemberKind} {schema schema' : String} {e : Expr}

/-- **A statement starts with the name of the schema** that it adds members to. -/
theorem rootName?_eq (h : Adds kind schema e) : rootName? e = some schema := by
  cases h with
  | virtual h => exact h.rootName?_eq
  | assigned => rfl
  | registered => rfl

/-- The last call of a chain is not a call on a name. -/
theorem not_chain {args args' : List Expr} {names : List String} {loc place root : Loc}
    {constructs : Bool} {name property : String} (hne : names ≠ []) :
    ¬VirtualChain schema args names
      (.call loc constructs (.member place (.ident root name) property) args') := by
  intro h
  cases h with
  | start => exact hne rfl
  | call loc place constructs name args' h => cases h

/-- **A statement adds members of one kind only.** -/
theorem kind_eq (h : Adds kind schema e) (h' : Adds kind' schema' e) : kind = kind' := by
  cases h with
  | virtual h hne =>
    cases h' with
    | virtual => rfl
    | assigned => cases h
    | registered => exact absurd h (not_chain hne)
  | assigned =>
    generalize hcollection : kind.collection = collection at h'
    cases h' with
    | virtual h => cases h
    | assigned => exact MemberKind.collection_injective hcollection
  | registered =>
    generalize htag : kind.tag = tag at h'
    cases h' with
    | virtual h hne => exact absurd h (not_chain hne)
    | registered => exact MemberKind.tag_injective htag

end Adds

theorem adds_of_statementMembers {kind : MemberKind} {schema : String} {s : Statement}
    (h : statementMembers kind schema s ≠ []) : ∃ e, s.kind = .expression e ∧ Adds kind schema e := by
  unfold statementMembers at h
  split at h
  next e he => exact ⟨e, he, adds_of_memberNames fun hnil => h (by rw [hnil, List.map_nil])⟩
  next => exact absurd rfl h

/-! ### One pass over the statements -/

/-- A member that a statement adds: the schema, the kind and the bullet. -/
structure Addition where
  schema : String
  kind : MemberKind
  bullet : String

/-- The kinds of members, in the order of their sections. -/
def memberKinds : List MemberKind := [.virtual, .method, .static]

/-- **What a statement adds**, to whatever schema it starts with. -/
def statementAdditions (s : Statement) : List Addition :=
  match s.kind with
  | .expression e =>
    match rootName? e with
    | some schema => memberKinds.flatMap fun kind =>
        (statementMembers kind schema s).map (Addition.mk schema kind)
    | none => []
  | _ => []

/-- What the statements of a program add, in the order of the text. -/
def additions (program : Program) : List Addition := program.body.flatMap statementAdditions

theorem bullets_of_sections (f : MemberKind → List String) (kind : MemberKind)
    (root schema : String) :
    ((memberKinds.flatMap fun k => (f k).map (Addition.mk root k)).filter fun a =>
      a.schema = schema ∧ a.kind = kind).map Addition.bullet =
      if root = schema then f kind else [] := by
  simp only [memberKinds, List.flatMap_cons, List.flatMap_nil, List.append_nil, List.filter_append,
    List.filter_map, Function.comp_def, List.map_append, List.map_map]
  split
  next hroot => cases kind <;> simp [hroot]
  next hroot => simp [hroot]

/-- The members of a kind that a statement adds to a schema are those among all that it adds. -/
theorem statementMembers_eq (kind : MemberKind) (schema : String) (s : Statement) :
    statementMembers kind schema s = ((statementAdditions s).filter fun a =>
      a.schema = schema ∧ a.kind = kind).map Addition.bullet := by
  by_cases hmembers : statementMembers kind schema s = []
  · rw [statementAdditions]
    split
    next e he =>
      split
      next root hroot =>
        rw [bullets_of_sections]
        split
        next h => rw [h]
        next => exact hmembers
      next => exact hmembers
    next => exact hmembers
  · obtain ⟨e, he, hadds⟩ := adds_of_statementMembers hmembers
    rw [statementAdditions, he]
    simp only [hadds.rootName?_eq]
    rw [bullets_of_sections, if_pos rfl]

theorem sections_perm (l : List Addition) :
    (memberKinds.flatMap fun kind => l.filter fun a => a.kind = kind).Perm l := by
  induction l with
  | nil => exact .nil
  | cons a l ih =>
    refine .trans ?_ (ih.cons a)
    simp only [memberKinds, List.flatMap_cons, List.flatMap_nil, List.append_nil]
    cases hkind : a.kind with
    | virtual => simp [hkind]
    | method => simp [hkind]
    | static => simp [hkind, ← List.append_assoc]

/-- The members of a schema are what the statements add to it, by kind. -/
theorem members_eq (program : Program) (schema : String) :
    members program schema = memberKinds.flatMap fun kind =>
      ((additions program).filter fun a => a.schema = schema ∧ a.kind = kind).map Addition.bullet := by
  refine congrArg (memberKinds.flatMap ·) (funext fun kind => ?_)
  rw [additions, List.filter_flatMap, List.map_flatMap]
  exact congrArg (program.body.flatMap ·) (funext (statementMembers_eq kind schema))

/-- … and altogether they are all that the statements add to it. -/
theorem members_perm (program : Program) (schema : String) :
    (members program schema).Perm
      (((additions program).filter fun a => a.schema = schema).map Addition.bullet) := by
  have hsections := (sections_perm ((additions program).filter fun a => a.schema = schema)).map
    Addition.bullet
  rw [List.map_flatMap] at hsections
  simpa [members_eq, List.filter_filter, Bool.and_comm] using hsections

/-- **Members belong to one schema and one section.** The name of a virtual is found exactly in chains
of calls that start with `schema.virtual` and have a getter. A statement adds members to one schema
only, and to one section of its block. The sections of a block have the members that the statements
add to the schema, each section in the order of the text, and together they have all of them. -/
theorem members_have_one_section :
    (∀ schema name e, virtualName? schema false e = some name ↔
      ∃ loc rest names, VirtualChain schema (.lit loc (.string name) :: rest) names e ∧
        "get" ∈ names) ∧
    (∀ s kind schema kind' schema', statementMembers kind schema s ≠ [] →
      statementMembers kind' schema' s ≠ [] → schema = schema' ∧ kind = kind') ∧
    ∀ program schema,
      members program schema = (memberKinds.flatMap fun kind =>
        ((additions program).filter fun a => a.schema = schema ∧ a.kind = kind).map
          Addition.bullet) ∧
      (members program schema).Perm
        (((additions program).filter fun a => a.schema = schema).map Addition.bullet) := by
  refine ⟨virtualName?_eq_some_iff, fun s kind schema kind' schema' h h' => ?_,
    fun program schema => ⟨members_eq program schema, members_perm program schema⟩⟩
  obtain ⟨e, he, hadds⟩ := adds_of_statementMembers h
  obtain ⟨e', he', hadds'⟩ := adds_of_statementMembers h'
  obtain rfl := StatementKind.expression.inj (he.symm.trans he')
  exact ⟨Option.some.inj (hadds.rootName?_eq.symm.trans hadds'.rootName?_eq),
    hadds.kind_eq hadds'⟩

/-- A static that is assigned, a method of another schema, a virtual with a getter and a setter, and
methods that are registered together. -/
theorem members_of_user :
    let loc : Loc := ⟨0, 0, 1, 1⟩
    let property (object : Expr) (name : String) : Expr := .member loc object name
    let call (object : Expr) (name : String) (args : List Expr) : Expr :=
      .call loc false (property object name) args
    let user : Expr := .ident loc "User"
    let name : Expr := .lit loc (.string "name")
    let statement (e : Expr) : Statement := ⟨.expression e, loc, .none⟩
    let virtual := call (call (call user "virtual" [name]) "get" []) "set" []
    let program : Program := ⟨"", [
      statement (.assign loc (property (property user "statics") "search") name),
      statement (call (.ident loc "Post") "method" [name]),
      statement virtual,
      statement (call user "method" [.object loc [.mk (.keyed "rename") name loc .none]])]⟩
    virtualName? "User" false virtual = some "name" ∧
      (statementMembers .virtual "User" (statement virtual) ≠ [] ∧ ∀ kind schema,
        statementMembers kind schema (statement virtual) ≠ [] →
          "User" = schema ∧ .virtual = kind) ∧
      members program "User" = ["- **name** \x60virtual\x60", "- **rename** \x60method\x60",
        "- **search** \x60static\x60"] := by
  intro loc property call user name statement virtual program
  obtain ⟨hvirtual, hone, hmembers⟩ := members_have_one_section
  refine ⟨(hvirtual _ _ _).mpr ⟨loc, [], ["get", "set"], ?_, by decide⟩, ⟨?_, ?_⟩, ?_⟩
  · exact .call loc loc false "set" [] (.call loc loc false "get" [] (.start loc loc loc false))
  · decide +kernel
  · exact fun kind schema h => hone _ _ _ _ _ (by decide +kernel) h
  · exact (hmembers program "User").1.trans (by decide +kernel)

end SchemaDoc.Document
