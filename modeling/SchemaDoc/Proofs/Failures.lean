import SchemaDoc.Proofs.Occurrence
import SchemaDoc.Proofs.Rendering

/-!
# Why a document may be missing

Rendering follows names, looks through arrays and type markers and evaluates what it cannot read off,
but there are only three errors in the end. The file may declare no schema; a constructor may be
called with a definition that lists no fields; and a module may be needed that could not be loaded.
Nothing that cannot be resolved is an error.

A constructor call that is refused need not belong to a field of a schema directly: fields are also
found under names and inside of other calls. That all of them stand in the entry file
(`Body.Calls.within`) is what the second case rests on; the third one is what evaluation guarantees.
-/

namespace SchemaDoc

/-- What a name is bound to is an expression of the program. -/
theorem Program.has_of_declaredInit? {p : Program} {name : String} {e : Expr}
    (h : p.declaredInit? name = some e) : p.Has e := by
  obtain ⟨s, hs, hfound⟩ := List.exists_of_findSome?_eq_some h
  split at hfound
  next exported ds hkind =>
    obtain ⟨d, hd, hinit⟩ := List.exists_of_findSome?_eq_some hfound
    refine .top hs ?_
    rw [hkind]
    refine List.mem_flatMap.mpr ⟨d, hd, List.mem_append_right _ (Option.mem_toList.mpr ?_)⟩
    unfold Program.initOf? at hinit
    split at hinit
    · split at hinit
      · exact hinit
      · exact absurd hinit nofun
    · exact absurd hinit nofun
  next => exact absurd hfound nofun

namespace Document

open Relation

/-! ### What is rendered stands in the file -/

/-- Entries whose values are expressions of a program. -/
def Within (program : Program) (entries : List Entry) : Prop :=
  ∀ entry ∈ entries, program.Has entry.value

section Within

variable {program : Program} {config : Config}

theorem within_of_object {loc : Loc} {entries : List Entry}
    (h : program.Has (.object loc entries)) : Within program entries :=
  fun _ hentry => h.inside (List.mem_map_of_mem hentry)

theorem within_of_literal? {name : String} {entries : List Entry}
    (h : literal? program name = some entries) : Within program entries := by
  obtain ⟨init, hinit, hentries⟩ := Option.bind_eq_some_iff.mp h
  have hhas := program.has_of_declaredInit? hinit
  cases init with
  | object loc inner =>
    obtain rfl : inner = entries := Option.some.inj hentries
    exact within_of_object hhas
  | _ => exact absurd hentries nofun

theorem within_of_definitionEntries? {definition : Expr} {entries : List Entry}
    (h : definitionEntries? program definition = some entries) (hhas : program.Has definition) :
    Within program entries := by
  cases definition with
  | object loc inner =>
    obtain rfl : inner = entries := Option.some.inj h
    exact within_of_object hhas
  | ident loc name => exact within_of_literal? h
  | _ => exact absurd h nofun

theorem within_of_schemaFields {e : Expr} {schema : String} {entries : List Entry}
    (h : schemaFields program config e schema = .ok (some entries)) (hhas : program.Has e) :
    Within program entries := by
  unfold schemaFields at h
  split at h
  next loc constructs callee args =>
    split at h
    · exact absurd h nofun
    · split at h
      · obtain rfl : [] = entries := Option.some.inj (Except.ok.inj h)
        exact fun _ hentry => absurd hentry List.not_mem_nil
      next definition rest =>
        split at h
        next found hfound =>
          obtain rfl : found = entries := Option.some.inj (Except.ok.inj h)
          refine within_of_definitionEntries? hfound (hhas.inside ?_)
          exact List.mem_cons_of_mem callee List.mem_cons_self
        next => exact absurd h nofun
  next => exact absurd h nofun

theorem within_of_constructed? {e : Expr} {entries : List Entry}
    (h : constructed? program config e = some entries) (hhas : program.Has e) :
    Within program entries := by
  unfold constructed? at h
  split at h
  next found hfound =>
    subst h
    exact within_of_schemaFields hfound hhas
  next => exact absurd h nofun

theorem has_of_throughArrays {limit : Nat} {e node : Expr}
    (h : (throughArrays limit e).2 = some node) (hhas : program.Has e) : program.Has node := by
  fun_induction throughArrays limit e with
  | case1 e =>
    obtain rfl : e = node := Option.some.inj h
    exact hhas
  | case2 limit loc => cases h
  | case3 limit loc first entries n element heq ih =>
    exact ih (by rw [heq]; exact h) (hhas.inside List.mem_cons_self)
  | case4 limit e hnot =>
    obtain rfl : e = node := Option.some.inj h
    exact hhas

theorem has_of_mem_markers {entries : List Entry} {marker : Expr}
    (h : marker ∈ markers config entries) (hwithin : Within program entries) :
    program.Has marker := by
  obtain ⟨entry, hentry, rfl⟩ := List.mem_map.mp h
  exact hwithin entry (List.mem_of_mem_filter hentry)

theorem within_of_mem_markerBodies {marker : Expr} {inner : List Entry}
    (h : inner ∈ markerBodies program config marker) (hhas : program.Has marker) :
    Within program inner := by
  unfold markerBodies at h
  split at h
  next loc entries =>
    obtain rfl := List.mem_singleton.mp h
    exact within_of_object hhas
  next loc entries =>
    split at h
    next loc' entries' hnode =>
      obtain rfl := List.mem_singleton.mp h
      exact within_of_object (has_of_throughArrays hnode hhas)
    next => exact absurd h List.not_mem_nil
  next => exact within_of_constructed? (Option.mem_toList.mp h) hhas

theorem within_of_mem_nodeBodies {node : Expr} {inner : List Entry}
    (h : inner ∈ nodeBodies program config node) (hhas : program.Has node) :
    Within program inner := by
  unfold nodeBodies at h
  split at h
  next loc entries =>
    have hwithin := within_of_object hhas
    rcases mem_objectBodies h with rfl | ⟨marker, hmarker, h⟩
    · exact hwithin
    · exact within_of_mem_markerBodies h (has_of_mem_markers hmarker hwithin)
  next => exact within_of_constructed? (Option.mem_toList.mp h) hhas

theorem within_of_mem_bodies {definition : Expr} {inner : List Entry}
    (h : inner ∈ bodies program config definition) (hhas : program.Has definition) :
    Within program inner := by
  unfold bodies at h
  split at h
  next => exact absurd h List.not_mem_nil
  next node hnode => exact within_of_mem_nodeBodies h (has_of_throughArrays hnode hhas)

theorem has_of_mem_places {definition e : Expr} (h : e ∈ places config definition)
    (hhas : program.Has definition) : program.Has e := by
  unfold places at h
  split at h
  next => exact absurd h List.not_mem_nil
  next node hnode =>
    have hnode := has_of_throughArrays hnode hhas
    unfold nodePlaces at h
    split at h
    next loc entries => exact has_of_mem_markers h (within_of_object hnode)
    next =>
      obtain rfl := List.mem_singleton.mp h
      exact hnode

theorem within_of_spliced? {splicing : List String} {e : Expr} {name : String}
    {entries : List Entry} (h : spliced? program splicing e = some (name, entries)) :
    Within program entries := by
  unfold spliced? at h
  split at h
  next loc n =>
    split at h
    next found hfound =>
      split at h
      · exact absurd h nofun
      · obtain ⟨rfl, rfl⟩ := Prod.ext_iff.mp (Option.some.inj h)
        exact within_of_literal? hfound
    next => exact absurd h nofun
  next => exact absurd h nofun

/-- **What is rendered as part of entries of a file stands in the file.** -/
theorem Body.Calls.within {b b' : Body} (h : b.Calls program config b')
    (hwithin : Within program b.entries) : Within program b'.entries := by
  obtain ⟨entry, hentry, hb'⟩ := List.mem_flatMap.mp h
  unfold callsOf at hb'
  split at hb'
  next key hkind =>
    obtain ⟨inner, hinner, rfl⟩ := List.mem_map.mp hb'
    exact within_of_mem_bodies hinner (hwithin entry hentry)
  next =>
    split at hb'
    next name entries hspliced =>
      obtain rfl := List.mem_singleton.mp hb'
      exact within_of_spliced? hspliced
    next => exact absurd hb' List.not_mem_nil
  next => exact absurd hb' List.not_mem_nil

theorem Body.within_of_reaches {b b' : Body}
    (h : ReflTransGen (Calls program config) b b') (hwithin : Within program b.entries) :
    Within program b'.entries := by
  induction h with
  | refl => exact hwithin
  | tail _ hcalls ih => exact hcalls.within ih

end Within

/-! ### Constructor calls -/

section Constructors

variable (program : Program) (config : Config)

/-- A call of a constructor of schemas. -/
def ConstructsSchema (e : Expr) : Prop :=
  ∃ loc constructs callee args,
    e = .call loc constructs callee args ∧ constructsSchema config callee = true

/-- The definition of a constructor call of the program, if it lists no fields: it is neither an
object literal nor a name that is bound to one. -/
def ListsNoFields (definition : Expr) : Prop :=
  (∃ loc constructs callee rest,
    program.Has (.call loc constructs callee (definition :: rest)) ∧
      constructsSchema config callee = true) ∧
  (∀ loc entries, definition ≠ .object loc entries) ∧
  ∀ loc name, definition = .ident loc name →
    ∀ loc' entries, program.declaredInit? name ≠ some (.object loc' entries)

end Constructors

variable {env : Environment} {program : Program} {config : Config}

theorem not_object_of_definitionEntries? {definition : Expr}
    (h : definitionEntries? program definition = none) :
    (∀ loc entries, definition ≠ .object loc entries) ∧
      ∀ loc name, definition = .ident loc name →
        ∀ loc' entries, program.declaredInit? name ≠ some (.object loc' entries) := by
  constructor
  · rintro loc entries rfl
    exact absurd h nofun
  · rintro loc name rfl loc' entries hinit
    simp [definitionEntries?, hinit, Expr.objectEntries?] at h

/-- The one error of a constructor call. -/
theorem listsNoFields_of_schemaFields {e : Expr} {schema : String} {error : Error}
    (h : schemaFields program config e schema = .error error) (hhas : program.Has e) :
    ∃ definition, ListsNoFields program config definition ∧
      error = .unsupportedShape definition.shapeName schema := by
  unfold schemaFields at h
  split at h
  next loc constructs callee args =>
    split at h
    · exact absurd h nofun
    next hcallee =>
      split at h
      · exact absurd h nofun
      next definition rest =>
        split at h
        · exact absurd h nofun
        next hnone =>
          have hcallee : constructsSchema config callee = true := by simpa using hcallee
          exact ⟨definition, ⟨⟨loc, constructs, callee, rest, hhas, hcallee⟩,
            not_object_of_definitionEntries? hnone⟩, (Except.error.inj h).symm⟩
  next => exact absurd h nofun

theorem schemaFields_eq_none_iff {e : Expr} {schema : String} :
    schemaFields program config e schema = .ok none ↔ ¬ConstructsSchema config e := by
  constructor
  · rintro h ⟨loc, constructs, callee, args, rfl, hcallee⟩
    simp only [schemaFields, hcallee, Bool.not_true, Bool.false_eq_true, if_false] at h
    split at h
    · cases h
    · split at h <;> cases h
  · intro h
    unfold schemaFields
    split
    next loc constructs callee args =>
      have hcallee : constructsSchema config callee ≠ true := fun hcallee =>
        h ⟨loc, constructs, callee, args, rfl, hcallee⟩
      rw [if_pos (by simpa using hcallee)]
    next => rfl

/-! ### Declared schemas -/

/-- A variable with a name of its own whose initial value is a constructor call. -/
def IsSchema (config : Config) (d : Declarator) : Prop :=
  ∃ name init, d.binding = .ident name ∧ d.init = some init ∧ ConstructsSchema config init

/-- The entry file declares a schema at its top level. -/
def DeclaresSchema (env : Environment) : Prop :=
  ∃ program, env.index.program? 0 = some program ∧
    ∃ d ∈ program.body.flatMap declaratorsOf, IsSchema env.config d

theorem exists_of_schemasIn_error {ds : List Declarator} {error : Error}
    (h : schemasIn program config ds = .error error) :
    ∃ d ∈ ds, ∃ init name, d.init = some init ∧
      schemaFields program config init name = .error error := by
  fun_induction schemasIn program config ds with
  | case1 => exact absurd h nofun
  | case2 d ds name init hinit hbinding e he =>
    obtain rfl := Except.error.inj h
    exact ⟨d, List.mem_cons_self, init, name, hinit, he⟩
  | case3 d ds name init hinit hbinding found hfound ih =>
    cases hrest : schemasIn program config ds with
    | error e =>
      rw [hrest] at h
      obtain rfl := Except.error.inj h
      obtain ⟨d', hd', hfields⟩ := ih hrest
      exact ⟨d', List.mem_cons_of_mem d hd', hfields⟩
    | ok rest =>
      rw [hrest] at h
      exact absurd h nofun
  | case4 d ds hnot ih =>
    obtain ⟨d', hd', hfields⟩ := ih h
    exact ⟨d', List.mem_cons_of_mem d hd', hfields⟩

/-- A declarator contributes a schema, or it is none. -/
theorem schemasIn_cons {d : Declarator} {ds : List Declarator} {declared : List SchemaDecl}
    (h : schemasIn program config (d :: ds) = .ok declared) :
    ∃ rest, schemasIn program config ds = .ok rest ∧
      ((declared = rest ∧ ¬IsSchema config d) ∨
        ∃ name init entries, d.binding = .ident name ∧ d.init = some init ∧
          declared = ⟨name, entries⟩ :: rest ∧
          schemaFields program config init name = .ok (some entries)) := by
  unfold schemasIn at h
  split at h
  next name init hbinding hinit =>
    split at h
    · exact absurd h nofun
    next found hfound =>
      cases hrest : schemasIn program config ds with
      | error e =>
        rw [hrest] at h
        exact absurd h nofun
      | ok rest =>
        rw [hrest] at h
        refine ⟨rest, rfl, ?_⟩
        cases found with
        | some entries =>
          exact Or.inr ⟨name, init, entries, hbinding, hinit, (Except.ok.inj h).symm, hfound⟩
        | none =>
          refine Or.inl ⟨(Except.ok.inj h).symm, ?_⟩
          rintro ⟨name', init', -, hinit', hconstructs⟩
          obtain rfl := Option.some.inj (hinit.symm.trans hinit')
          exact schemaFields_eq_none_iff.mp hfound hconstructs
  next hnot =>
    refine ⟨declared, h, Or.inl ⟨rfl, ?_⟩⟩
    rintro ⟨name, init, hbinding, hinit, -⟩
    exact hnot name init hbinding hinit

theorem exists_of_mem_schemasIn {ds : List Declarator} {declared : List SchemaDecl}
    (h : schemasIn program config ds = .ok declared) {found : SchemaDecl}
    (hfound : found ∈ declared) :
    ∃ d ∈ ds, d.binding = .ident found.name ∧ ∃ init, d.init = some init ∧
      schemaFields program config init found.name = .ok (some found.entries) := by
  induction ds generalizing declared with
  | nil =>
    obtain rfl := Except.ok.inj h
    exact absurd hfound List.not_mem_nil
  | cons d ds ih =>
    obtain ⟨rest, hrest, ⟨rfl, -⟩ | ⟨name, init, entries, hbinding, hinit, rfl, hfields⟩⟩ :=
      schemasIn_cons h
    · obtain ⟨d', hd', hinit⟩ := ih hrest hfound
      exact ⟨d', List.mem_cons_of_mem d hd', hinit⟩
    · rcases List.mem_cons.mp hfound with rfl | hfound
      · exact ⟨d, List.mem_cons_self, hbinding, init, hinit, hfields⟩
      · obtain ⟨d', hd', hinit⟩ := ih hrest hfound
        exact ⟨d', List.mem_cons_of_mem d hd', hinit⟩

/-- No schema is found among declarators exactly if none of them is one. -/
theorem schemasIn_eq_nil_iff {ds : List Declarator} :
    schemasIn program config ds = .ok [] ↔ ∀ d ∈ ds, ¬IsSchema config d := by
  induction ds with
  | nil => simp [schemasIn]
  | cons d ds ih =>
    rw [List.forall_mem_cons]
    constructor
    · intro h
      obtain ⟨rest, hrest, ⟨rfl, hd⟩ | ⟨name, init, entries, -, -, habsurd, -⟩⟩ := schemasIn_cons h
      · exact ⟨hd, ih.mp hrest⟩
      · exact absurd habsurd nofun
    · rintro ⟨hd, hds⟩
      have hrest := ih.mpr hds
      unfold schemasIn
      split
      next name init hbinding hinit =>
        have hnone : schemaFields program config init name = .ok none :=
          schemaFields_eq_none_iff.mpr fun h => hd ⟨name, init, hbinding, hinit, h⟩
        simp only [hnone, hrest, Except.map]
      next => exact hrest

/-! ### Documents -/

/-- The initial value of a declared variable is an expression of the program. -/
theorem has_of_init {d : Declarator} (hd : d ∈ program.body.flatMap declaratorsOf) {init : Expr}
    (hinit : d.init = some init) : program.Has init := by
  obtain ⟨s, hs, hd⟩ := List.mem_flatMap.mp hd
  refine .top hs ?_
  unfold declaratorsOf at hd
  split at hd
  next exported ds hkind =>
    rw [hkind]
    refine List.mem_flatMap.mpr ⟨d, hd, List.mem_append_right _ ?_⟩
    exact Option.mem_toList.mpr hinit
  next => exact absurd hd List.not_mem_nil

/-- The three reasons why there is no document. -/
inductive Documented (env : Environment) : Stop → Prop
  | noSchema (h : ¬DeclaresSchema env) : Documented env (.error .noSchema)
  | unsupportedShape {program : Program} (hprogram : env.index.program? 0 = some program)
    {definition : Expr} (h : ListsNoFields program env.config definition) (schema : String) :
    Documented env (.error (.unsupportedShape definition.shapeName schema))
  | moduleLoad {stop : Stop} (h : ComesFromFailedLink env.index stop) : Documented env stop

theorem documented_of_schemaFields (hprogram : env.index.program? 0 = some program) {e : Expr}
    {schema : String} {error : Error} (h : schemaFields program env.config e schema = .error error)
    (hhas : program.Has e) : Documented env (.error error) := by
  obtain ⟨definition, hlists, rfl⟩ := listsNoFields_of_schemaFields h hhas
  exact .unsupportedShape hprogram hlists schema

theorem Body.Stops.documented (hprogram : env.index.program? 0 = some program) {fuel : Nat}
    {b : Body} {stop : Stop} (h : b.Stops env program fuel stop)
    (hwithin : Within program b.entries) : stop = .exhausted ∨ Documented env stop := by
  rcases h with (hlink | ⟨b', hpath, entry, hentry, key, -, e, he, error, herror, rfl⟩) | ⟨rfl, -⟩
  · exact Or.inr (.moduleLoad hlink)
  · have hvalue := Body.within_of_reaches hpath hwithin entry hentry
    exact Or.inr (documented_of_schemaFields hprogram herror (has_of_mem_places he hvalue))
  · exact Or.inl rfl

theorem schemaSections_documented (hprogram : env.index.program? 0 = some program) (fuel : Nat) :
    Gives env (fun stop => stop = .exhausted ∨ Documented env stop) (schemaSections fuel program)
      fun _ => True := by
  refine Gives.config.bind ?_
  rintro _ rfl
  split
  next error herror =>
    obtain ⟨d, hd, init, name, hinit, hfields⟩ := exists_of_schemasIn_error herror
    exact .fail (Or.inr (documented_of_schemaFields hprogram hfields (has_of_init hd hinit)))
  next declared hdeclared =>
    have hstops (d : SchemaDecl) (hd : d ∈ declared) (stop : Stop)
        (h : Body.Stops env program fuel ⟨[], d.entries⟩ stop) :
        stop = .exhausted ∨ Documented env stop := by
      obtain ⟨d', hd', -, init, hinit, hfields⟩ := exists_of_mem_schemasIn hdeclared hd
      exact h.documented hprogram (within_of_schemaFields hfields (has_of_init hd' hinit))
    split
    next hlast =>
      refine .fail (Or.inr (.noSchema ?_))
      obtain rfl := List.getLast?_eq_none_iff.mp hlast
      rintro ⟨program', hprogram', d, hd, hschema⟩
      obtain rfl := Option.some.inj (hprogram.symm.trans hprogram')
      exact schemasIn_eq_nil_iff.mp hdeclared d hd hschema
    next main hlast =>
      have hmain : main ∈ declared := List.mem_of_getLast? hlast
      refine (Gives.info _).bind fun _ _ => ?_
      refine ((schemaBlock_gives hprogram fuel main).imp_reason (hstops main hmain)).bind
        fun _ _ => ?_
      refine ((subSections_gives hprogram fuel declared.dropLast).imp_reason
        fun stop ⟨d, hd, h⟩ => hstops d (List.dropLast_subset declared hd) stop h).bind
          fun _ _ => ?_
      exact .pure trivial

/-- **Rendering with some fuel stops for a documented reason, or runs out of fuel.** -/
theorem renderWithin_documented (fuel : Nat) :
    Gives env (fun stop => stop = .exhausted ∨ Documented env stop) (renderWithin fuel)
      fun _ => True := by
  refine (entryProgram_gives.imp_reason ?_).bind fun program hprogram => ?_
  · rintro stop ⟨rfl, hnone⟩
    refine Or.inr (.noSchema ?_)
    rintro ⟨program, hprogram, -⟩
    exact absurd (hnone.symm.trans hprogram) nofun
  · exact (schemaSections_documented hprogram fuel).bind fun _ _ => .pure trivial

theorem render_error {s s' : Session} {stop : Stop} (h : render env s = some (.error stop, s')) :
    Documented env stop := by
  obtain ⟨fuel, hfuel, hended⟩ := render_eq_some_iff.mp h
  refine ((renderWithin_documented fuel s).2 stop (by rw [hfuel])).resolve_left ?_
  rintro rfl
  exact hended rfl

/-- Without a schema there is nothing to render, and nothing is evaluated. -/
theorem render_of_not_declaresSchema (h : ¬DeclaresSchema env) (s : Session) :
    render env s = some (.error (.error .noSchema), s) := by
  have hrun : renderWithin 0 env s = (.error (.error .noSchema), s) := by
    have hindex : Eval.index env s = (.ok env.index, s) := rfl
    cases hprogram : env.index.program? 0 with
    | none =>
      refine Eval.run_bind_error ((Eval.run_bind_ok hindex).trans ?_)
      rw [hprogram]
      rfl
    | some program =>
      have hentry : entryProgram env s = (.ok program, s) := by
        refine (Eval.run_bind_ok hindex).trans ?_
        rw [hprogram]
        rfl
      have hschemas : schemas program env.config = .ok [] :=
        schemasIn_eq_nil_iff.mpr fun d hd hschema => h ⟨program, hprogram, d, hd, hschema⟩
      have hconfig : Eval.config env s = (.ok env.config, s) := rfl
      refine (Eval.run_bind_ok hentry).trans (Eval.run_bind_error ?_)
      refine (Eval.run_bind_ok hconfig).trans ?_
      rw [hschemas]
      rfl
  rw [← hrun]
  exact render_eq_some (by rw [hrun]; exact nofun)

/-- **Rendering fails only in the documented cases.** An error says that the entry file declares no
schema, and it says so exactly if there is none; or it reports the shape of the definition of some
constructor call in the entry file that lists no fields; or it is about a module that could not be
loaded. So if there is a schema, every constructor call has a definition that lists fields and every
module was loaded, there is no error, and unless fields are nested in themselves there is a document:
whatever cannot be resolved. -/
theorem rendering_fails_only_as_documented (env : Environment) (s : Session) :
    (∀ stop s', render env s = some (.error stop, s') →
      (stop = .error .noSchema ∧ ¬DeclaresSchema env) ∨
      (∃ program definition schema, env.index.program? 0 = some program ∧
        ListsNoFields program env.config definition ∧
        stop = .error (.unsupportedShape definition.shapeName schema)) ∨
      ∃ m specifier reason, env.index.link? m specifier = some (.failed reason) ∧
        stop = .error (.moduleLoad specifier (env.index.path m) reason)) ∧
    ((∃ s', render env s = some (.error (.error .noSchema), s')) ↔ ¬DeclaresSchema env) ∧
    (DeclaresSchema env →
      (∀ program definition, env.index.program? 0 = some program →
        ¬ListsNoFields program env.config definition) →
      (∀ m specifier reason, env.index.link? m specifier ≠ some (.failed reason)) →
      (∀ stop s', render env s ≠ some (.error stop, s')) ∧
        (¬NestedInItself env → ∃ text s', render env s = some (.ok text, s'))) := by
  refine ⟨fun stop s' h => ?_, ⟨?_, fun h => ⟨s, render_of_not_declaresSchema h s⟩⟩, ?_⟩
  · cases render_error h with
    | noSchema hnone => exact Or.inl ⟨rfl, hnone⟩
    | unsupportedShape hprogram hlists schema =>
      exact Or.inr (Or.inl ⟨_, _, schema, hprogram, hlists, rfl⟩)
    | moduleLoad hlink => exact Or.inr (Or.inr hlink)
  · rintro ⟨s', h⟩
    cases render_error h with
    | noSchema hnone => exact hnone
    | moduleLoad hlink =>
      obtain ⟨m, specifier, reason, -, habsurd⟩ := hlink
      exact absurd habsurd nofun
  · intro hschema hlists hloaded
    have hno : ∀ stop s', render env s ≠ some (.error stop, s') := by
      intro stop s' h
      cases render_error h with
      | noSchema hnone => exact hnone hschema
      | unsupportedShape hprogram hnot schema => exact hlists _ _ hprogram hnot
      | moduleLoad hlink =>
        obtain ⟨m, specifier, reason, hfailed, -⟩ := hlink
        exact hloaded m specifier reason hfailed
    refine ⟨hno, fun hends => ?_⟩
    obtain ⟨result, s', hrender⟩ := render_ends hends s
    cases result with
    | error stop => exact absurd hrender (hno stop s')
    | ok text => exact ⟨text, s', hrender⟩

/-! ### Two definitions -/

/-- The expressions of a file whose definition spreads itself. -/
theorem has_spreadsItself {e : Expr} (h : (fileOf spreadsItself).Has e) :
    let loc : Loc := ⟨0, 0, 1, 1⟩
    e = .object loc [spreadsItself] ∨ e = .call loc true (.ident loc "Schema") [.ident loc "D"] ∨
      ∃ name, e = .ident loc name := by
  intro loc
  induction h with
  | top hs he =>
    rcases List.mem_pair.mp hs with rfl | rfl
    · exact Or.inl (List.mem_singleton.mp he)
    · exact Or.inr (Or.inl (List.mem_singleton.mp he))
  | inside _ hpart ih =>
    rcases ih with rfl | rfl | ⟨name, rfl⟩
    · exact Or.inr (Or.inr ⟨"D", List.mem_singleton.mp hpart⟩)
    · rcases List.mem_pair.mp hpart with rfl | rfl
      · exact Or.inr (Or.inr ⟨"Schema", rfl⟩)
      · exact Or.inr (Or.inr ⟨"D", rfl⟩)
    · exact absurd hpart List.not_mem_nil

theorem declaresSchema_environmentOf (entry : Entry) : DeclaresSchema (environmentOf entry) := by
  refine ⟨fileOf entry, rfl, _, List.mem_cons_of_mem _ List.mem_cons_self, "S", _, rfl, rfl, ?_⟩
  exact ⟨_, _, _, _, rfl, rfl⟩

theorem not_listsNoFields_spreadsItself (definition : Expr) :
    ¬ListsNoFields (fileOf spreadsItself) .standard definition := by
  rintro ⟨⟨loc, constructs, callee, rest, hhas, -⟩, -, hname⟩
  rcases has_spreadsItself hhas with h | h | ⟨name, h⟩
  · exact absurd h nofun
  · -- The only call names `D`, and `D` is bound to an object literal.
    injection h with _ _ _ hargs
    obtain ⟨rfl, -⟩ := List.cons.inj hargs
    exact hname _ "D" rfl _ _ rfl
  · exact absurd h nofun

/-- The entry `a: new Schema(true)`. -/
def constructsLiteral : Entry :=
  let loc : Loc := ⟨0, 0, 1, 1⟩
  .mk (.keyed "a") (.call loc true (.ident loc "Schema") [.lit loc (.bool true)]) loc .none

/-- A literal lists no fields, and the error is about the field that it stands in. -/
theorem render_constructsLiteral (s : Session) :
    ∃ s', render (environmentOf constructsLiteral) s =
      some (.error (.error (.unsupportedShape "literal" "a")), s') := by
  have hrun : (renderWithin 1 (environmentOf constructsLiteral) s).1 =
      .error (.error (.unsupportedShape "literal" "a")) := rfl
  refine ⟨_, (render_eq_some ?_).trans (congrArg some (Prod.ext hrun rfl))⟩
  rw [hrun]
  exact nofun

/-- A definition that spreads itself is rendered without an error, and one that constructs a schema
from a literal is refused. -/
theorem rendering_of_literal_definition :
    let s := Session.start (.empty true)
    (DeclaresSchema (environmentOf spreadsItself) ∧
      (∀ program definition, (environmentOf spreadsItself).index.program? 0 = some program →
        ¬ListsNoFields program (environmentOf spreadsItself).config definition) ∧
      (∀ m specifier reason,
        (environmentOf spreadsItself).index.link? m specifier ≠ some (.failed reason)) ∧
      ¬NestedInItself (environmentOf spreadsItself) ∧
      ∃ text s', render (environmentOf spreadsItself) s = some (.ok text, s')) ∧
    (∃ s', render (environmentOf constructsLiteral) s =
      some (.error (.error (.unsupportedShape "literal" "a")), s')) ∧
      ∃ program definition, ListsNoFields program Config.standard definition ∧
        definition.shapeName = "literal" := by
  intro s
  constructor
  · have hschema := declaresSchema_environmentOf spreadsItself
    have hlists : ∀ program definition,
        (environmentOf spreadsItself).index.program? 0 = some program →
          ¬ListsNoFields program (environmentOf spreadsItself).config definition := by
      intro program definition hprogram
      obtain rfl : fileOf spreadsItself = program := Option.some.inj hprogram
      exact not_listsNoFields_spreadsItself definition
    have hloaded : ∀ m specifier reason,
        (environmentOf spreadsItself).index.link? m specifier ≠ some (.failed reason) :=
      fun _ _ _ => nofun
    have hends := not_nestedInItself_spreadsItself
    obtain ⟨-, -, h⟩ := rendering_fails_only_as_documented (environmentOf spreadsItself) s
    exact ⟨hschema, hlists, hloaded, hends, (h hschema hlists hloaded).2 hends⟩
  · obtain ⟨s', hrender⟩ := render_constructsLiteral s
    refine ⟨⟨s', hrender⟩, ?_⟩
    obtain ⟨h, -, -⟩ := rendering_fails_only_as_documented (environmentOf constructsLiteral) s
    rcases h _ s' hrender with ⟨habsurd, -⟩ | ⟨program, definition, schema, -, hlists, hstop⟩ |
      ⟨_, _, _, hlink, -⟩
    · exact absurd habsurd nofun
    · injection hstop with hstop
      injection hstop with hshape
      exact ⟨program, definition, hlists, hshape.symm⟩
    · exact absurd hlink nofun

end Document

end SchemaDoc
