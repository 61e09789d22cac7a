import SchemaDoc.Proofs.Binders
import SchemaDoc.Proofs.Unhindered

/-!
# Exported names

A name that a module declares and exports can be reached in two ways: by looking it up in the
module, and as a key of the exports. The exports are put together in one pass over the statements,
each declarator in its turn, while looking the name up evaluates its declarator alone. This file
compares the two, for modules that declare and export each name once and do not replace their
exports as a whole.

* A plain name is a key, and its value is printed as what looking it up gives, if nothing hinders
  either of the evaluations. They start in different sessions and contexts, so this is where
  `unhindered` is used.
* The names of a pattern are declared, but they are not exported.

The pass over the statements is described by `Stores`: what it puts under which keys, and that it
leaves all others alone. Steps of it are put together by `Stores.trans`, whether these are
declarators of a statement or statements of a program.
-/

namespace SchemaDoc

open Evaluate
open Document (lookupKey?_insertKey eq_of_count_flatMap run_lookup_of_origin)

/-! ### What a program exports -/

/-- The places in the exports that a statement names. The names of patterns are among them. -/
def Statement.exportTargets (s : Statement) : List ExportTarget :=
  match s.kind with
  | .expression e => (assignments e).1.filterMap exportTarget?
  | .declare true ds => ds.flatMap fun d => d.binding.names.map .named
  | .exportDefault _ => [.named "default"]
  | .exportNames names => names.map fun name => .named name.2
  | _ => []

/-- The declarators of a statement that are exported. -/
def Statement.exportedDeclarators (s : Statement) : List Declarator :=
  match s.kind with
  | .declare true ds => ds
  | _ => []

namespace Program

/-- The places in the exports that a program names, as often as it does. -/
def exportTargets (p : Program) : List ExportTarget := p.body.flatMap Statement.exportTargets

/-- The exported declarators of a program. -/
def exportedDeclarators (p : Program) : List Declarator :=
  p.body.flatMap Statement.exportedDeclarators

/-- A program that declares and exports each name at most once, and only adds to its exports. -/
structure ExportsOnce (p : Program) : Prop where
  declared : p.names.Nodup
  exported : p.exportTargets.Nodup
  not_whole : ExportTarget.whole ∉ p.exportTargets

instance (p : Program) : Decidable p.ExportsOnce :=
  decidable_of_iff (p.names.Nodup ∧ p.exportTargets.Nodup ∧ ExportTarget.whole ∉ p.exportTargets)
    ⟨fun ⟨h₁, h₂, h₃⟩ => ⟨h₁, h₂, h₃⟩, fun ⟨h₁, h₂, h₃⟩ => ⟨h₁, h₂, h₃⟩⟩

end Program

/-! ### Where exported names come from -/

/-- The names of a binder. -/
def Evaluate.Origin.names : Origin → List String
  | .declarator d => d.binding.names
  | .imported _ binding => [binding.localName]

theorem Evaluate.Origin.mem_names_of_binds {binder : Origin} {name : String}
    (h : binder.binds name = true) : name ∈ binder.names := by
  cases binder with
  | declarator d => exact Binding.mem_names_of_binds h
  | imported source binding => exact List.mem_singleton.mpr (beq_iff_eq.mp h).symm

theorem Program.names_eq (p : Program) : p.names = p.binders.flatMap Origin.names := by
  rw [Program.names, Program.binders, List.flatMap_assoc]
  congr 1
  funext s
  cases hkind : s.kind with
  | imports source bindings =>
    simp only [Statement.names, Statement.binders, hkind, List.flatMap_map, Origin.names]
    exact List.map_eq_flatMap
  | _ => simp [Statement.names, Statement.binders, hkind, List.flatMap_map, Origin.names]

/-- The binder of a name that is declared once. -/
theorem origin?_of_mem_binders {p : Program} (h : p.names.Nodup) {binder : Origin}
    (hmem : binder ∈ p.binders) {name : String} (hbinds : binder.binds name = true) :
    origin? p name = some binder := by
  rw [origin?_eq_find?]
  obtain ⟨found, hfound⟩ : ∃ found, p.binders.find? (·.binds name) = some found :=
    Option.isSome_iff_exists.mp (List.find?_isSome.mpr ⟨binder, hmem, hbinds⟩)
  have hcount : (p.binders.flatMap Origin.names).count name ≤ 1 :=
    List.nodup_iff_count_le_one.mp (p.names_eq ▸ h) name
  have hfoundBinds : found.binds name = true := by simpa using List.find?_some hfound
  rw [hfound, eq_of_count_flatMap hcount (List.mem_of_find?_eq_some hfound) hmem
    (Origin.mem_names_of_binds hfoundBinds) (Origin.mem_names_of_binds hbinds)]

theorem Program.mem_binders_of_exported {p : Program} {d : Declarator}
    (h : d ∈ p.exportedDeclarators) : Origin.declarator d ∈ p.binders := by
  obtain ⟨s, hs, hd⟩ := List.mem_flatMap.mp h
  refine List.mem_flatMap.mpr ⟨s, hs, ?_⟩
  unfold Statement.exportedDeclarators at hd
  split at hd
  next ds hkind =>
    simp only [Statement.binders, hkind]
    exact List.mem_map_of_mem hd
  next => exact absurd hd List.not_mem_nil

/-! ### Storing exports -/

section Stores

variable (env : Environment) (k : Nat) (m : ModuleId)

/-- A declarator gives a name a value, at a moment at which only traced exports are remembered, and
nothing hinders that. -/
def Declares (d : Declarator) (name : String) (x : Value) : Prop :=
  ∃ (a : Side) (s : Session), a.Remembers (Traced env) ∧
    declared (evaluate k) m d name env a.session = (.ok x, s) ∧ s.log.Clean Hindrance

/-- **What a part of the statements stores**: of the keys that it names, the plain names of its
declarators get the values that these declare, and the names of patterns stay as they were. All
other keys do, too. -/
structure Stores (targets : List ExportTarget) (ds : List Declarator)
    (fields fields' : List (String × Value)) : Prop where
  named : ∀ d ∈ ds, ∀ name ∈ d.binding.names, ExportTarget.named name ∈ targets
  other : ∀ name, ExportTarget.named name ∉ targets →
    lookupKey? name fields' = lookupKey? name fields
  plain : ∀ d ∈ ds, ∀ name, d.binding = .ident name →
    ∃ x, Declares env k m d name x ∧ lookupKey? name fields' = some x
  pattern : ∀ d ∈ ds, ∀ name ∈ d.binding.names, d.binding ≠ .ident name →
    lookupKey? name fields' = lookupKey? name fields

variable {env k m} {targets targets' : List ExportTarget} {ds ds' : List Declarator}
  {fields fields₁ fields' : List (String × Value)}

namespace Stores

theorem of_other (h : ∀ name, ExportTarget.named name ∉ targets →
    lookupKey? name fields' = lookupKey? name fields) :
    Stores env k m targets [] fields fields' where
  named _ hd := absurd hd List.not_mem_nil
  other := h
  plain _ hd := absurd hd List.not_mem_nil
  pattern _ hd := absurd hd List.not_mem_nil

/-- A pattern is passed over. -/
theorem skip {d : Declarator} (h : ∀ name, d.binding ≠ .ident name) :
    Stores env k m (d.binding.names.map .named) [d] fields fields where
  named d' hd name hname := by
    obtain rfl := List.mem_singleton.mp hd
    exact List.mem_map_of_mem hname
  other _ _ := rfl
  plain d' hd name hname := by
    obtain rfl := List.mem_singleton.mp hd
    exact absurd hname (h name)
  pattern _ _ _ _ _ := rfl

/-- A plain name gets its value. -/
theorem declare {d : Declarator} {name : String} (hname : d.binding = .ident name) {x : Value}
    (hx : Declares env k m d name x) :
    Stores env k m (d.binding.names.map .named) [d] fields (insertKey name x fields) where
  named d' hd other hother := by
    obtain rfl := List.mem_singleton.mp hd
    exact List.mem_map_of_mem hother
  other other hother := by
    have hne : name ≠ other := by
      rintro rfl
      simp [hname, Binding.names] at hother
    rw [lookupKey?_insertKey, if_neg hne]
  plain d' hd other hother := by
    obtain rfl := List.mem_singleton.mp hd
    obtain rfl := Binding.ident.inj (hname.symm.trans hother)
    exact ⟨x, hx, by rw [lookupKey?_insertKey, if_pos rfl]⟩
  pattern d' hd other hother hne := by
    obtain rfl := List.mem_singleton.mp hd
    simp only [hname, Binding.names, List.mem_singleton] at hother
    exact absurd (hother ▸ hname) hne

/-- **One part after the other**: what is stored under different keys does not get lost. -/
theorem trans (h : Stores env k m targets ds fields fields₁)
    (h' : Stores env k m targets' ds' fields₁ fields') (hdisjoint : targets.Disjoint targets') :
    Stores env k m (targets ++ targets') (ds ++ ds') fields fields' where
  named d hd name hname := by
    rcases List.mem_append.mp hd with hd | hd
    · exact List.mem_append_left _ (h.named d hd name hname)
    · exact List.mem_append_right _ (h'.named d hd name hname)
  other name hname := by
    rw [List.mem_append, not_or] at hname
    rw [h'.other name hname.2, h.other name hname.1]
  plain d hd name hname := by
    rcases List.mem_append.mp hd with hd | hd
    · obtain ⟨x, hx, hkey⟩ := h.plain d hd name hname
      have hmem : name ∈ d.binding.names := by simp [hname, Binding.names]
      exact ⟨x, hx, (h'.other name (hdisjoint (h.named d hd name hmem))).trans hkey⟩
    · exact h'.plain d hd name hname
  pattern d hd name hname hne := by
    rcases List.mem_append.mp hd with hd | hd
    · rw [h'.other name (hdisjoint (h.named d hd name hname)), h.pattern d hd name hname hne]
    · have hnot : ExportTarget.named name ∉ targets := fun hmem =>
        hdisjoint hmem (h'.named d hd name hname)
      rw [h'.pattern d hd name hname hne, h.other name hnot]

end Stores

end Stores

/-! ### The pass over the statements -/

section Pass

variable {env : Environment} {k : Nat} {m : ModuleId}

theorem eq_of_run_pure {α : Type} {a b : α} {s s' : Session}
    (h : (pure a : Eval α) env s = (.ok b, s')) : b = a := by
  cases h
  rfl

/-- What comes after is reported after. -/
theorem Log.Clean.of_run {α : Type} {x : Eval α} [hx : Eval.Grows env x] {s s' : Session}
    {r : Except Stop α} (hrun : x env s = (r, s')) (h : s'.log.Clean Hindrance) :
    s.log.Clean Hindrance := by
  have hgrows := hx.log s
  rw [hrun] at hgrows
  exact h.of_grows hgrows

/-- A moment of an evaluation that is compared with itself. The exports so far may hold functions,
so what comes of the rest is only known together with the frames that are paired by then. -/
structure Moment (env : Environment) (w : World) : Prop where
  same : w.left.session = w.right.session
  valid : (unhindered env).Valid w

/-- **From moment to moment**: what a computation gives is similar to itself. -/
theorem Moment.next {w : World} (h : Moment env w) {x : Eval Value}
    (hsim : Sim (unhindered env) none none w x x (unhindered env).Values) {v : Value} {s : Session}
    (hrun : x env w.left.session = (.ok v, s)) (hclean : s.log.Clean Hindrance) :
    ∃ w', w'.left.session = s ∧ Moment env w' ∧ w.Extends none none w' ∧
      (unhindered env).Values w'.pairs v v := by
  have hrun' : x env w.right.session = (.ok v, s) := h.same ▸ hrun
  have hfinished : Finished Hindrance ((.ok v, s) : Except Stop Value × Session) := ⟨nofun, hclean⟩
  obtain ⟨w', hleft, hright, hvalid, hext, houtcome⟩ := hsim (hrun ▸ hfinished) (hrun' ▸ hfinished)
  rw [hrun] at hleft houtcome
  rw [hrun'] at hright houtcome
  cases houtcome with
  | ok hv => exact ⟨w', hleft, ⟨hleft.trans hright.symm, hvalid⟩, hext, hv⟩

/-- **What exported declarators store.** Each of them is evaluated from the moment that those before
it lead to. -/
theorem stores_exportDeclarators {ds : List Declarator} {w : World} (hw : Moment env w)
    {fields : List (String × Value)}
    (hfields : (unhindered env).Values w.pairs (.map fields) (.map fields)) {v : Value}
    {s : Session}
    (hrun : exportDeclarators (evaluate k) m (.map fields) ds env w.left.session = (.ok v, s))
    (hclean : s.log.Clean Hindrance)
    (hnodup : (ds.flatMap fun d => d.binding.names.map ExportTarget.named).Nodup) :
    ∃ fields', v = .map fields' ∧
      Stores env k m (ds.flatMap fun d => d.binding.names.map .named) ds fields fields' := by
  induction ds generalizing w fields with
  | nil =>
    obtain rfl := eq_of_run_pure hrun
    exact ⟨fields, rfl, .of_other fun _ _ => rfl⟩
  | cons d ds ih =>
    rw [List.flatMap_cons] at hnodup ⊢
    obtain ⟨-, hrest, hdisjoint⟩ := List.nodup_append'.mp hnodup
    rw [exportDeclarators] at hrun
    have hskip (hbinding : ∀ name, d.binding ≠ .ident name)
        (hrun : exportDeclarators (evaluate k) m (.map fields) ds env w.left.session = (.ok v, s)) :
        ∃ fields', v = .map fields' ∧ Stores env k m (d.binding.names.map .named ++
          ds.flatMap fun d => d.binding.names.map .named) (d :: ds) fields fields' := by
      obtain ⟨fields', hv, hstores⟩ := ih hw hfields hrun hrest
      exact ⟨fields', hv, (Stores.skip hbinding).trans hstores hdisjoint⟩
    cases hbinding : d.binding with
    | ident name =>
      rw [hbinding] at hrun
      obtain ⟨x, s₁, hx, hrun⟩ := Eval.exists_of_run_bind_ok hrun
      have hclean₁ : s₁.log.Clean Hindrance := hclean.of_run hrun
      obtain ⟨w₁, rfl, hw₁, hext, hself⟩ := hw.next
        ((unhindered_evaluators env k k).declared trivial hw.valid d name) hx hclean₁
      obtain ⟨fields', hv, hstores⟩ :=
        ih hw₁ (similar_exportNamed (hext.value hfields) name hself) hrun hrest
      have hdeclares : Declares env k m d name x :=
        ⟨w.left, _, hw.valid.holds.1.traced, hx, hclean₁⟩
      rw [← hbinding]
      exact ⟨fields', hv, (Stores.declare hbinding hdeclares).trans hstores hdisjoint⟩
    | object props =>
      rw [hbinding] at hrun
      rw [← hbinding]
      exact hskip (by simp [hbinding]) hrun
    | unsupported =>
      rw [hbinding] at hrun
      rw [← hbinding]
      exact hskip (by simp [hbinding]) hrun

/-- Exporting names leaves all other keys alone. -/
theorem lookupKey?_exportNames {ev : Evaluator Session} {names : List (String × String)}
    {fields : List (String × Value)} {v : Value} {s s' : Session}
    (hrun : exportNames ev m (.map fields) names env s = (.ok v, s')) :
    ∃ fields', v = .map fields' ∧
      ∀ name, ExportTarget.named name ∉ names.map (fun name => ExportTarget.named name.2) →
        lookupKey? name fields' = lookupKey? name fields := by
  induction names generalizing fields s with
  | nil =>
    obtain rfl := eq_of_run_pure hrun
    exact ⟨fields, rfl, fun _ _ => rfl⟩
  | cons name names ih =>
    obtain ⟨x, s₁, -, hrun⟩ := Eval.exists_of_run_bind_ok hrun
    obtain ⟨fields', hv, hother⟩ := ih hrun
    refine ⟨fields', hv, fun other hnot => ?_⟩
    rw [List.map_cons, List.mem_cons, not_or] at hnot
    have hne : name.2 ≠ other := fun he => hnot.1 (congrArg ExportTarget.named he.symm)
    rw [hother other hnot.2, lookupKey?_insertKey, if_neg hne]

/-- So does an assignment, unless it replaces the exports as a whole. -/
theorem lookupKey?_store {targets : List ExportTarget} (hwhole : ExportTarget.whole ∉ targets)
    (fields : List (String × Value)) (value : Value) :
    ∃ fields', store (.map fields) targets value = .map fields' ∧
      ∀ name, ExportTarget.named name ∉ targets →
        lookupKey? name fields' = lookupKey? name fields := by
  induction targets with
  | nil => exact ⟨fields, rfl, fun _ _ => rfl⟩
  | cons target targets ih =>
    rw [List.mem_cons, not_or] at hwhole
    obtain ⟨fields', hstore, hother⟩ := ih hwhole.2
    cases target with
    | whole => exact absurd rfl hwhole.1
    | named name =>
      refine ⟨insertKey name value fields', ?_, fun other hnot => ?_⟩
      · change exportNamed (store (.map fields) targets value) name value = _
        rw [hstore]
        rfl
      · rw [List.mem_cons, not_or] at hnot
        have hne : name ≠ other := fun he => hnot.1 (congrArg ExportTarget.named he.symm)
        rw [lookupKey?_insertKey, if_neg hne, hother other hnot.2]

/-- **What a statement stores.** -/
theorem stores_exportStatement {statement : Statement} {w : World} (hw : Moment env w)
    {fields : List (String × Value)}
    (hfields : (unhindered env).Values w.pairs (.map fields) (.map fields)) {v : Value}
    {s : Session}
    (hrun : exportStatement (evaluate k) m (.map fields) statement env w.left.session = (.ok v, s))
    (hclean : s.log.Clean Hindrance) (hnodup : statement.exportTargets.Nodup)
    (hwhole : ExportTarget.whole ∉ statement.exportTargets) :
    ∃ fields', v = .map fields' ∧
      Stores env k m statement.exportTargets statement.exportedDeclarators fields fields' := by
  have hnone (hrun : (pure (.map fields) : Eval Value) env w.left.session = (.ok v, s))
      (targets : List ExportTarget) :
      ∃ fields', v = .map fields' ∧ Stores env k m targets [] fields fields' := by
    obtain rfl := eq_of_run_pure hrun
    exact ⟨fields, rfl, .of_other fun _ _ => rfl⟩
  simp only [exportStatement, Statement.exportTargets, Statement.exportedDeclarators]
    at hrun hnodup hwhole ⊢
  generalize statement.kind = kind at hrun hnodup hwhole ⊢
  cases kind with
  | declare exported ds =>
    cases exported with
    | false => exact hnone hrun _
    | true => exact stores_exportDeclarators hw hfields hrun hclean hnodup
  | expression e =>
    dsimp only at hrun hwhole
    split at hrun
    · exact hnone hrun _
    · obtain ⟨x, s₁, -, hrun⟩ := Eval.exists_of_run_bind_ok hrun
      obtain ⟨fields', hstore, hother⟩ := lookupKey?_store hwhole fields x
      exact ⟨fields', (eq_of_run_pure hrun).trans hstore, .of_other hother⟩
  | exportDefault e =>
    obtain ⟨x, s₁, -, hrun⟩ := Eval.exists_of_run_bind_ok hrun
    refine ⟨_, eq_of_run_pure hrun, .of_other fun name hnot => ?_⟩
    have hne : "default" ≠ name := by
      rintro rfl
      simp at hnot
    rw [lookupKey?_insertKey, if_neg hne]
  | exportNames names =>
    obtain ⟨fields', hv, hother⟩ := lookupKey?_exportNames hrun
    exact ⟨fields', hv, .of_other hother⟩
  | imports source bindings => exact hnone hrun _
  | other => exact hnone hrun _

/-- **What all statements store.** -/
theorem stores_exportStatements {body : List Statement} {w : World} (hw : Moment env w)
    {fields : List (String × Value)}
    (hfields : (unhindered env).Values w.pairs (.map fields) (.map fields)) {v : Value}
    {s : Session}
    (hrun : exportStatements (evaluate k) m (.map fields) body env w.left.session = (.ok v, s))
    (hclean : s.log.Clean Hindrance) (hnodup : (body.flatMap Statement.exportTargets).Nodup)
    (hwhole : ExportTarget.whole ∉ body.flatMap Statement.exportTargets) :
    ∃ fields', v = .map fields' ∧ Stores env k m (body.flatMap Statement.exportTargets)
      (body.flatMap Statement.exportedDeclarators) fields fields' := by
  induction body generalizing w fields with
  | nil =>
    obtain rfl := eq_of_run_pure hrun
    exact ⟨fields, rfl, .of_other fun _ _ => rfl⟩
  | cons statement body ih =>
    rw [List.flatMap_cons] at hnodup hwhole
    rw [List.flatMap_cons, List.flatMap_cons]
    obtain ⟨hhere, hrest, hdisjoint⟩ := List.nodup_append'.mp hnodup
    rw [List.mem_append, not_or] at hwhole
    obtain ⟨v₁, s₁, hfirst, hrun⟩ := Eval.exists_of_run_bind_ok hrun
    have hclean₁ : s₁.log.Clean Hindrance := hclean.of_run hrun
    obtain ⟨fields₁, rfl, hstores⟩ :=
      stores_exportStatement hw hfields hfirst hclean₁ hhere hwhole.1
    obtain ⟨w₁, rfl, hw₁, -, hself⟩ := hw.next
      ((unhindered_evaluators env k k).exportStatement trivial hw.valid hfields statement) hfirst
      hclean₁
    obtain ⟨fields', hv, hstores'⟩ := ih hw₁ hself hrun hrest hwhole.2
    exact ⟨fields', hv, hstores.trans hstores' hdisjoint⟩

/-- **What the exports of a module are**, whenever they were evaluated. -/
theorem Traced.stores {program : Program} (hprogram : env.index.program? m = some program)
    (honce : program.ExportsOnce) {v : Value} {fs : Frames} {frozen : Nat → Prop}
    (h : Traced env m (.ok v) fs frozen) :
    ∃ k fields, v = .map fields ∧
      Stores env k m program.exportTargets program.exportedDeclarators [] fields := by
  obtain @⟨_, k, a, _, s, _, _, known, run, finished, -⟩ := h
  have hexports : (evaluateExports (evaluate k) m : Eval Value) env (a.exporting m).session =
      exportStatements (evaluate k) m (.map []) program.body env (a.exporting m).session := by
    obtain ⟨sourceModule, hmodule, hscript⟩ := Option.bind_eq_some_iff.mp hprogram
    have hindex : Eval.index env (a.exporting m).session =
        (.ok env.index, (a.exporting m).session) := rfl
    rw [evaluateExports, Eval.run_bind_ok hindex]
    simp only [hmodule]
    cases hsource : sourceModule.source with
    | json value => simp [SourceModule.program?, hsource] at hscript
    | script program' =>
      simp only [SourceModule.program?, hsource, Option.some.injEq] at hscript
      rw [hscript]
  have ha : (a.exporting m).Remembers (Traced env) :=
    Side.Remembers.of_keeps known (Traced.lasting env) ⟨rfl, fun _ hid => ⟨hid, rfl⟩⟩
  have hmoment : Moment env ⟨a.exporting m, a.exporting m, fun _ _ => False⟩ := ⟨rfl, ha.valid ha⟩
  exact ⟨k, stores_exportStatements hmoment (Value.similar_map_iff.mpr .nil)
    (hexports.symm.trans run) finished.clean honce.exported honce.not_whole⟩

end Pass

/-! ### Importing and looking up -/

section Lookup

variable {env : Environment} {program : Program} {m : ModuleId} {name : String}

/-- **Looking a name up gives what its declarator gave**, whatever else is remembered by then. -/
theorem Declares.lookup {k : Nat} {d : Declarator} {x : Value} (h : Declares env k m d name x)
    (hprogram : env.index.program? m = some program) (honce : program.names.Nodup)
    (hd : d ∈ program.exportedDeclarators) (hname : d.binding = .ident name)
    (hconstant : constant? name = none) {b : Side} (hb : b.Remembers (Traced env))
    (hidle : b.session.resolving = [])
    (hclean : (Eval.lookup m name none env b.session).2.log.Clean Hindrance) :
    ∃ y, (Eval.lookup m name none env b.session).1 = .ok y ∧ x.SameForm y := by
  obtain ⟨a, s, ha, hdeclared, hs⟩ := h
  have horigin : origin? program name = some (.declarator d) :=
    origin?_of_mem_binders honce (Program.mem_binders_of_exported hd)
      (by simp [Origin.binds, hname, Binding.binds])
  have hrun : Eval.lookup m name none env b.session = Eval.whileResolving (m, name)
      (declared (evaluate env.index.contexts) m d name) env b.session :=
    run_lookup_of_origin hprogram horigin hconstant (hidle ▸ List.not_mem_nil)
  have hends := (request_ends env (.lookup m name none) b.session).1
  change (Eval.lookup m name none env b.session).1 ≠ _ at hends
  rw [hrun] at hends hclean ⊢
  have hinside : (b.resolving (m, name)).Remembers (Traced env) :=
    hb.of_keeps (Traced.lasting env) ⟨rfl, fun _ hid => ⟨hid, rfl⟩⟩
  have hsim := (unhindered_evaluators env k env.index.contexts).declared (m := m) trivial
    (ha.valid hinside) d name
  have hfinished : Finished Hindrance (declared (evaluate k) m d name env a.session) := by
    rw [hdeclared]
    exact ⟨by simp, hs⟩
  obtain ⟨w, -, -, -, -, houtcome⟩ := hsim hfinished ⟨hends, hclean⟩
  dsimp only at houtcome
  rw [hdeclared] at houtcome
  generalize hresult : (declared (evaluate env.index.contexts) m d name env
    (b.resolving (m, name)).session).1 = result at houtcome
  cases houtcome with
  | @ok _ y hsimilar => exact ⟨y, hresult, hsimilar.sameForm⟩

end Lookup

section Requests

variable {env : Environment} {program : Program} {m : ModuleId}

/-- A log without a hindrance. -/
def Log.Unhindered (log : Log) : Prop := ∀ message, Hindrance message → ¬log.Has message

theorem Log.unhindered_of_empty {log : Log} (h : log.entries = #[]) : log.Unhindered := by
  rintro message - ⟨entry, hentry, -⟩
  simp [h] at hentry

/-- The exports of a module, asked for after requests to a new session. -/
def exportsAfter (env : Environment) (log : Log) (requests : List Request) (m : ModuleId) :
    Except Stop Value × Session :=
  exportsOf (evaluate env.index.contexts) m env ((Session.start log).after env requests)

/-- A top-level name of a module, looked up after requests to a new session. -/
def lookupAfter (env : Environment) (log : Log) (requests : List Request) (m : ModuleId)
    (name : String) : Except Stop Value × Session :=
  Eval.lookup m name none env ((Session.start log).after env requests)

instance Eval.Grows.exportsOf {ev : Evaluator Session} [∀ goal, Eval.Grows env (ev goal)] :
    Eval.Grows env (exportsOf ev m) :=
  ⟨fun s => Eval.Grows.evaluators.exportsOf (t := s) m⟩

theorem exportsOf_ignoresLog (k : Nat) (s : Session) :
    Eval.IgnoresLog env (exportsOf (evaluate k) m) s := by
  have hev : (ignoresLog env).Evaluators k (evaluate k) (evaluate k) := by
    simpa using Logic.evaluate (L := ignoresLog env) (j := 0) (fun _ _ _ => .stop _) k
  exact ignoresLog_holds.mp (hev.exportsOf (t := s) m)

theorem Session.quiet_after {s t : Session} (h : s.quiet = t.quiet) (requests : List Request) :
    (s.after env requests).quiet = (t.after env requests).quiet := by
  induction requests generalizing s t with
  | nil => exact h
  | cons r requests ih => exact ih (request_sameButLog env r h).2

/-- What the log of a session says goes for what comes before. -/
theorem Log.Unhindered.clean {requests : List Request} {α : Type} {x : Eval α}
    [hx : Eval.Grows env x]
    (h : (x env ((Session.start (.empty true)).after env requests)).2.log.Unhindered) :
    (x env ((Session.start (.empty true)).after env requests)).2.log.Clean Hindrance ∧
      ((Session.start (.empty true)).after env requests).log.Clean Hindrance := by
  have hgrows := hx.log ((Session.start (.empty true)).after env requests)
  have hverbose : ((Session.start (.empty true)).after env requests).log.verbose = true :=
    (Session.grows_after _ requests).verbose
  have hclean : (x env ((Session.start (.empty true)).after env requests)).2.log.Clean Hindrance :=
    ⟨hgrows.verbose.trans hverbose, h⟩
  exact ⟨hclean, hclean.of_grows hgrows⟩

/-- **What is exported by a declaration can be imported, if it is a plain name.** Take a module that
declares and exports each name at most once and does not replace its exports as a whole, and let its
exports be evaluated, after any requests at top level, to a value and without a hindrance. Then they
are a mapping, and a name of an exported declarator is a key of it exactly if it is the plain name
of a variable or of a function; the names of patterns are no keys. Unless it is a constant of the
language, looking such a key up in the module, after any other requests, gives a value that is of
the same kind and printed in the same way, if nothing hinders that. -/
theorem exported_declaration_is_key_iff_plain
    (hprogram : env.index.program? m = some program) (honce : program.ExportsOnce)
    {requests : List Request} (htop : ∀ r ∈ requests, r.IsTopLevel)
    (hfree : (exportsAfter env (.empty true) requests m).2.log.Unhindered) {log : Log} {v : Value}
    (hv : (exportsAfter env log requests m).1 = .ok v) :
    ∃ fields, v = .map fields ∧
      ∀ d ∈ program.exportedDeclarators, ∀ name ∈ d.binding.names,
        ((lookupKey? name fields).isSome ↔ d.binding = .ident name) ∧
        ∀ x, lookupKey? name fields = some x → constant? name = none →
          ∀ before : List Request, (∀ r ∈ before, r.IsTopLevel) →
            (lookupAfter env (.empty true) before m name).2.log.Unhindered →
            ∀ log', ∃ y, (lookupAfter env log' before m name).1 = .ok y ∧ x.SameForm y := by
  have hquiet (log : Log) (requests : List Request) :
      ((Session.start log).after env requests).quiet =
        ((Session.start (.empty true)).after env requests).quiet :=
    Session.quiet_after (Session.quiet_start log (.empty true)) requests
  obtain ⟨hclean, hcleanBefore⟩ := hfree.clean
  obtain ⟨a, hsession, ha, -⟩ := exists_traced_after htop hcleanBefore
  have hv' : (exportsOf (evaluate env.index.contexts) m env a.session).1 = .ok v := by
    rw [hsession, ← hv]
    exact ((exportsOf_ignoresLog _ _).sameButLog (hquiet log requests)).1.symm
  rw [← hsession] at hclean
  -- Whether the exports were remembered or are evaluated now, there is a trace of them.
  obtain ⟨b, -, -, -, htraced⟩ := ha.traced_exportsOf ⟨by rw [hv']; exact nofun, hclean⟩
  rw [hv'] at htraced
  obtain ⟨k, fields, rfl, hstores⟩ := htraced.stores hprogram honce
  have hplain {d : Declarator} (hd : d ∈ program.exportedDeclarators) {name : String}
      (hname : name ∈ d.binding.names) :
      (lookupKey? name fields).isSome ↔ d.binding = .ident name := by
    constructor
    · intro hsome
      by_contra hne
      rw [hstores.pattern d hd name hname hne] at hsome
      cases hsome
    · intro hbinding
      obtain ⟨x, -, hx⟩ := hstores.plain d hd name hbinding
      rw [hx]
      rfl
  refine ⟨fields, rfl, fun d hd name hname => ⟨hplain hd hname, ?_⟩⟩
  intro x hx hconstant before hbefore hlookup log'
  have hbinding : d.binding = .ident name := (hplain hd hname).mp (by rw [hx]; rfl)
  obtain ⟨x', hdeclares, hx'⟩ := hstores.plain d hd name hbinding
  obtain rfl : x' = x := Option.some.inj (hx'.symm.trans hx)
  obtain ⟨hcleanLookup, hcleanBefore'⟩ := hlookup.clean (x := (Request.lookup m name none).run)
  obtain ⟨c, hsession', hc, hidle⟩ := exists_traced_after hbefore hcleanBefore'
  rw [← hsession'] at hcleanLookup
  obtain ⟨y, hy, hsame⟩ := hdeclares.lookup hprogram honce.declared hd hbinding hconstant hc hidle
    hcleanLookup
  refine ⟨y, ?_, hsame⟩
  rw [← hy, hsession']
  exact (request_sameButLog env (.lookup m name none) (hquiet log' before)).1

end Requests

/-- Variables, a function and a pattern are exported. The exports are evaluated first of all, and
the name is looked up after the function and what it calls. -/
theorem exported_size_is_key :
    let fs : FileSystem :=
      { nodes := [(["base.js"], .file "export const base = 41;")], workingDirectory := [] }
    let entry := "import \x7b base \x7d from './base';\n" ++
      "export const size = base + 1, scale = n => [n, size];\n" ++
      "export function twice(n) \x7b return scale(scale(n)); \x7d\n" ++
      "export const \x7b low = size, high \x7d = \x7b high: twice(3) \x7d;\n"
    let before : List Request := [.lookup 0 "twice" none, .lookup 0 "high" none]
    let shown := "\x7b size: 42, scale: [Function (anonymous)], twice: [Function: twice] \x7d"
    ∃ index log, ModuleIndex.ofText fs entry "model.js" (.empty true) = .ok (index, log) ∧
      ∃ fields x y, (exportsAfter ⟨index, .standard⟩ log [] 0).1 = .ok (.map fields) ∧
        (Value.map fields).print = shown ∧ lookupKey? "size" fields = some x ∧
        (lookupAfter ⟨index, .standard⟩ log before 0 "size").1 = .ok y ∧ x.SameForm y ∧
        y.print = "42" := by
  intro fs entry before shown
  have hfacts : ((ModuleIndex.ofText fs entry "model.js" (.empty true)).toOption.any fun indexed =>
      let env : Environment := ⟨indexed.1, .standard⟩
      (env.index.program? 0).any fun program =>
        (exportsAfter env indexed.2 [] 0).1.toOption.any fun v =>
          decide (program.ExportsOnce ∧
            (exportsAfter env (.empty true) [] 0).2.log.entries = #[] ∧
            (lookupAfter env (.empty true) before 0 "size").2.log.entries = #[] ∧
            v.print = shown ∧ (v.field? "size").map Value.print = some "42") &&
          program.exportedDeclarators.any fun d => d.binding.names.contains "size") = true := by
    decide +kernel
  obtain ⟨indexed, hindexed, hfacts⟩ := (Option.any_eq_true _ _).mp hfacts
  obtain ⟨program, hprogram, hfacts⟩ := (Option.any_eq_true _ _).mp hfacts
  obtain ⟨v, hv, hfacts⟩ := (Option.any_eq_true _ _).mp hfacts
  obtain ⟨hfacts, hdeclared⟩ := (Bool.and_eq_true _ _).mp hfacts
  obtain ⟨honce, hexports, hlookup, hshown, hsize⟩ := of_decide_eq_true hfacts
  obtain ⟨d, hd, hname⟩ := List.any_eq_true.mp hdeclared
  obtain ⟨fields, rfl, hkeys⟩ := exported_declaration_is_key_iff_plain hprogram honce
    (by simp) (Log.unhindered_of_empty hexports) (eq_ok_of_toOption hv)
  obtain ⟨x, hx, hprint⟩ := Option.map_eq_some_iff.mp hsize
  obtain ⟨y, hy, hsame⟩ := (hkeys d hd "size" (List.contains_iff_mem.mp hname)).2 x hx (by decide)
    before (by decide) (Log.unhindered_of_empty hlookup) indexed.2
  exact ⟨indexed.1, indexed.2, eq_ok_of_toOption hindexed, fields, x, y, eq_ok_of_toOption hv,
    hshown, hx, hy, hsame, hsame.2.symm.trans hprint⟩

/-- The name of an exported pattern can be looked up, but it is no key of the exports. -/
theorem exported_pattern_is_no_key :
    let text := "export const \x7b a \x7d = \x7b a: 1 \x7d;\n"
    ∃ parsed, ParsedSource.ofText text "model.js" = .ok parsed ∧
      let env := environmentOfFile parsed
      let exports := exportsAfter env (.empty true) [] 0
      let found := lookupAfter env (.empty true) [] 0 "a"
      parsed.program.ExportsOnce ∧
        (∃ d ∈ parsed.program.exportedDeclarators, "a" ∈ d.binding.names) ∧
        exports.2.log.Unhindered ∧ found.2.log.Unhindered ∧
        (∃ v, exports.1 = .ok v ∧ v.print = "\x7b\x7d" ∧ v.field? "a" = none) ∧
        ∃ v, found.1 = .ok v ∧ v.print = "1" := by
  intro text
  have hfacts : ((ParsedSource.ofText text "model.js").toOption.any fun parsed =>
      let exports := exportsAfter (environmentOfFile parsed) (.empty true) [] 0
      let found := lookupAfter (environmentOfFile parsed) (.empty true) [] 0 "a"
      decide (parsed.program.ExportsOnce ∧
        (∃ d ∈ parsed.program.exportedDeclarators, "a" ∈ d.binding.names) ∧
        exports.2.log.entries = #[] ∧ found.2.log.entries = #[]) &&
      (exports.1.toOption.any fun v => v.print == "\x7b\x7d" && (v.field? "a").isNone) &&
      found.1.toOption.any (·.print == "1")) = true := by decide +kernel
  obtain ⟨parsed, hparsed, hfacts⟩ := (Option.any_eq_true _ _).mp hfacts
  simp only [Bool.and_eq_true, decide_eq_true_eq] at hfacts
  obtain ⟨⟨⟨honce, hdeclared, hexports, hfound⟩, hkey⟩, hvalue⟩ := hfacts
  obtain ⟨u, hu, hkey⟩ := (Option.any_eq_true _ _).mp hkey
  obtain ⟨hempty, hkey⟩ := (Bool.and_eq_true _ _).mp hkey
  obtain ⟨v, hv, hprint⟩ := (Option.any_eq_true _ _).mp hvalue
  exact ⟨parsed, eq_ok_of_toOption hparsed, honce, hdeclared, Log.unhindered_of_empty hexports,
    Log.unhindered_of_empty hfound,
    ⟨u, eq_ok_of_toOption hu, beq_iff_eq.mp hempty, Option.isNone_iff_eq_none.mp hkey⟩, v,
    eq_ok_of_toOption hv, beq_iff_eq.mp hprint⟩

end SchemaDoc
