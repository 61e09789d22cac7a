import SchemaDoc.Proofs.Definitions

/-!
# What a name is bound to

There are two ways to find out what a top-level name of a program is bound to. Evaluation takes the
first binder of the name, whatever it is: a variable, a pattern or an import. The search for
definitions takes the first variable of that name that has an initializer, and passes over
everything else. Names may be bound more than once, so the two need not find the same.

Both are searches in one list, that of all binders of the program in order (`origin?_eq_find?` and
`declaredInit?_eq_findSome?`). So they agree unless a binder comes before that gives the name no
initializer (`BoundBefore`), and if there is one, evaluation follows it.
-/

namespace SchemaDoc

open Evaluate
open Document (run_lookup_of_origin)

/-! ### Binders -/

/-- The binders of a statement. -/
def Statement.binders (s : Statement) : List Origin :=
  match s.kind with
  | .declare _ ds => ds.map .declarator
  | .imports source bindings => bindings.map (.imported source)
  | _ => []

/-- The binders of a program, in order. -/
def Program.binders (p : Program) : List Origin := p.body.flatMap Statement.binders

namespace Evaluate.Origin

/-- Whether a binder binds a name. -/
def binds (name : String) : Origin → Bool
  | .declarator d => d.binding.binds name
  | .imported _ binding => binding.localName == name

/-- The initializer that a binder gives a name. -/
def init? (name : String) : Origin → Option Expr
  | .declarator d => Program.initOf? name d
  | .imported _ _ => none

/-- Only a variable has an initializer. -/
theorem init?_eq_some_iff {name : String} {binder : Origin} {e : Expr} :
    binder.init? name = some e ↔ binder = .declarator (.mk (.ident name) (some e)) := by
  constructor
  · intro h
    rcases binder with ⟨binding, init⟩ | ⟨source, binding⟩
    · cases binding with
      | ident other =>
        simp only [init?, Program.initOf?, Declarator.binding, Declarator.init] at h
        split at h
        next hname =>
          obtain rfl := beq_iff_eq.mp hname
          rw [h]
        next => cases h
      | _ => cases h
    · cases h
  · rintro rfl
    simp [init?, Program.initOf?, Declarator.binding, Declarator.init]

theorem binds_of_init? {name : String} {binder : Origin} {e : Expr}
    (h : binder.init? name = some e) : binder.binds name = true := by
  rw [init?_eq_some_iff] at h
  subst h
  exact beq_self_eq_true name

end Evaluate.Origin

/-- Evaluation takes the first binder of a name. -/
theorem origin?_eq_find? (p : Program) (name : String) :
    origin? p name = p.binders.find? (·.binds name) := by
  rw [origin?, Program.binders, List.find?_flatMap]
  congr 1
  funext s
  cases hkind : s.kind <;> simp only [originIn?, Statement.binders, hkind, List.find?_map] <;> rfl

/-- The search for definitions takes the first initializer. -/
theorem declaredInit?_eq_findSome? (p : Program) (name : String) :
    p.declaredInit? name = p.binders.findSome? (·.init? name) := by
  rw [Program.declaredInit?, Program.binders]
  induction p.body with
  | nil => rfl
  | cons s body ih =>
    rw [List.findSome?_cons, List.flatMap_cons, List.findSome?_append, ih]
    cases hkind : s.kind with
    | declare exported ds =>
      simp only [Statement.binders, hkind, List.findSome?_map]
      change _ = (ds.findSome? (Program.initOf? name)).or _
      cases ds.findSome? (Program.initOf? name) <;> rfl
    | imports source bindings =>
      have hnone : (bindings.map (Origin.imported source)).findSome? (·.init? name) = none := by
        simp [Origin.init?]
      simp only [Statement.binders, hkind, hnone, Option.none_or]
    | _ =>
      simp only [Statement.binders, hkind]
      rfl

/-! ### Which binder comes first -/

/-- A name is bound before it is given an initializer. -/
def BoundBefore (binders : List Origin) (name : String) : Prop :=
  ∃ binder ∈ binders.takeWhile fun binder => (binder.init? name).isNone, binder.binds name = true

instance (binders : List Origin) (name : String) : Decidable (BoundBefore binders name) :=
  inferInstanceAs (Decidable (∃ binder ∈ List.takeWhile _ _, _))

/-- **The first binder of a name** is the one that has its initializer, unless the name is bound
before that. -/
theorem first_binder {binders : List Origin} {name : String} {e : Expr}
    (h : binders.findSome? (·.init? name) = some e) :
    ∃ binder, binders.find? (·.binds name) = some binder ∧
      (BoundBefore binders name → binder.init? name = none) ∧
      (¬BoundBefore binders name → binder.init? name = some e) := by
  unfold BoundBefore
  induction binders with
  | nil => cases h
  | cons binder binders ih =>
    rw [List.findSome?_cons] at h
    rw [List.find?_cons, List.takeWhile_cons]
    cases hinit : binder.init? name with
    | some e' =>
      rw [hinit] at h
      obtain rfl := Option.some.inj h
      rw [Origin.binds_of_init? hinit]
      exact ⟨binder, rfl, by simp, fun _ => hinit⟩
    | none =>
      rw [hinit] at h
      cases hbinds : binder.binds name with
      | true => exact ⟨binder, rfl, fun _ => hinit, by simp [hbinds]⟩
      | false => simpa [hbinds] using ih h

/-! ### Looking a name up -/

section Lookup

variable {env : Environment} {program : Program} {m : ModuleId} {name : String} {s : Session}

/-- While a name is being resolved, one context less is enough. -/
theorem run_expr_while_resolving (hintroduces : env.index.Introduces m name)
    (hfree : (m, name) ∉ s.resolving) (e : Expr) :
    Eval.whileResolving (m, name) (evaluate env.index.contexts (.expr m e none)) env s =
      Eval.whileResolving (m, name) (Eval.expr m e none) env s := by
  let inner : Session := { s with resolving := (m, name) :: s.resolving }
  have hroom : env.index.room inner < env.index.contexts := by
    have hlt : env.index.room inner < env.index.room s :=
      ModuleIndex.room_resolving hintroduces hfree
    have hle := env.index.room_le s
    have hle' := env.index.distinctContexts_le
    omega
  have hmore := evaluate_add (evaluate_ends hroom (.expr m e none)).1 1
  have hrun : Eval.expr m e none env inner =
      evaluate env.index.contexts (.expr m e none) env inner := by
    rw [Nat.add_comm] at hmore
    exact hmore
  simp only [Eval.whileResolving, Eval.run_bracket]
  rw [show Eval.expr m e none env (Store.update _ s) = _ from hrun]
  rfl

/-- **Looking a name up follows its first binder.** Take a program, with names bound as often as one
likes, and a name that is no constant and is not being resolved, and whose first initializer is `e`.
Looking the name up does the same as evaluating `e` while the name is being resolved, unless the
name is bound before: by a variable without an initializer, by a pattern or by an import. Then that
binder is followed; so a name that is first declared without an initializer is unknown, whatever `e`
is. -/
theorem lookup_evaluates_initializer_unless_bound_before
    (hprogram : env.index.program? m = some program) (hconstant : constant? name = none) {e : Expr}
    (hinit : program.declaredInit? name = some e) (hfree : (m, name) ∉ s.resolving) :
    (¬BoundBefore program.binders name →
      Eval.lookup m name none env s =
        Eval.whileResolving (m, name) (Eval.expr m e none) env s) ∧
    (BoundBefore program.binders name → ∃ binder,
      program.binders.find? (·.binds name) = some binder ∧ binder.init? name = none ∧
        Eval.lookup m name none env s = Eval.whileResolving (m, name)
          (ofOrigin (evaluate env.index.contexts) m name binder) env s ∧
        (binder = .declarator (.mk (.ident name) none) →
          Eval.lookup m name none env s = (.ok .unknown, s))) := by
  rw [declaredInit?_eq_findSome?] at hinit
  obtain ⟨binder, hbinder, hbefore, hnot⟩ := first_binder hinit
  have horigin : origin? program name = some binder := (origin?_eq_find? program name).trans hbinder
  have hrun : Eval.lookup m name none env s = Eval.whileResolving (m, name)
      (ofOrigin (evaluate env.index.contexts) m name binder) env s :=
    run_lookup_of_origin hprogram horigin hconstant hfree
  constructor
  · intro h
    obtain rfl := Origin.init?_eq_some_iff.mp (hnot h)
    have hintroduces : env.index.Introduces m name := ⟨program, hprogram, by rw [horigin]; rfl⟩
    rw [hrun, ← run_expr_while_resolving hintroduces hfree]
    have hdeclared : (ofOrigin (evaluate env.index.contexts) m name
        (.declarator (.mk (.ident name) (some e))) : Eval Value) =
          evaluate env.index.contexts (.expr m e none) := bind_pure _
    rw [hdeclared]
  · intro h
    refine ⟨binder, hbinder, hbefore h, hrun, ?_⟩
    rintro rfl
    exact hrun

end Lookup

/-- A file on its own. -/
def environmentOfFile (parsed : ParsedSource) : Environment :=
  ⟨⟨[⟨"model.js", .script parsed.program⟩], []⟩, .standard⟩

/-- A name that is bound three times, first by a variable with an initializer. -/
theorem redeclared_name_is_its_first_initializer :
    let text := "var x = y + 1;\nvar \x7b y, x \x7d = \x7b y: 2, x: 7 \x7d;\nvar x;\nvar x = 9;\n"
    ∃ parsed, ParsedSource.ofText text "model.js" = .ok parsed ∧
      let env := environmentOfFile parsed
      let s := Session.start (.empty true)
      ∃ e v s', parsed.program.declaredInit? "x" = some e ∧
        ¬BoundBefore parsed.program.binders "x" ∧
        Eval.lookup 0 "x" none env s = (.ok v, s') ∧
        Eval.whileResolving (0, "x") (Eval.expr 0 e none) env s = (.ok v, s') ∧ v.print = "3" := by
  intro text
  have hfacts : ((ParsedSource.ofText text "model.js").toOption.any fun parsed =>
      (parsed.program.declaredInit? "x").isSome &&
        !decide (BoundBefore parsed.program.binders "x") &&
        (Eval.lookup 0 "x" none (environmentOfFile parsed)
          (Session.start (.empty true))).1.toOption.any (·.print == "3")) = true := by
    decide +kernel
  obtain ⟨parsed, hparsed, hfacts⟩ := (Option.any_eq_true _ _).mp hfacts
  simp only [Bool.and_eq_true, Bool.not_eq_true', decide_eq_false_iff_not] at hfacts
  obtain ⟨⟨hinit, hnot⟩, hvalue⟩ := hfacts
  obtain ⟨e, hinit⟩ := Option.isSome_iff_exists.mp hinit
  obtain ⟨v, hrun, hprint⟩ := (Option.any_eq_true _ _).mp hvalue
  let env := environmentOfFile parsed
  let s := Session.start (.empty true)
  have hlookup : Eval.lookup 0 "x" none env s = (.ok v, (Eval.lookup 0 "x" none env s).2) :=
    Prod.ext (eq_ok_of_toOption hrun) rfl
  have hprogram : env.index.program? 0 = some parsed.program := rfl
  have hfree : (0, "x") ∉ s.resolving := List.not_mem_nil
  have hsame := (lookup_evaluates_initializer_unless_bound_before hprogram (by decide) hinit
    hfree).1 hnot
  exact ⟨parsed, eq_ok_of_toOption hparsed, e, v, _, hinit, hnot, hlookup, hsame.symm.trans hlookup,
    beq_iff_eq.mp hprint⟩

/-- A variable that is declared first and initialized later. -/
theorem name_declared_before_its_initializer :
    let text := "var x;\nvar x = 1;\n"
    ∃ parsed, ParsedSource.ofText text "model.js" = .ok parsed ∧
      let env := environmentOfFile parsed
      let s := Session.start (.empty true)
      ∃ e, parsed.program.declaredInit? "x" = some e ∧
        (Eval.lookup 0 "x" none env s).1 = .ok .unknown ∧
        ∃ v, (Eval.whileResolving (0, "x") (Eval.expr 0 e none) env s).1 = .ok v ∧
          v.print = "1" := by
  intro text
  have hfacts : ((ParsedSource.ofText text "model.js").toOption.any fun parsed =>
      (parsed.program.declaredInit? "x").any fun e =>
        (Eval.lookup 0 "x" none (environmentOfFile parsed)
          (Session.start (.empty true))).1.toOption.any Value.isUnknown &&
        (Eval.whileResolving (0, "x") (Eval.expr 0 e none) (environmentOfFile parsed)
          (Session.start (.empty true))).1.toOption.any (·.print == "1")) = true := by
    decide +kernel
  obtain ⟨parsed, hparsed, hfacts⟩ := (Option.any_eq_true _ _).mp hfacts
  obtain ⟨e, hinit, hfacts⟩ := (Option.any_eq_true _ _).mp hfacts
  obtain ⟨hlookup, hvalue⟩ := (Bool.and_eq_true _ _).mp hfacts
  obtain ⟨u, hrun, hunknown⟩ := (Option.any_eq_true _ _).mp hlookup
  obtain ⟨v, hrun', hprint⟩ := (Option.any_eq_true _ _).mp hvalue
  obtain rfl : u = .unknown := by
    cases u with
    | unknown => rfl
    | _ => cases hunknown
  exact ⟨parsed, eq_ok_of_toOption hparsed, e, hinit, eq_ok_of_toOption hrun, v,
    eq_ok_of_toOption hrun', beq_iff_eq.mp hprint⟩

end SchemaDoc
