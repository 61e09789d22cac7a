import SchemaDoc.Resolve.Evaluate

/-!
# The rules of evaluation

Most of what can be said about every evaluation is said in the same way: some relation between two
computations, over two stores, is respected by everything that evaluation is built from. This file
says once what that is. A `Logic` is a relation with a rule for every building block: for going on
after a result, for a question about the session, for each of the changes of the session, and for
each of the three contexts that evaluation enters. `Logic.evaluate` then gives the relation for
every evaluation.

Four points of the rules are not what one would write down first.

* **The rules know what was asked.** A name is only marked as being resolved after it was found not
  to be, and the same goes for modules and for the two limits on calls. So the relation is one at two
  given stores, and the rules for these changes have the answer to the question as a premise.
* **A frame has an owner.** Names are only bound in the frame of a function that is being called,
  which is one that did not exist before the call. `Logic.Own` is the set of frames that may be bound
  in; a new frame always belongs to it.
* **Contexts have levels.** A computation inside a context is one level below the context, which is
  what bounds how deeply contexts nest. A relation that has nothing to do with nesting ignores the
  level.
* **No text is read.** Evaluation asks the index for the statements of a module and never for its
  text, which is what the premises of `Logic.index` say.
-/

namespace SchemaDoc

/-- Whether a module of an index introduces a name at top level. -/
def ModuleIndex.Introduces (index : ModuleIndex) (m : ModuleId) (name : String) : Prop :=
  ∃ program, index.program? m = some program ∧ (Evaluate.origin? program name).isSome

/-! ### An index without texts -/

/-- A program without its text. -/
def Program.textless (p : Program) : Program := { p with source := "" }

/-- A module without its text. -/
def SourceModule.textless (m : SourceModule) : SourceModule :=
  match m.source with
  | .script program => { m with source := .script program.textless }
  | .json _ => m

namespace ModuleIndex

/-- An index without the texts of its modules. -/
def textless (index : ModuleIndex) : ModuleIndex :=
  { index with modules := index.modules.map SourceModule.textless }

theorem module?_textless (index : ModuleIndex) (m : ModuleId) :
    index.textless.module? m = (index.module? m).map SourceModule.textless := List.getElem?_map

theorem program?_textlessModule (m : SourceModule) : m.textless.program? = m.program?.map Program.textless := by
  obtain ⟨path, source⟩ := m
  cases source <;> rfl

theorem program?_textless (index : ModuleIndex) (m : ModuleId) :
    index.textless.program? m = (index.program? m).map Program.textless := by
  rw [program?, module?_textless, program?]
  cases index.module? m with
  | none => rfl
  | some sourceModule => exact program?_textlessModule sourceModule

theorem path_textless (index : ModuleIndex) (m : ModuleId) : index.textless.path m = index.path m := by
  rw [path, module?_textless, path]
  cases index.module? m with
  | none => rfl
  | some sourceModule =>
    obtain ⟨path, source⟩ := sourceModule
    cases source <;> rfl

theorem contexts_textless (index : ModuleIndex) : index.textless.contexts = index.contexts := by
  have hnames (m : SourceModule) :
      m.textless.program?.map Program.names = m.program?.map Program.names := by
    rw [program?_textlessModule, Option.map_map]
    rfl
  simp only [contexts, names, textless, List.length_map, List.zipIdx_map, List.flatMap_map, Prod.map,
    hnames, id]

end ModuleIndex

/-- **A logic of evaluation**: a relation between computations over two stores, with a rule for
everything that evaluation is built from. -/
structure Logic (σ τ : Type) [Store σ] [Store τ] (env : Environment) where
  /-- The frames that names may be bound in. -/
  Own : Nat → Prop
  /-- The relation between two computations, at a level and at two stores. -/
  Holds : {α : Type} → Nat → EvalOver σ α → EvalOver τ α → σ → τ → Prop
  pure : ∀ {α : Type} {k : Nat} {s : σ} {t : τ} (a : α), Holds k (pure a) (pure a) s t
  bind : ∀ {α β : Type} {k : Nat} {x : EvalOver σ α} {y : EvalOver τ α} {f : α → EvalOver σ β}
    {g : α → EvalOver τ β} {s : σ} {t : τ}, Holds k x y s t →
    (∀ a s t, Holds k (f a) (g a) s t) → Holds k (x >>= f) (y >>= g) s t
  /-- Levels are bounds, and a computation that stays below a bound stays below a smaller one at
  the stores that are left for that. -/
  lower : ∀ {α : Type} {k : Nat} {x : EvalOver σ α} {y : EvalOver τ α} {s : σ} {t : τ},
    Holds (k + 1) x y s t → Holds k x y s t
  /-- A question about the index that is not about the texts of its modules. -/
  index : ∀ {α : Type} {k : Nat} {f : ModuleIndex → EvalOver σ α} {g : ModuleIndex → EvalOver τ α}
    {s : σ} {t : τ}, (∀ index, f index.textless = f index) → (∀ index, g index.textless = g index) →
    Holds k (f env.index) (g env.index) s t → Holds k (Eval.index >>= f) (Eval.index >>= g) s t
  config : ∀ {α : Type} {k : Nat} {f : Config → EvalOver σ α} {g : Config → EvalOver τ α}
    {s : σ} {t : τ}, Holds k (f env.config) (g env.config) s t →
    Holds k (Eval.config >>= f) (Eval.config >>= g) s t
  /-- A question whose answer does not depend on the log. -/
  asks : ∀ {α β : Type} {k : Nat} {question : Session → α} {f : α → EvalOver σ β}
    {g : α → EvalOver τ β} {s : σ} {t : τ},
    (∀ (session : Session) log, question { session with log } = question session) →
    Holds k (f (question (Store.session s))) (g (question (Store.session s))) s t →
    Holds k (Eval.asks question >>= f) (Eval.asks question >>= g) s t
  /-- The one error: the value of a module is needed that could not be loaded. -/
  fail : ∀ {α : Type} {k : Nat} {m : ModuleId} {specifier : String} {reason : LoadFailure}
    {s : σ} {t : τ}, env.index.link? m specifier = some (.failed reason) →
    Holds k (Eval.fail (.moduleLoad specifier (env.index.path m) reason) : EvalOver σ α)
      (Eval.fail (.moduleLoad specifier (env.index.path m) reason)) s t
  warn : ∀ {k : Nat} {s : σ} {t : τ} (message : String),
    Holds k (Eval.warn message) (Eval.warn message) s t
  newScope : ∀ {α : Type} {k : Nat} {parent : Scope} {f : Scope → EvalOver σ α}
    {g : Scope → EvalOver τ α} {s : σ} {t : τ},
    (∀ id s t, Own id → Holds k (f (some id)) (g (some id)) s t) →
    Holds k (Eval.newScope parent >>= f) (Eval.newScope parent >>= g) s t
  bindName : ∀ {k : Nat} {id : Nat} {s : σ} {t : τ} (name : String) (value : Value), Own id →
    Holds k (Eval.bindName (some id) name value) (Eval.bindName (some id) name value) s t
  countCall : ∀ {k : Nat} {s : σ} {t : τ}, (Store.session s).calls < Evaluate.callLimit →
    Holds k Eval.countCall Eval.countCall s t
  calling : ∀ {α : Type} {k : Nat} {x : EvalOver σ α} {y : EvalOver τ α} {s : σ} {t : τ},
    (Store.session s).callDepth < Evaluate.callDepthLimit → (∀ s t, Holds k x y s t) →
    Holds (k + 1) (Eval.whileCalling x) (Eval.whileCalling y) s t
  /-- A name is a context if it is introduced; looking for one that is not leads nowhere. -/
  resolving : ∀ {α : Type} {k : Nat} {m : ModuleId} {name : String} {x : EvalOver σ α}
    {y : EvalOver τ α} {s : σ} {t : τ}, (m, name) ∉ (Store.session s).resolving →
    (env.index.Introduces m name → ∀ s t, Holds k x y s t) →
    (¬env.index.Introduces m name → ∀ s t, Holds (k + 1) x y s t) →
    Holds (k + 1) (Eval.whileResolving (m, name) x) (Eval.whileResolving (m, name) y) s t
  /-- A module is a context if it is indexed. -/
  exporting : ∀ {k : Nat} {m : ModuleId} {x : EvalOver σ Value} {y : EvalOver τ Value} {s : σ}
    {t : τ}, (Store.session s).exports.lookup m = none → m ∉ (Store.session s).exporting →
    ((env.index.module? m).isSome → ∀ s t, Holds k x y s t) →
    (¬(env.index.module? m).isSome → ∀ s t, Holds (k + 1) x y s t) →
    Holds (k + 1) (Eval.remember m x) (Eval.remember m y) s t

namespace Logic

open Evaluate

variable {σ τ : Type} [Store σ] [Store τ] {env : Environment} (L : Logic σ τ env)

/-- Two evaluators whose evaluations of a goal are always related. -/
def Evaluators (k : Nat) (ev : Evaluator σ) (ev' : Evaluator τ) : Prop :=
  ∀ goal s t, L.Holds k (ev goal) (ev' goal) s t

variable {L} {k : Nat} {m : ModuleId} {s : σ} {t : τ}

theorem holds_warn_unknown (message : String) :
    L.Holds k (do Eval.warn message; return Value.unknown)
      (do Eval.warn message; return Value.unknown) s t :=
  L.bind (L.warn _) fun _ _ _ => L.pure _

namespace Evaluators

variable {ev : Evaluator σ} {ev' : Evaluator τ} (hev : L.Evaluators k ev ev')

include hev

/-! ### Inside a function -/

theorem orDefault (scope : Scope) (value : Value) (default : Option Expr) :
    L.Holds k (orDefault ev m scope value default) (orDefault ev' m scope value default) s t := by
  cases default with
  | none => exact L.pure _
  | some e =>
    simp only [Evaluate.orDefault]
    split
    · exact hev _ _ _
    · exact L.pure _

theorem initial (scope : Scope) (init : Option Expr) :
    L.Holds k (initial ev m scope init) (initial ev' m scope init) s t := by
  cases init with
  | none => exact L.pure _
  | some e => exact hev _ _ _

section Frames

variable {id : Nat} (hid : L.Own id)

include hid

theorem bindProperties (value : Value) (props : List PatternProp) :
    L.Holds k (bindProperties ev m value (some id) props)
      (bindProperties ev' m value (some id) props) s t := by
  induction props generalizing s t with
  | nil => exact L.pure _
  | cons prop props ih =>
    exact L.bind (hev.orDefault _ _ _) fun _ _ _ => L.bind (L.bindName _ _ hid) fun _ _ _ => ih

theorem bind (binding : Binding) (value : Value) :
    L.Holds k (Evaluate.bind ev m binding value (some id))
      (Evaluate.bind ev' m binding value (some id)) s t := by
  cases binding with
  | ident name => exact L.bindName _ _ hid
  | object props => exact hev.bindProperties hid _ _
  | unsupported => exact L.pure _

theorem bindParams (params : List Param) (args : List Value) :
    L.Holds k (bindParams ev m (some id) params args)
      (bindParams ev' m (some id) params args) s t := by
  induction params generalizing args s t with
  | nil => exact L.pure _
  | cons param params ih =>
    exact L.bind (hev.orDefault _ _ _) fun _ _ _ => L.bind (hev.bind hid _ _) fun _ _ _ => ih _

theorem bindDeclarators (ds : List Declarator) :
    L.Holds k (bindDeclarators ev m (some id) ds) (bindDeclarators ev' m (some id) ds) s t := by
  induction ds generalizing s t with
  | nil => exact L.pure _
  | cons d ds ih =>
    exact L.bind (hev.initial _ _) fun _ _ _ => L.bind (hev.bind hid _ _) fun _ _ _ => ih

theorem runBody (statements : List BodyStatement) :
    L.Holds k (runBody ev m (some id) statements) (runBody ev' m (some id) statements) s t := by
  induction statements generalizing s t with
  | nil => exact L.pure _
  | cons statement statements ih =>
    cases statement with
    | declare ds => exact L.bind (hev.bindDeclarators hid _) fun _ _ _ => ih
    | returns e => exact hev.initial _ _
    | other => exact L.pure _

end Frames

theorem runFunction (f : FunctionLit) (outer : Scope) (args : List Value) :
    L.Holds k (runFunction ev f m outer args) (runFunction ev' f m outer args) s t := by
  refine L.newScope fun id _ _ hid => L.bind (hev.bindParams hid _ _) fun _ _ _ => ?_
  cases f.body with
  | expr e => exact hev _ _ _
  | block statements => exact hev.runBody hid _

/-! ### Calls -/

theorem runNested (f : FunctionLit) (outer : Scope) (args : List Value) :
    L.Holds (k + 1) (runNested ev f m outer args) (runNested ev' f m outer args) s t := by
  refine L.asks (fun _ _ => rfl) ?_
  split
  · exact holds_warn_unknown _
  · exact L.calling (by omega) fun _ _ => hev.runFunction _ _ _

theorem invoke (f : FunctionLit) (outer : Scope) (args : List Value) :
    L.Holds (k + 1) (invoke ev f m outer args) (invoke ev' f m outer args) s t := by
  refine L.asks (fun _ _ => rfl) ?_
  split
  · exact holds_warn_unknown _
  · exact L.bind (L.countCall (by omega)) fun _ _ _ => hev.runNested _ _ _

/-! ### Exports -/

theorem declared (d : Declarator) (name : String) :
    L.Holds k (declared ev m d name) (declared ev' m d name) s t := by
  refine L.bind (hev.initial _ _) fun init _ _ => ?_
  cases d.binding with
  | ident _ => exact L.pure _
  | object props =>
    dsimp only
    cases props.find? (·.name == name) with
    | none => exact L.pure _
    | some prop => exact hev.orDefault _ _ _
  | unsupported => exact L.pure _

theorem exportDeclarators (exports : Value) (ds : List Declarator) :
    L.Holds k (exportDeclarators ev m exports ds) (exportDeclarators ev' m exports ds) s t := by
  induction ds generalizing exports s t with
  | nil => exact L.pure _
  | cons d ds ih =>
    simp only [Evaluate.exportDeclarators]
    cases d.binding with
    | ident name => exact L.bind (hev.declared _ _) fun _ _ _ => ih _
    | object props => exact ih _
    | unsupported => exact ih _

theorem exportNames (exports : Value) (names : List (String × String)) :
    L.Holds k (exportNames ev m exports names) (exportNames ev' m exports names) s t := by
  induction names generalizing exports s t with
  | nil => exact L.pure _
  | cons name names ih => exact L.bind (hev _ _ _) fun _ _ _ => ih _

theorem exportStatement (exports : Value) (statement : Statement) :
    L.Holds k (exportStatement ev m exports statement)
      (exportStatement ev' m exports statement) s t := by
  simp only [Evaluate.exportStatement]
  cases statement.kind with
  | declare exported ds =>
    dsimp only
    split
    · exact hev.exportDeclarators _ _
    · exact L.pure _
  | expression e =>
    dsimp only
    split
    · exact L.pure _
    · exact L.bind (hev _ _ _) fun _ _ _ => L.pure _
  | imports source bindings => exact L.pure _
  | exportDefault e => exact L.bind (hev _ _ _) fun _ _ _ => L.pure _
  | exportNames names => exact hev.exportNames _ _
  | other => exact L.pure _

theorem exportStatements (exports : Value) (statements : List Statement) :
    L.Holds k (exportStatements ev m exports statements)
      (exportStatements ev' m exports statements) s t := by
  induction statements generalizing exports s t with
  | nil => exact L.pure _
  | cons statement statements ih => exact L.bind (hev.exportStatement _ _) fun _ _ _ => ih _

omit hev [Store σ] in
/-- The exports of a module do not depend on its text. -/
theorem evaluateExports_textless (ev : Evaluator σ) (index : ModuleIndex) :
    (match index.textless.module? m with
      | none => return Value.unknown
      | some sourceModule =>
        match sourceModule.source with
        | .json value => return .ofJson value
        | .script program => Evaluate.exportStatements ev m (.map []) program.body :
      EvalOver σ Value) =
      (match index.module? m with
      | none => return Value.unknown
      | some sourceModule =>
        match sourceModule.source with
        | .json value => return .ofJson value
        | .script program => Evaluate.exportStatements ev m (.map []) program.body) := by
  rw [ModuleIndex.module?_textless]
  cases index.module? m with
  | none => rfl
  | some sourceModule =>
    obtain ⟨path, source⟩ := sourceModule
    cases source <;> rfl

theorem evaluateExports :
    L.Holds k (evaluateExports ev m) (evaluateExports ev' m) s t := by
  refine L.index (evaluateExports_textless ev) (evaluateExports_textless ev') ?_
  cases env.index.module? m with
  | none => exact L.pure _
  | some sourceModule =>
    dsimp only
    cases sourceModule.source with
    | json value => exact L.pure _
    | script program => exact hev.exportStatements _ _

omit hev in
/-- A module that is not indexed has no statements, and is no context. -/
theorem evaluateExports_of_not_indexed (h : ¬(env.index.module? m).isSome) :
    L.Holds k (Evaluate.evaluateExports ev m) (Evaluate.evaluateExports ev' m) s t := by
  refine L.index (evaluateExports_textless ev) (evaluateExports_textless ev') ?_
  rw [Option.not_isSome_iff_eq_none.mp h]
  exact L.pure _

theorem exportsOf (m : ModuleId) :
    L.Holds (k + 1) (exportsOf ev m) (exportsOf ev' m) s t := by
  refine L.asks (fun _ _ => rfl) ?_
  split
  · exact L.pure _
  next hnone =>
    refine L.asks (fun _ _ => rfl) ?_
    split
    · exact L.index (fun i => by simp only [i.path_textless]) (fun i => by simp only [i.path_textless])
        (holds_warn_unknown _)
    next hfree =>
      exact L.exporting hnone (by simpa using hfree) (fun _ _ _ => hev.evaluateExports)
        fun h _ _ => evaluateExports_of_not_indexed h

theorem require (specifier : String) :
    L.Holds (k + 1) (require ev m specifier) (require ev' m specifier) s t := by
  refine L.index (fun _ => rfl) (fun _ => rfl) ?_
  split
  · exact holds_warn_unknown _
  next reason hlink =>
    exact L.index (fun i => by simp only [i.path_textless]) (fun i => by simp only [i.path_textless])
      (L.fail hlink)
  next id hlink => exact hev.exportsOf id

/-! ### Names -/

theorem ofOrigin (name : String) (origin : Origin) :
    L.Holds k (ofOrigin ev m name origin) (ofOrigin ev' m name origin) s t := by
  cases origin with
  | declarator d => exact hev.declared _ _
  -- The import is inside the context of the name already, so one level is given away here.
  | imported source binding => exact L.bind (L.lower (hev.require _)) fun _ _ _ => L.pure _

theorem introduced? (name : String) (program : Program) :
    L.Holds k (introduced? ev m name program) (introduced? ev' m name program) s t := by
  simp only [Evaluate.introduced?]
  cases origin? program name with
  | none => exact L.pure _
  | some origin => exact L.bind (hev.ofOrigin _ _) fun _ _ _ => L.pure _

omit hev in
theorem introduced?_of_none {name : String} {program : Program}
    (h : origin? program name = none) :
    L.Holds k (Evaluate.introduced? ev m name program)
      (Evaluate.introduced? ev' m name program) s t := by
  simp only [Evaluate.introduced?, h]
  exact L.pure _

end Evaluators

theorem holds_global (name : String) :
    L.Holds k (global m name : EvalOver σ Value) (global m name) s t := by
  refine L.config ?_
  split
  · exact L.pure _
  · exact L.index (fun i => by simp only [i.path_textless]) (fun i => by simp only [i.path_textless])
      (holds_warn_unknown _)

namespace Evaluators

variable {ev : Evaluator σ} {ev' : Evaluator τ} (hev : L.Evaluators k ev ev')

include hev

theorem topLevel (name : String) :
    L.Holds (k + 1) (topLevel ev m name) (topLevel ev' m name) s t := by
  refine L.asks (fun _ _ => rfl) ?_
  split
  · exact holds_warn_unknown _
  next hfree =>
    refine L.index (fun index => ?_) (fun index => ?_) ?_
    · rw [ModuleIndex.program?_textless]
      cases index.program? m <;> rfl
    · rw [ModuleIndex.program?_textless]
      cases index.program? m <;> rfl
    split
    · exact L.pure _
    next program hprogram =>
      -- A name is a context only if the module introduces it; otherwise nothing is evaluated.
      have hnone (h : ¬env.index.Introduces m name) : origin? program name = none :=
        Option.not_isSome_iff_eq_none.mp fun hsome => h ⟨program, hprogram, hsome⟩
      refine L.bind (L.resolving (by simpa using hfree) (fun _ _ _ => hev.introduced? _ _)
        fun h _ _ => introduced?_of_none (hnone h)) fun found _ _ => ?_
      cases found with
      | none => exact holds_global _
      | some value => exact L.pure _

theorem lookup (name : String) (scope : Scope) :
    L.Holds (k + 1) (lookup ev m name scope) (lookup ev' m name scope) s t := by
  refine L.asks (fun _ _ => rfl) ?_
  split
  · exact L.pure _
  · split
    · exact L.pure _
    · exact hev.topLevel _

/-! ### Expressions -/

omit hev in
theorem warnAt (loc : Loc) (message : String) :
    L.Holds k (Evaluate.warnAt m loc message : EvalOver σ Unit) (Evaluate.warnAt m loc message)
      s t :=
  L.index (fun i => by simp only [i.path_textless]) (fun i => by simp only [i.path_textless]) (L.warn _)

omit hev in
theorem spreadFields (loc : Loc) (fields : List (String × Value)) (value : Value) :
    L.Holds k (Evaluate.spreadFields m loc fields value : EvalOver σ _)
      (Evaluate.spreadFields m loc fields value) s t := by
  cases value with
  | unknown => exact L.bind (warnAt _ _) fun _ _ _ => L.pure _
  | _ => exact L.pure _

omit hev in
theorem entryItems (kind : EntryKind) (loc : Loc) (value : Value) :
    L.Holds k (Evaluate.entryItems m kind loc value : EvalOver σ _)
      (Evaluate.entryItems m kind loc value) s t := by
  unfold Evaluate.entryItems
  split
  · exact L.pure _
  · exact L.bind (warnAt _ _) fun _ _ _ => L.pure _
  · exact L.pure _

theorem call (scope : Scope) (constructs : Bool) (callee : Expr) (args : List Expr)
    {f : EvalOver σ Value} {f' : EvalOver τ Value} {values : EvalOver σ (List Value)}
    {values' : EvalOver τ (List Value)} (hf : ∀ s t, L.Holds (k + 1) f f' s t)
    (hvalues : ∀ s t, L.Holds (k + 1) values values' s t) :
    L.Holds (k + 1) (call ev m scope constructs callee args f values)
      (call ev' m scope constructs callee args f' values') s t := by
  refine L.asks (fun _ _ => rfl) ?_
  dsimp only
  split
  · split
    · exact hev.require _
    · exact L.pure _
  -- The callee and the arguments are on the level of the call, only the body is one below.
  · refine L.bind (hf _ _) fun f _ _ => L.bind (hvalues _ _) fun args _ _ => ?_
    cases f with
    | function f fm fscope => exact hev.invoke _ _ _
    | _ => exact L.pure _

omit hev in
theorem choose (condition : Option Bool) {yes no : EvalOver σ Value} {yes' no' : EvalOver τ Value}
    (hyes : L.Holds k yes yes' s t) (hno : L.Holds k no no' s t) :
    L.Holds k (Evaluate.choose condition yes no) (Evaluate.choose condition yes' no') s t := by
  unfold Evaluate.choose
  split
  · exact hyes
  · exact hno
  · exact L.pure _

omit hev in
theorem binary (op : Script.BinaryOp) {left right : EvalOver σ Value}
    {left' right' : EvalOver τ Value} (hleft : L.Holds k left left' s t)
    (hright : ∀ s t, L.Holds k right right' s t) :
    L.Holds k (Evaluate.binary op left right) (Evaluate.binary op left' right') s t := by
  refine L.bind hleft fun a _ _ => ?_
  split
  · exact choose _ (hright _ _) (L.pure _)
  · exact choose _ (L.pure _) (hright _ _)
  · split
    · exact hright _ _
    · exact hright _ _
    · exact L.pure _
  · exact L.bind (hright _ _) fun _ _ _ => L.pure _

omit hev

-- The recursion is that of the expressions. The level stays the same all the way down: only what
-- `hev` is used for enters a context.
mutual
theorem expression (hev : L.Evaluators k ev ev') (scope : Scope) :
    ∀ (e : Expr) (s : σ) (t : τ), L.Holds (k + 1) (expression ev m scope e)
      (Evaluate.expression ev' m scope e) s t
  | .lit _ _, _, _ => L.pure _
  | .regex _ _ _, _, _ => L.pure _
  | .template _ chunks exprs, s, t => hev.template scope exprs "" chunks s t
  | .ident _ name, _, _ => hev.lookup name scope
  | .object _ entries, s, t => L.bind (hev.object scope entries [] s t) fun _ _ _ => L.pure _
  | .array _ entries, s, t => L.bind (hev.array scope entries s t) fun _ _ _ => L.pure _
  | .call _ constructs callee args, _, _ =>
    hev.call scope constructs callee args (hev.expression scope callee) (hev.values scope args)
  | .member _ e _, s, t => L.bind (hev.expression scope e s t) fun _ _ _ => L.pure _
  | .function _ _, _, _ => L.pure _
  | .unary _ _ e, s, t => L.bind (hev.expression scope e s t) fun _ _ _ => L.pure _
  | .binary _ op left right, s, t =>
    binary op (hev.expression scope left s t) (hev.expression scope right)
  | .conditional _ test yes no, s, t =>
    L.bind (hev.expression scope test s t) fun _ s t =>
      choose _ (hev.expression scope yes s t) (hev.expression scope no s t)
  | .assign _ _ _, _, _ => L.pure _
  | .unmodelled _ _, _, _ => L.pure _

theorem values (hev : L.Evaluators k ev ev') (scope : Scope) :
    ∀ (es : List Expr) (s : σ) (t : τ), L.Holds (k + 1) (values ev m scope es)
      (Evaluate.values ev' m scope es) s t
  | [], _, _ => L.pure _
  | e :: es, s, t =>
    L.bind (hev.expression scope e s t) fun _ s t =>
      L.bind (hev.values scope es s t) fun _ _ _ => L.pure _

theorem template (hev : L.Evaluators k ev ev') (scope : Scope) :
    ∀ (es : List Expr) (done : String) (chunks : List String) (s : σ) (t : τ),
      L.Holds (k + 1) (template ev m scope done chunks es)
        (Evaluate.template ev' m scope done chunks es) s t
  | [], _, _, _, _ => by
    simp only [Evaluate.template]
    exact L.pure _
  | _ :: _, _, [], _, _ => L.pure _
  | e :: es, done, chunk :: chunks, s, t => by
    refine L.bind (hev.expression scope e s t) fun value s t => ?_
    split
    · exact hev.template scope es _ chunks s t
    · exact L.pure _

theorem object (hev : L.Evaluators k ev ev') (scope : Scope) :
    ∀ (entries : List Entry) (fields : List (String × Value)) (s : σ) (t : τ),
      L.Holds (k + 1) (object ev m scope fields entries)
        (Evaluate.object ev' m scope fields entries) s t
  | [], _, _, _ => L.pure _
  | .mk (.keyed _) value _ _ :: entries, _, s, t =>
    L.bind (hev.expression scope value s t) fun _ s t => hev.object scope entries _ s t
  | .mk .spread value loc _ :: entries, _, s, t =>
    L.bind (hev.expression scope value s t) fun _ _ _ =>
      L.bind (spreadFields loc _ _) fun _ s t => hev.object scope entries _ s t
  | .mk .element _ _ _ :: entries, _, s, t => hev.object scope entries _ s t

theorem array (hev : L.Evaluators k ev ev') (scope : Scope) :
    ∀ (entries : List Entry) (s : σ) (t : τ), L.Holds (k + 1) (array ev m scope entries)
      (Evaluate.array ev' m scope entries) s t
  | [], _, _ => L.pure _
  | .mk kind value loc _ :: entries, s, t =>
    L.bind (hev.expression scope value s t) fun _ _ _ =>
      L.bind (entryItems kind loc _) fun _ s t =>
        L.bind (hev.array scope entries s t) fun _ _ _ => L.pure _
end

include hev

/-- **One step of evaluation.** A relation between the evaluators of the contexts that are entered
is, one level higher, one between the steps over them. -/
theorem step : L.Evaluators (k + 1) (step ev) (step ev') := by
  intro goal s t
  cases goal with
  | expr m e scope => exact hev.expression scope e s t
  | name m name scope => exact hev.lookup name scope

end Evaluators

/-- **Every evaluation.** The evaluators may have different bounds: it is the smaller one that the
relation is about. -/
theorem evaluate {j : Nat} (h : L.Evaluators 0 (evaluate 0) (evaluate j)) (k : Nat) :
    L.Evaluators k (evaluate k) (evaluate (j + k)) := by
  induction k with
  | zero => exact h
  | succ k ih => exact ih.step

end Logic

/-! ### Requests -/

/-- What can be asked for: the value of an expression or of a name, the exports that a specifier
refers to, and the result of calling a function. -/
inductive Request where
  | expr (m : ModuleId) (e : Expr) (scope : Scope)
  | lookup (m : ModuleId) (name : String) (scope : Scope)
  | require (m : ModuleId) (specifier : String)
  | invoke (f : FunctionLit) (m : ModuleId) (scope : Scope) (args : List Value)

/-- Evaluates what is asked for. -/
def Request.run {σ : Type} [Store σ] : Request → EvalOver σ Value
  | .expr m e scope => Eval.expr m e scope
  | .lookup m name scope => Eval.lookup m name scope
  | .require m specifier => Eval.require m specifier
  | .invoke f m scope args => Eval.invoke f m scope args

/-- **Every request.** -/
theorem Logic.request {σ τ : Type} [Store σ] [Store τ] {env : Environment} {L : Logic σ τ env}
    (h : ∀ s t, L.Holds 0 (throw .exhausted : EvalOver σ Value) (throw .exhausted) s t)
    (r : Request) (s : σ) (t : τ) : L.Holds (env.index.contexts + 1) r.run r.run s t := by
  have hev (k : Nat) : L.Evaluators k (SchemaDoc.evaluate k) (SchemaDoc.evaluate k) := by
    simpa using Logic.evaluate (j := 0) (fun _ s t => h s t) k
  cases r with
  | expr m e scope =>
    exact L.index (fun i => by rw [i.contexts_textless]) (fun i => by rw [i.contexts_textless])
      (hev _ _ _ _)
  | lookup m name scope =>
    exact L.index (fun i => by rw [i.contexts_textless]) (fun i => by rw [i.contexts_textless])
      (hev _ _ _ _)
  | require m specifier =>
    exact L.index (fun i => by rw [i.contexts_textless]) (fun i => by rw [i.contexts_textless])
      ((hev _).require _)
  | invoke f m scope args =>
    exact L.index (fun i => by rw [i.contexts_textless]) (fun i => by rw [i.contexts_textless])
      ((hev _).invoke _ _ _)

end SchemaDoc
