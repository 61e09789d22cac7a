import SchemaDoc.Proofs.Scenes

/-!
# Only cycles refer to themselves

While a name is being resolved, reaching it again gives nothing and is reported. Which names are being
resolved is only known while code is run. Still nothing is reported that cannot be seen in the text: if
the mentions of names have no cycle, then no name is ever reached while it is being resolved.

The code that is run stands in the declarations that the innermost of these names leads to, and each
of them leads to those further in. So a name in this code is below all of them (`Scene.Clear`), and
would be part of a cycle if it were one of them. That evaluation stays in clear scenes is shown for
each part of it over an evaluator for the contexts that it enters, and then for every evaluation by
induction on how deeply contexts nest (`evaluate_runsClear`).
-/

namespace SchemaDoc

open Evaluate

/-! ### Evaluation -/

/-- An evaluator that runs code of clear scenes as it may be run. -/
def RunsClear (env : Environment) (program : Program) (m : ModuleId) (ev : Evaluator Session) :
    Prop :=
  ∀ (c : Scene program m) (e : Expr) (scope : Scope), c.Clear → c.Code e → c.Sees scope →
    c.Keeps env (ev (.expr m e scope)) c.Gives

namespace RunsClear

open Scene

variable {env : Environment} {program : Program} {m : ModuleId} {ev : Evaluator Session}
  {c : Scene program m}

section Contexts

variable (hev : RunsClear env program m ev) (hclear : c.Clear)

include hev hclear

/-! Inside a function -/

theorem orDefault {scope : Scope} (hscope : c.Sees scope) {v : Value} (hv : c.Gives v)
    {default : Option Expr} (hdefault : ∀ e ∈ default, c.Code e) :
    c.Keeps env (orDefault ev m scope v default) c.Gives := by
  cases default with
  | none => exact .pure hv
  | some e =>
    simp only [Evaluate.orDefault]
    split
    · exact hev c e scope hclear (hdefault e rfl) hscope
    · exact .pure hv

theorem initial {scope : Scope} (hscope : c.Sees scope) {init : Option Expr}
    (hinit : ∀ e ∈ init, c.Code e) : c.Keeps env (initial ev m scope init) c.Gives := by
  cases init with
  | none => exact .pure .unknown
  | some e => exact hev c e scope hclear (hinit e rfl) hscope

theorem readProperty {scope : Scope} (hscope : c.Sees scope) {source : Value}
    (hsource : c.Gives source) {prop : PatternProp} (hprop : ∀ e ∈ prop.default, c.Code e) :
    c.Keeps env (readProperty ev m source prop scope) c.Gives :=
  hev.orDefault hclear hscope (.getD fun _ hw => hsource.field? hw) hprop

section Frames

variable {id : Nat} (hid : c.base ≤ id)

include hid

omit hev hclear in
theorem sees : c.Sees (some id) := by
  rintro _ ⟨⟩
  exact hid

theorem bindProperties {v : Value} (hv : c.Gives v) {props : List PatternProp}
    (hprops : ∀ prop ∈ props, ∀ e ∈ prop.default, c.Code e) :
    c.Keeps env (bindProperties ev m v (some id) props) fun _ => True := by
  induction props with
  | nil => exact .pure trivial
  | cons prop props ih =>
    obtain ⟨hprop, hprops⟩ := List.forall_mem_cons.mp hprops
    refine (hev.readProperty hclear (sees hid) hv hprop).bind fun w hw => ?_
    exact (Keeps.bindName hid prop.name hw).bind fun _ _ => ih hprops

theorem bind {v : Value} (hv : c.Gives v) {binding : Binding}
    (hbinding : ∀ e ∈ binding.defaults, c.Code e) :
    c.Keeps env (Evaluate.bind ev m binding v (some id)) fun _ => True := by
  cases binding with
  | ident name => exact .bindName hid name hv
  | object props =>
    refine hev.bindProperties hclear hid hv fun prop hprop e he => hbinding e ?_
    exact List.mem_filterMap.mpr ⟨prop, hprop, he⟩
  | unsupported => exact .pure trivial

theorem bindParams {params : List Param} (hparams : ∀ p ∈ params, ∀ e ∈ p.parts, c.Code e)
    {args : List Value} (hargs : ∀ v ∈ args, c.Gives v) :
    c.Keeps env (bindParams ev m (some id) params args) fun _ => True := by
  induction params generalizing args with
  | nil => exact .pure trivial
  | cons param params ih =>
    obtain ⟨hparam, hparams⟩ := List.forall_mem_cons.mp hparams
    have hgiven : c.Gives (if param.rest then .list args else args.head?.getD .unknown) := by
      split
      · exact .list hargs
      · exact .getD fun v hv => hargs v (List.mem_of_mem_head? hv)
    have hdefault : ∀ e ∈ param.default, c.Code e := fun e he =>
      hparam e (List.mem_append_right _ (Option.mem_toList.mpr he))
    refine (hev.orDefault hclear (sees hid) hgiven hdefault).bind fun v hv => ?_
    have hpattern := fun e he => hparam e (List.mem_append_left _ he)
    refine (hev.bind hclear hid hv hpattern).bind fun _ _ => ?_
    refine ih hparams fun v hv => ?_
    split at hv
    · cases hv
    · exact hargs v (List.mem_of_mem_tail hv)

theorem bindDeclarators {ds : List Declarator} (hds : ∀ d ∈ ds, ∀ e ∈ d.parts, c.Code e) :
    c.Keeps env (bindDeclarators ev m (some id) ds) fun _ => True := by
  induction ds with
  | nil => exact .pure trivial
  | cons d ds ih =>
    obtain ⟨hd, hds⟩ := List.forall_mem_cons.mp hds
    have hinit : ∀ e ∈ d.init, c.Code e := fun e he =>
      hd e (List.mem_append_right _ (Option.mem_toList.mpr he))
    refine (hev.initial hclear (sees hid) hinit).bind fun v hv => ?_
    have hpattern := fun e he => hd e (List.mem_append_left _ he)
    exact (hev.bind hclear hid hv hpattern).bind fun _ _ => ih hds

theorem runBody {ss : List BodyStatement} (hss : ∀ s ∈ ss, ∀ e ∈ s.parts, c.Code e) :
    c.Keeps env (runBody ev m (some id) ss) c.Gives := by
  induction ss with
  | nil => exact .pure .unknown
  | cons statement ss ih =>
    obtain ⟨hstatement, hrest⟩ := List.forall_mem_cons.mp hss
    cases statement with
    | declare ds =>
      refine (hev.bindDeclarators hclear hid fun d hd e he => ?_).bind fun _ _ => ih hrest
      exact hstatement e (List.mem_flatMap.mpr ⟨d, hd, he⟩)
    | returns value =>
      exact hev.initial hclear (sees hid) fun e he => hstatement e (Option.mem_toList.mpr he)
    | other => exact .pure .unknown

end Frames

theorem runFunction {f : FunctionLit} {outer : Scope} (hf : c.Owns f m outer) {args : List Value}
    (hargs : ∀ v ∈ args, c.Gives v) : c.Keeps env (runFunction ev f m outer args) c.Gives := by
  refine .newScope hf.sees fun id hid => ?_
  have hparams : ∀ p ∈ f.params, ∀ e ∈ p.parts, c.Code e := fun p hp e he =>
    hf.code e (List.mem_append_left _ (List.mem_flatMap.mpr ⟨p, hp, he⟩))
  refine (hev.bindParams hclear hid hparams hargs).bind fun _ _ => ?_
  have hbody : ∀ e ∈ f.body.parts, c.Code e := fun e he => hf.code e (List.mem_append_right _ he)
  cases hkind : f.body with
  | expr e =>
    rw [hkind] at hbody
    exact hev c e _ hclear (hbody e (List.mem_singleton_self e)) (sees hid)
  | block statements =>
    rw [hkind] at hbody
    exact hev.runBody hclear hid fun s hs e he => hbody e (List.mem_flatMap.mpr ⟨s, hs, he⟩)

/-! Calls -/

theorem invoke {f : FunctionLit} {home : ModuleId} {outer : Scope} (hf : c.Owns f home outer)
    {args : List Value} (hargs : ∀ v ∈ args, c.Gives v) :
    c.Keeps env (invoke ev f home outer args) c.Gives := by
  obtain rfl := hf.home_eq
  refine .asks fun s _ => ?_
  split
  · exact .warn_unknown fun name => selfReport_ne (.inl (by decide))
  · refine Keeps.countCall.bind fun _ _ => .asks fun s _ => ?_
    split
    · exact .warn_unknown fun name => selfReport_ne (.inl (by decide))
    · exact .whileCalling (hev.runFunction hclear hf hargs)

/-! Names -/

theorem declared {d : Declarator} (hd : ∀ e ∈ d.parts, c.Code e) (name : String) :
    c.Keeps env (declared ev m d name) c.Gives := by
  have hinit : ∀ e ∈ d.init, c.Code e := fun e he =>
    hd e (List.mem_append_right _ (Option.mem_toList.mpr he))
  have htop : c.Sees none := nofun
  refine (hev.initial hclear htop hinit).bind fun v hv => ?_
  split
  · exact .pure hv
  next props hbinding =>
    split
    next prop hprop =>
      refine hev.readProperty hclear htop hv fun e he => hd e (List.mem_append_left _ ?_)
      rw [hbinding]
      exact List.mem_filterMap.mpr ⟨prop, List.mem_of_find?_eq_some hprop, he⟩
    next => exact .pure .unknown
  · exact .pure .unknown

omit hev hclear in
theorem global (name : String) : c.Keeps env (global m name) c.Gives := by
  refine .config ?_
  split
  · exact .pure (.atom rfl)
  · exact .index (.warn_unknown fun _ => selfReport_ne_append rfl (by decide))

omit hclear in
/-- **A name of the module.** If it is not being resolved, and neither is any name that it leads to,
then its declaration is code of a clear scene. -/
theorem topLevel (hprogram : env.index.program? m = some program)
    (hcontained : program.SelfContained) (hacyclic : program.Acyclic) {name : String}
    (hreach : Relation.ReflTransGen program.Mentions c.root name) (hfree : (m, name) ∉ c.stack)
    (hbelow : ∀ other, Relation.TransGen program.Mentions name other → (m, other) ∉ c.stack) :
    c.Keeps env (topLevel ev m name) c.Gives := by
  have hintroduced (base : Nat) : (c.enter name base).Keeps env (introduced? ev m name program)
      fun found => ∀ v ∈ found, (c.enter name base).Gives v := by
    have hinner : (c.enter name base).Clear := by
      intro other hother hmem
      rcases List.mem_cons.mp hmem with heq | hmem
      · exact hacyclic name ((Prod.mk.inj heq).2 ▸ hother)
      · exact hbelow other hother hmem
    unfold introduced?
    split
    next origin horigin =>
      obtain ⟨d, rfl⟩ := hcontained.exists_declarator horigin
      refine (hev.declared hinner (d := d) (fun e he => ?_) name).bind fun v hv => .pure ?_
      · exact ⟨name, d, .refl, horigin, .top he⟩
      · rintro _ ⟨⟩
        exact hv
    next => exact .pure nofun
  refine .asks fun s hs => ?_
  have hcontains : s.resolving.contains (m, name) = false := by
    rw [hs.resolving]
    simpa using hfree
  rw [hcontains]
  refine .index ?_
  rw [hprogram]
  refine (Keeps.whileResolving hreach hintroduced).bind fun found hfound => ?_
  cases found with
  | none => exact global name
  | some v => exact .pure (hfound v rfl)

end Contexts

/-! Expressions -/

/-- All that the expressions of a scene rely on: the scene is clear, it is one of a program on its
own whose mentions have no cycle, and the evaluator for other contexts runs code of clear scenes. -/
structure Runs (env : Environment) (ev : Evaluator Session) (c : Scene program m) : Prop where
  contexts : RunsClear env program m ev
  clear : c.Clear
  loaded : env.index.program? m = some program
  contained : program.SelfContained
  acyclic : program.Acyclic

/-- Names in the code of a scene are further down than the name of the scene. -/
theorem transGen_of_code {loc : Loc} {name : String} (h : c.Code (.ident loc name)) :
    Relation.TransGen program.Mentions c.root name := by
  obtain ⟨other, d, hreach, horigin, hhas⟩ := h
  exact .tail' hreach ⟨d, loc, horigin, hhas⟩

theorem lookup_of_topLevel {scope : Scope} (hscope : c.Sees scope) {name : String}
    (h : c.Keeps env (Evaluate.topLevel ev m name) c.Gives) :
    c.Keeps env (lookup ev m name scope) c.Gives := by
  refine .asks fun s hs => ?_
  split
  next v hv => exact .pure (hs.lookup? hscope hv)
  next =>
    split
    next v hv =>
      refine .pure (.atom ?_)
      unfold constant? at hv
      repeat' split at hv
      all_goals cases hv <;> rfl
    next => exact h

theorem lookup (hruns : Runs env ev c) {scope : Scope} (hscope : c.Sees scope) {loc : Loc}
    {name : String} (hname : c.Code (.ident loc name)) :
    c.Keeps env (Evaluate.lookup ev m name scope) c.Gives := by
  have hbelow := transGen_of_code hname
  refine lookup_of_topLevel hscope ?_
  exact hruns.contexts.topLevel hruns.loaded hruns.contained hruns.acyclic
    hbelow.to_reflTransGen (hruns.clear name hbelow)
    fun other hother => hruns.clear other (hbelow.trans hother)

theorem warnAt (loc : Loc) {message : String} {last : Char}
    (h : message.toList.getLast? = some last) (hlast : last ≠ 'n') :
    c.Keeps env (warnAt m loc message) fun _ => True :=
  .index (.warn fun _ => selfReport_ne_append h hlast)

theorem spreadFields (loc : Loc) {fields : List (String × Value)}
    (hfields : ∀ field ∈ fields, c.Gives field.2) {v : Value} (hv : c.Gives v) :
    c.Keeps env (spreadFields m loc fields v) fun fields => ∀ field ∈ fields, c.Gives field.2 := by
  cases v with
  | map more => exact .pure (.merge hfields hv.fields)
  | list items => exact .pure (.merge hfields (.indexed hv.items 0))
  | unknown => exact (warnAt loc rfl (by decide)).bind fun _ _ => .pure hfields
  | _ => exact .pure hfields

theorem entryItems (kind : EntryKind) (loc : Loc) {v : Value} (hv : c.Gives v) :
    c.Keeps env (entryItems m kind loc v) fun items => ∀ item ∈ items, c.Gives item := by
  unfold Evaluate.entryItems
  split
  · exact .pure hv.items
  · exact (warnAt loc rfl (by decide)).bind fun _ _ => .pure nofun
  · exact .pure (List.forall_mem_singleton.mpr hv)

theorem choose (condition : Option Bool) {yes no : Eval Value} (hyes : c.Keeps env yes c.Gives)
    (hno : c.Keeps env no c.Gives) : c.Keeps env (choose condition yes no) c.Gives := by
  unfold Evaluate.choose
  split
  · exact hyes
  · exact hno
  · exact .pure .unknown

theorem binary (op : Script.BinaryOp) {left right : Eval Value} (hleft : c.Keeps env left c.Gives)
    (hright : c.Keeps env right c.Gives) : c.Keeps env (binary op left right) c.Gives := by
  refine hleft.bind fun a ha => ?_
  split
  · exact choose _ hright (.pure ha)
  · exact choose _ (.pure ha) hright
  · split
    · exact hright
    · exact hright
    · exact .pure ha
  · exact hright.bind fun b _ => .pure (.atom (Value.isAtom_binary _ a b))

/-- A call in the code of a program on its own is never one of `require`. -/
theorem call (hruns : Runs env ev c) {loc : Loc} {constructs : Bool} {callee : Expr}
    {args : List Expr} (scope : Scope) (hcall : c.Code (.call loc constructs callee args))
    {function : Eval Value} {values : Eval (List Value)} (hfunction : c.Keeps env function c.Gives)
    (hvalues : c.Keeps env values fun vs => ∀ v ∈ vs, c.Gives v) :
    c.Keeps env (call ev m scope constructs callee args function values) c.Gives := by
  refine .asks fun s _ => ?_
  have hnot : (!constructs && callee.ident? == some "require") = false := by
    obtain ⟨name, d, -, horigin, hhas⟩ := hcall
    cases constructs with
    | true => rfl
    | false =>
      simpa using hruns.contained.requires loc callee args (Program.has_of_origin? horigin hhas)
  simp only [hnot, Bool.false_and, Bool.false_eq_true, if_false]
  refine hfunction.bind fun f hf => hvalues.bind fun vs hvs => ?_
  cases f with
  | function f home outer => exact hruns.contexts.invoke hruns.clear hf.of_function hvs
  | typeLabel name => exact .pure (.atom (Value.isAtom_callType name vs))
  | _ => exact .pure .unknown

-- The recursion is that of the expressions; all that they are made of is code of the scene, too.
mutual
theorem expression (hruns : Runs env ev c) {scope : Scope} (hscope : c.Sees scope) :
    (e : Expr) → c.Code e → c.Keeps env (expression ev m scope e) c.Gives
  | .lit _ v, _ => .pure (.atom (by cases v <;> rfl))
  | .regex _ _ _, _ => .pure (.atom rfl)
  | .template _ chunks exprs, h => template hruns hscope exprs (fun _ => h.part) "" chunks
  | .ident _ _, h => lookup hruns hscope h
  | .object _ entries, h =>
    (object hruns hscope entries (fun _ he => h.part (List.mem_map_of_mem he)) [] nofun).bind
      fun _ hfields => .pure (.map hfields)
  | .array _ entries, h =>
    (array hruns hscope entries fun _ he => h.part (List.mem_map_of_mem he)).bind
      fun _ hitems => .pure (.list hitems)
  | .call _ _ callee args, h =>
    call hruns scope h (expression hruns hscope callee (h.part List.mem_cons_self))
      (values hruns hscope args fun _ he => h.part (List.mem_cons_of_mem _ he))
  | .member _ e property, h =>
    (expression hruns hscope e (h.part (List.mem_singleton_self e))).bind fun _ hv =>
      .pure (hv.member property)
  | .function _ f, h => .pure (.function ⟨rfl, fun _ => h.part, hscope⟩)
  | .unary _ op e, h =>
    (expression hruns hscope e (h.part (List.mem_singleton_self e))).bind fun v _ =>
      .pure (.atom (Value.isAtom_unary op v))
  | .binary _ op left right, h =>
    binary op (expression hruns hscope left (h.part List.mem_cons_self))
      (expression hruns hscope right (h.part (List.mem_cons_of_mem _ List.mem_cons_self)))
  | .conditional _ test yes no, h =>
    (expression hruns hscope test (h.part List.mem_cons_self)).bind fun _ _ =>
      choose _ (expression hruns hscope yes (h.part (List.mem_cons_of_mem _ List.mem_cons_self)))
        (expression hruns hscope no
          (h.part (List.mem_cons_of_mem _ (List.mem_cons_of_mem _ List.mem_cons_self))))
  | .assign _ _ _, _ => .pure .unknown
  | .unmodelled _ _, _ => .pure .unknown

theorem values (hruns : Runs env ev c) {scope : Scope} (hscope : c.Sees scope) :
    (es : List Expr) → (∀ e ∈ es, c.Code e) →
      c.Keeps env (values ev m scope es) fun vs => ∀ v ∈ vs, c.Gives v
  | [], _ => .pure nofun
  | e :: es, h =>
    (expression hruns hscope e (h e List.mem_cons_self)).bind fun _ hv =>
      (values hruns hscope es fun _ he => h _ (List.mem_cons_of_mem _ he)).bind fun _ hvs =>
        .pure (List.forall_mem_cons.mpr ⟨hv, hvs⟩)

theorem template (hruns : Runs env ev c) {scope : Scope} (hscope : c.Sees scope) :
    (es : List Expr) → (∀ e ∈ es, c.Code e) → (done : String) → (chunks : List String) →
      c.Keeps env (template ev m scope done chunks es) c.Gives
  | [], _, _, _ => by
    simp only [Evaluate.template]
    exact .pure (.atom rfl)
  | _ :: _, _, _, [] => .pure (.atom rfl)
  | e :: es, h, done, chunk :: chunks => by
    refine (expression hruns hscope e (h e List.mem_cons_self)).bind fun v _ => ?_
    split
    · exact template hruns hscope es (fun _ he => h _ (List.mem_cons_of_mem _ he)) _ chunks
    · exact .pure .unknown

theorem object (hruns : Runs env ev c) {scope : Scope} (hscope : c.Sees scope) :
    (entries : List Entry) → (∀ e ∈ entries, c.Code e.value) → (fields : List (String × Value)) →
      (∀ field ∈ fields, c.Gives field.2) → c.Keeps env (object ev m scope fields entries)
        fun fields => ∀ field ∈ fields, c.Gives field.2
  | [], _, _, hfields => .pure hfields
  | .mk (.keyed key) value _ _ :: entries, h, _, hfields =>
    (expression hruns hscope value (h _ List.mem_cons_self)).bind fun _ hv =>
      object hruns hscope entries (fun _ he => h _ (List.mem_cons_of_mem _ he)) _
        (forall_mem_insertKey hfields key hv)
  | .mk .spread value loc _ :: entries, h, _, hfields =>
    (expression hruns hscope value (h _ List.mem_cons_self)).bind fun _ hv =>
      (spreadFields loc hfields hv).bind fun _ hfields' =>
        object hruns hscope entries (fun _ he => h _ (List.mem_cons_of_mem _ he)) _ hfields'
  | .mk .element _ _ _ :: entries, h, fields, hfields =>
    object hruns hscope entries (fun _ he => h _ (List.mem_cons_of_mem _ he)) fields hfields

theorem array (hruns : Runs env ev c) {scope : Scope} (hscope : c.Sees scope) :
    (entries : List Entry) → (∀ e ∈ entries, c.Code e.value) →
      c.Keeps env (array ev m scope entries) fun items => ∀ item ∈ items, c.Gives item
  | [], _ => .pure nofun
  | .mk kind value loc _ :: entries, h =>
    (expression hruns hscope value (h _ List.mem_cons_self)).bind fun _ hv =>
      (entryItems kind loc hv).bind fun _ hitems =>
        (array hruns hscope entries fun _ he => h _ (List.mem_cons_of_mem _ he)).bind fun _ hrest =>
          .pure (List.forall_mem_append.mpr ⟨hitems, hrest⟩)
end

/-- **One step of evaluation.** -/
theorem step (hev : RunsClear env program m ev) (hprogram : env.index.program? m = some program)
    (hcontained : program.SelfContained) (hacyclic : program.Acyclic) :
    RunsClear env program m (step ev) := fun _ e _ hclear hcode hscope =>
  expression ⟨hev, hclear, hprogram, hcontained, hacyclic⟩ hscope e hcode

end RunsClear

/-- **Every evaluation** runs code of clear scenes as it may be run. -/
theorem evaluate_runsClear {env : Environment} {program : Program} {m : ModuleId}
    (hprogram : env.index.program? m = some program) (hcontained : program.SelfContained)
    (hacyclic : program.Acyclic) (contexts : Nat) : RunsClear env program m (evaluate contexts) := by
  induction contexts with
  | zero => exact fun _ _ _ _ _ _ => .stop _
  | succ contexts ih => exact ih.step hprogram hcontained hacyclic

/-! ### Lookups -/

/-- **One lookup** at top level, while nothing is being resolved. -/
theorem lookup_reports_no_cycle {env : Environment} {program : Program} {m : ModuleId}
    (hprogram : env.index.program? m = some program) (hcontained : program.SelfContained)
    (hacyclic : program.Acyclic) {s : Session} (hidle : s.resolving = []) (name : String) :
    ((Request.lookup m name none).run env s).2.resolving = [] ∧
      ∀ other, ((Request.lookup m name none).run env s).2.log.Has (selfReport other) →
        s.log.Has (selfReport other) := by
  let c : Scene program m := ⟨name, [], s.frames.frames.size⟩
  have hready : c.Ready s := by
    refine ⟨hidle, Nat.le_refl _, fun id frame hid hframe => ?_⟩
    exact absurd (Array.getElem?_eq_some_iff.mp hframe).1 (Nat.not_lt_of_le hid)
  have hev := evaluate_runsClear hprogram hcontained hacyclic env.index.contexts
  have htop : c.Keeps env (topLevel (evaluate env.index.contexts) m name) c.Gives :=
    hev.topLevel hprogram hcontained hacyclic .refl nofun fun _ _ => nofun
  have hscope : c.Sees none := nofun
  have hafter := (RunsClear.lookup_of_topLevel hscope htop s hready).1
  exact ⟨hafter.ready.resolving, hafter.reports⟩

/-- A name that is reached while it is being resolved is reported. -/
theorem topLevel_reports_cycle {env : Environment} {m : ModuleId} {ev : Evaluator Session}
    {s : Session} {name : String} (hresolving : (m, name) ∈ s.resolving)
    (hverbose : s.log.verbose = true) :
    (topLevel ev m name env s).2.log.Has (selfReport name) := by
  have hcontains : s.resolving.contains (m, name) = true := List.contains_iff_mem.mpr hresolving
  have hrun : topLevel ev m name env s =
      (.ok .unknown, { s with log := s.log.warn (selfReport name) }) := by
    refine (Eval.run_bind_ok rfl).trans ?_
    exact (congrFun (congrFun (if_pos hcontains) env) s).trans rfl
  rw [hrun]
  exact Log.has_warn hverbose _

/-- **Only cycles refer to themselves.** Take a program that imports nothing and calls `require`
nowhere, and in which no name leads back to itself by mentions. However many names are looked up in it
at top level, one after the other, no name is found to refer to itself, while that would be reported:
whenever a name is reached that is being resolved, a verbose log has the report. -/
theorem no_self_reference_of_acyclic {env : Environment} {program : Program} {m : ModuleId}
    (hprogram : env.index.program? m = some program) (hcontained : program.SelfContained)
    (hacyclic : program.Acyclic) {s : Session} (hidle : s.resolving = []) (names : List String) :
    (∀ (ev : Evaluator Session) (t : Session) (name : String), (m, name) ∈ t.resolving →
        t.log.verbose = true → (topLevel ev m name env t).2.log.Has (selfReport name)) ∧
      ∀ name, (s.after env (names.map (.lookup m · none))).log.Has (selfReport name) →
        s.log.Has (selfReport name) := by
  refine ⟨fun _ _ _ => topLevel_reports_cycle, ?_⟩
  induction names generalizing s with
  | nil => exact fun _ h => h
  | cons first names ih =>
    obtain ⟨hidle', hreports⟩ := lookup_reports_no_cycle hprogram hcontained hacyclic hidle first
    exact fun name hname => hreports name (ih hidle' name hname)

/-- A rank for the names of the example: what is mentioned is ranked below what mentions it. -/
def helperRank : String → Nat
  | "twice" => 1
  | "step" => 1
  | "add" => 2
  | "tools" => 3
  | "six" => 4
  | _ => 0

/-- Helpers that are kept in an object, passed to each other and called. -/
theorem helpers_never_refer_to_themselves :
    let text := "const twice = f => x => f(f(x));\nconst step = \x7b by: 2 \x7d;\n" ++
      "const add = (n, \x7b by = step.by \x7d) => n + by;\n" ++
      "const tools = \x7b apply: twice, add: n => add(n, \x7b\x7d) \x7d;\n" ++
      "const six = tools.apply(tools.add)(step.by);\n"
    ∃ parsed, ParsedSource.ofText text "a.js" = .ok parsed ∧ parsed.program.SelfContained ∧
      parsed.program.Acyclic ∧
      let env : Environment := ⟨⟨[⟨"a.js", .script parsed.program⟩], []⟩, .standard⟩
      (∃ v s, (Request.lookup 0 "six" none).run env (Session.start (.empty true)) = (.ok v, s) ∧
        v.print = "6") ∧
      ∀ name, ¬((Session.start (.empty true)).after env
        [.lookup 0 "six" none, .lookup 0 "tools" none]).log.Has (selfReport name) := by
  intro text
  have hfacts : ((ParsedSource.ofText text "a.js").toOption.any fun parsed =>
      parsed.program.selfContainedTo 8 && parsed.program.rankedTo helperRank 8 &&
        ((Request.lookup 0 "six" none).run ⟨⟨[⟨"a.js", .script parsed.program⟩], []⟩, .standard⟩
          (Session.start (.empty true))).1.toOption.any (·.print == "6")) = true := by
    decide +kernel
  obtain ⟨parsed, hparsed, hfacts⟩ := (Option.any_eq_true _ _).mp hfacts
  simp only [Bool.and_eq_true] at hfacts
  obtain ⟨⟨hcontained, hranked⟩, hvalue⟩ := hfacts
  have hcontained := Program.selfContained_of_selfContainedTo hcontained
  have hacyclic := Program.acyclic_of_rankedTo hranked
  refine ⟨parsed, eq_ok_of_toOption hparsed, hcontained, hacyclic, ?_, fun name hname => ?_⟩
  · obtain ⟨v, hrun, hprint⟩ := (Option.any_eq_true _ _).mp hvalue
    exact ⟨v, _, Prod.ext (eq_ok_of_toOption hrun) rfl, beq_iff_eq.mp hprint⟩
  · obtain ⟨entry, hentry, -⟩ :=
      (no_self_reference_of_acyclic rfl hcontained hacyclic rfl ["six", "tools"]).2 name hname
    exact Array.not_mem_empty entry hentry

end SchemaDoc
