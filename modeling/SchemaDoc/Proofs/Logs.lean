import SchemaDoc.Proofs.Runs
import SchemaDoc.Proofs.Logic

/-!
# What a log has to do with evaluation

Two facts about the log of a session. It only **grows**: a message that was recorded stays, so what
is not in the log in the end was never reported on the way. And it is **never read**: evaluating from
two sessions that differ in their logs gives the same, reports the same messages, and leaves sessions
that differ in their logs.

The first one is wanted of whatever evaluation goes on with after a result, so it is a class, with an
instance for every part of an evaluation that can come after another one.
-/

namespace SchemaDoc

open Evaluate

/-! ### Growing -/

/-- A log has another one in it: it has all its messages, and is as verbose. -/
structure Log.Grows (log log' : Log) : Prop where
  verbose : log'.verbose = log.verbose
  entries : ∀ entry ∈ log.entries, entry ∈ log'.entries

namespace Log

theorem Grows.refl (log : Log) : log.Grows log := ⟨rfl, fun _ h => h⟩

theorem Grows.trans {log log' log'' : Log} (h : log.Grows log') (h' : log'.Grows log'') :
    log.Grows log'' :=
  ⟨h'.verbose.trans h.verbose, fun entry he => h'.entries entry (h.entries entry he)⟩

theorem grows_add (log : Log) (level : Level) (message : String) :
    log.Grows (log.add level message) := by
  unfold Log.add
  split
  · exact .refl log
  · exact ⟨rfl, fun _ h => Array.mem_push_of_mem _ h⟩

/-- Whether a log has a message. -/
def Has (log : Log) (message : String) : Prop := ∃ entry ∈ log.entries, entry.message = message

instance (log : Log) (message : String) : Decidable (log.Has message) :=
  decidable_of_iff (log.entries.any (·.message == message) = true) (by
    rw [Array.any_eq_true']
    simp [Has])

theorem Has.grows {log log' : Log} {message : String} (h : log.Has message)
    (hgrows : log.Grows log') : log'.Has message := by
  obtain ⟨entry, hentry, hmessage⟩ := h
  exact ⟨entry, hgrows.entries entry hentry, hmessage⟩

theorem has_warn {log : Log} (hverbose : log.verbose = true) (message : String) :
    (log.warn message).Has message := by
  unfold Log.warn Log.add
  rw [hverbose]
  split
  next h =>
    have hany : log.entries.any (·.message == message) = true := by simpa using h
    simpa [Has] using Array.any_eq_true'.mp hany
  next => exact ⟨_, Array.mem_push_self, rfl⟩

end Log

/-- **The logic of growing logs.** -/
def growsLog (env : Environment) : Logic Session Session env where
  Own _ := True
  Holds _ x _ s _ := s.log.Grows (x env s).2.log
  pure _ := .refl _
  bind := by
    intro α β k x y f g s t hx hf
    rcases Eval.run_bind_cases x f env s with ⟨a, s', hrun, hbind⟩ | ⟨e, s', hrun, hbind⟩
    · rw [hrun] at hx
      rw [hbind]
      exact hx.trans (hf a s' t)
    · rw [hrun] at hx
      rwa [hbind]
  lower hx := hx
  index _ _ hx := hx
  config hx := hx
  asks _ hx := hx
  fail _ := .refl _
  warn _ := Log.grows_add _ _ _
  newScope := by
    intro α k parent f g s t hf
    rw [Eval.run_newScope_bind]
    exact hf _ { s with frames := (s.frames.child parent []).1 } t trivial
  bindName _ _ _ := .refl _
  countCall _ := .refl _
  calling {_ _ x _ s t} _ hx := hx { s with callDepth := s.callDepth + 1 } t
  resolving {_ _ m name _ _ s t} _ hintroduced hnot :=
    Classical.byCases hintroduced hnot { s with resolving := (m, name) :: s.resolving } t
  exporting := by
    intro k m x y s t _ _ hindexed hnot
    have hx : s.log.Grows (Eval.whileExporting m x env s).2.log :=
      Classical.byCases hindexed hnot { s with exporting := m :: s.exporting } t
    rw [Eval.run_remember]
    rcases hrun : Eval.whileExporting m x env s with ⟨e | value, s'⟩ <;> rwa [hrun] at hx

theorem growsLog_holds {α : Type} {env : Environment} {k : Nat} {x y : Eval α} {s t : Session} :
    (growsLog env).Holds k x y s t ↔ s.log.Grows (x env s).2.log := Iff.rfl

/-- A computation that only adds to the log. -/
class Eval.Grows {α : Type} (env : Environment) (x : Eval α) : Prop where
  log : ∀ s : Session, s.log.Grows (x env s).2.log

namespace Eval.Grows

section Basic

variable {α β : Type} {env : Environment}

instance pure (a : α) : Grows env (Pure.pure a : Eval α) := ⟨fun _ => .refl _⟩

instance bind {x : Eval α} {f : α → Eval β} [hx : Grows env x] [hf : ∀ a, Grows env (f a)] :
    Grows env (x >>= f) :=
  ⟨fun s => (growsLog env).bind (k := 0) (y := x) (g := f) (t := s) (hx.log s)
    fun a s' _ => (hf a).log s'⟩

instance bindName (scope : Scope) (name : String) (value : Value) :
    Grows env (Eval.bindName scope name value) := ⟨fun _ => .refl _⟩

end Basic

section Evaluators

variable {env : Environment} {ev : Evaluator Session} [hev : ∀ goal, Grows env (ev goal)]
  {m : ModuleId}

include hev

theorem evaluators : (growsLog env).Evaluators 0 ev ev := fun goal s _ => (hev goal).log s

instance orDefault (scope : Scope) (value : Value) (default : Option Expr) :
    Grows env (orDefault ev m scope value default) :=
  ⟨fun s => evaluators.orDefault (t := s) scope value default⟩

instance bindProperties (id : Nat) (value : Value) (props : List PatternProp) :
    Grows env (bindProperties ev m value (some id) props) :=
  ⟨fun s => evaluators.bindProperties (t := s) trivial value props⟩

instance bindBinding (id : Nat) (binding : Binding) (value : Value) :
    Grows env (Evaluate.bind ev m binding value (some id)) :=
  ⟨fun s => evaluators.bind (t := s) trivial binding value⟩

instance bindParams (id : Nat) (params : List Param) (args : List Value) :
    Grows env (bindParams ev m (some id) params args) :=
  ⟨fun s => evaluators.bindParams (t := s) trivial params args⟩

instance bindDeclarators (id : Nat) (ds : List Declarator) :
    Grows env (bindDeclarators ev m (some id) ds) :=
  ⟨fun s => evaluators.bindDeclarators (t := s) trivial ds⟩

instance runBody (id : Nat) (statements : List BodyStatement) :
    Grows env (runBody ev m (some id) statements) :=
  ⟨fun s => evaluators.runBody (t := s) trivial statements⟩

instance runNested (f : FunctionLit) (outer : Scope) (args : List Value) :
    Grows env (runNested ev f m outer args) :=
  ⟨fun s => evaluators.runNested (t := s) f outer args⟩

instance invoke (f : FunctionLit) (outer : Scope) (args : List Value) :
    Grows env (Evaluate.invoke ev f m outer args) :=
  ⟨fun s => evaluators.invoke (t := s) f outer args⟩

instance exportDeclarators (exports : Value) (ds : List Declarator) :
    Grows env (exportDeclarators ev m exports ds) :=
  ⟨fun s => evaluators.exportDeclarators (t := s) exports ds⟩

instance exportNames (exports : Value) (names : List (String × String)) :
    Grows env (exportNames ev m exports names) :=
  ⟨fun s => evaluators.exportNames (t := s) exports names⟩

instance exportStatements (exports : Value) (statements : List Statement) :
    Grows env (exportStatements ev m exports statements) :=
  ⟨fun s => evaluators.exportStatements (t := s) exports statements⟩

omit hev in
instance global (name : String) : Grows env (global m name) :=
  ⟨fun s => Logic.holds_global (L := growsLog env) (k := 0) (t := s) name⟩

omit hev in
instance spreadFields (loc : Loc) (fields : List (String × Value)) (value : Value) :
    Grows env (spreadFields m loc fields value) :=
  ⟨fun s => Logic.Evaluators.spreadFields (L := growsLog env) (k := 0) (t := s) loc fields value⟩

omit hev in
instance entryItems (kind : EntryKind) (loc : Loc) (value : Value) :
    Grows env (entryItems m kind loc value) :=
  ⟨fun s => Logic.Evaluators.entryItems (L := growsLog env) (k := 0) (t := s) kind loc value⟩

omit hev in
instance choose (condition : Option Bool) {yes no : Eval Value} [hyes : Grows env yes]
    [hno : Grows env no] : Grows env (choose condition yes no) :=
  ⟨fun s => by
    unfold Evaluate.choose
    split
    · exact hyes.log s
    · exact hno.log s
    · exact .refl _⟩

instance expression (scope : Scope) (e : Expr) : Grows env (expression ev m scope e) :=
  ⟨fun s => evaluators.expression scope e s s⟩

instance values (scope : Scope) (es : List Expr) : Grows env (values ev m scope es) :=
  ⟨fun s => evaluators.values scope es s s⟩

instance template (scope : Scope) (done : String) (chunks : List String) (es : List Expr) :
    Grows env (template ev m scope done chunks es) :=
  ⟨fun s => evaluators.template scope es done chunks s s⟩

instance object (scope : Scope) (fields : List (String × Value)) (entries : List Entry) :
    Grows env (object ev m scope fields entries) :=
  ⟨fun s => evaluators.object scope entries fields s s⟩

instance array (scope : Scope) (entries : List Entry) : Grows env (array ev m scope entries) :=
  ⟨fun s => evaluators.array scope entries s s⟩

end Evaluators

instance evaluate (env : Environment) (k : Nat) (goal : Goal) : Grows env (evaluate k goal) :=
  ⟨fun s => by
    have h := Logic.evaluate (L := growsLog env) (j := 0) (fun _ s _ => .refl s.log) k goal s s
    rw [Nat.zero_add] at h
    exact growsLog_holds.mp h⟩

instance request (env : Environment) (r : Request) : Grows env r.run :=
  ⟨fun s => growsLog_holds.mp (Logic.request (L := growsLog env) (fun s _ => .refl s.log) r s s)⟩

end Eval.Grows

/-! ### Not being read -/

/-- A log with messages added one after the other. -/
def Log.addAll (log : Log) (messages : List Log.Entry) : Log :=
  messages.foldl (fun log m => log.add m.level m.message) log

theorem Log.addAll_append (log : Log) (messages more : List Log.Entry) :
    log.addAll (messages ++ more) = (log.addAll messages).addAll more :=
  List.foldl_append

/-- From a session, a computation **ignores the log**: what it gives, what it leaves behind and what
it reports are the same whatever was reported before. -/
def Eval.IgnoresLog {α : Type} (env : Environment) (x : Eval α) (s : Session) : Prop :=
  ∃ (result : Except Stop α) (s' : Session) (messages : List Log.Entry), ∀ log,
    x env { s with log } = (result, { s' with log := log.addAll messages })

namespace Eval.IgnoresLog

variable {α β : Type} {env : Environment} {x : Eval α} {s : Session}

theorem pure (a : α) : IgnoresLog env (Pure.pure a) s := ⟨.ok a, s, [], fun _ => rfl⟩

theorem stop (reason : Stop) : IgnoresLog env (throw reason : Eval α) s :=
  ⟨.error reason, s, [], fun _ => rfl⟩

theorem index : IgnoresLog env Eval.index s := ⟨.ok env.index, s, [], fun _ => rfl⟩

theorem config : IgnoresLog env Eval.config s := ⟨.ok env.config, s, [], fun _ => rfl⟩

theorem warn (message : String) : IgnoresLog env (Eval.warn message) s :=
  ⟨.ok (), s, [⟨.warning, message⟩], fun _ => rfl⟩

theorem info (message : String) : IgnoresLog env (Eval.info message) s :=
  ⟨.ok (), s, [⟨.info, message⟩], fun _ => rfl⟩

theorem bind {f : α → Eval β} (hx : IgnoresLog env x s) (hf : ∀ a s, IgnoresLog env (f a) s) :
    IgnoresLog env (x >>= f) s := by
  obtain ⟨result, s', messages, hx⟩ := hx
  cases result with
  | error reason => exact ⟨.error reason, s', messages, fun log => run_bind_error (hx log)⟩
  | ok a =>
    obtain ⟨result, s'', more, hf⟩ := hf a s'
    refine ⟨result, s'', messages ++ more, fun log => ?_⟩
    rw [run_bind_ok (hx log), hf, Log.addAll_append]

theorem update {change : Session → Session}
    (hchange : ∀ (s : Session) log, change { s with log } = { change s with log }) :
    IgnoresLog env (Eval.update change) s :=
  ⟨.ok (), change s, [], fun log => congrArg (Prod.mk (Except.ok ())) (hchange s log)⟩

theorem bracket {enter leave : Session → Session}
    (henter : ∀ (s : Session) log, enter { s with log } = { enter s with log })
    (hleave : ∀ (s : Session) log, leave { s with log } = { leave s with log })
    (hx : IgnoresLog env x (enter s)) : IgnoresLog env (Eval.bracket enter leave x) s := by
  obtain ⟨result, s', messages, hx⟩ := hx
  refine ⟨result, leave s', messages, fun log => ?_⟩
  have hinside : x env (Store.update enter { s with log }) = _ :=
    (congrArg (x env) (henter s log)).trans (hx log)
  rw [run_bracket_eq hinside]
  exact congrArg (Prod.mk result) (hleave s' _)

end Eval.IgnoresLog

/-- **The logic of a log that is not read.** -/
def ignoresLog (env : Environment) : Logic Session Session env where
  Own _ := True
  Holds _ x _ s _ := Eval.IgnoresLog env x s
  pure := .pure
  bind {_ _ _ _ _ _ _ _ t} hx hf := hx.bind fun a s => hf a s t
  lower hx := hx
  index _ _ hx := hx
  config hx := hx
  asks := by
    intro α β k question f g s t hquestion ⟨result, s', messages, hx⟩
    refine ⟨result, s', messages, fun log => ?_⟩
    change f (question { s with log }) env { s with log } = _
    rw [hquestion]
    exact hx log
  fail {_ _ _ _ _ _ _} _ := .stop _
  warn := .warn
  newScope := by
    intro α k parent f g s t hf
    obtain ⟨result, s', messages, hx⟩ := hf s.frames.frames.size
      { s with frames := (s.frames.child parent []).1 } t trivial
    exact ⟨result, s', messages, hx⟩
  bindName _ _ _ := .update fun _ _ => rfl
  countCall _ := .update fun _ _ => rfl
  calling {_ _ _ _ _ t} _ hx := .bracket (fun _ _ => rfl) (fun _ _ => rfl) (hx _ t)
  resolving {_ _ _ _ _ _ _ t} _ hintroduced hnot :=
    .bracket (fun _ _ => rfl) (fun _ _ => rfl) (Classical.byCases hintroduced hnot _ t)
  exporting {_ _ _ _ _ t} _ _ hindexed hnot :=
    .bind (.bracket (fun _ _ => rfl) (fun _ _ => rfl) (Classical.byCases hindexed hnot _ t))
      fun _ _ => .bind (.update fun _ _ => rfl) fun _ _ => .pure _

theorem ignoresLog_holds {α : Type} {env : Environment} {k : Nat} {x y : Eval α} {s t : Session} :
    (ignoresLog env).Holds k x y s t ↔ Eval.IgnoresLog env x s := Iff.rfl

theorem request_ignoresLog (env : Environment) (r : Request) (s : Session) :
    Eval.IgnoresLog env r.run s :=
  ignoresLog_holds.mp (Logic.request (L := ignoresLog env) (fun _ _ => .stop _) r s s)

/-- A session without its log. -/
def Session.quiet (s : Session) : Session := { s with log := .empty false }

theorem Session.quiet_start (log log' : Log) :
    (Session.start log).quiet = (Session.start log').quiet := rfl

/-- Two computations that give the same, but for the logs. -/
def SameButLog {α : Type} (r r' : Except Stop α × Session) : Prop :=
  r.1 = r'.1 ∧ r.2.quiet = r'.2.quiet

theorem Eval.IgnoresLog.sameButLog {α : Type} {env : Environment} {x : Eval α} {s t : Session}
    (hx : IgnoresLog env x s) (h : s.quiet = t.quiet) : SameButLog (x env s) (x env t) := by
  obtain ⟨result, s', messages, hrun⟩ := hx
  have ht : t = { s with log := t.log } :=
    (congrArg (fun u : Session => { u with log := t.log }) h).symm
  have hs : x env s = _ := hrun s.log
  rw [ht, hs, hrun]
  exact ⟨rfl, rfl⟩

/-- **No request reads the log.** -/
theorem request_sameButLog (env : Environment) (r : Request) {s t : Session}
    (h : s.quiet = t.quiet) : SameButLog (r.run env s) (r.run env t) :=
  (request_ignoresLog env r s).sameButLog h

end SchemaDoc
