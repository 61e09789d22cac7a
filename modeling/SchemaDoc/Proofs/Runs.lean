import SchemaDoc.Resolve.Evaluate

/-!
# Runs

What running a computation gives, for the few things that computations are built from. Whatever is
built by other means than these is opened once, here or beside its definition, and not again.
-/

namespace SchemaDoc

/-! ### Contexts -/

/-- Two sessions in the same contexts: the same names are being resolved, the same modules
exported, and calls are nested as deeply. -/
structure Session.SameContexts (s s' : Session) : Prop where
  resolving : s'.resolving = s.resolving
  exporting : s'.exporting = s.exporting
  callDepth : s'.callDepth = s.callDepth

namespace Session.SameContexts

variable {s s' s'' : Session}

theorem refl (s : Session) : s.SameContexts s := ⟨rfl, rfl, rfl⟩

theorem trans (h : s.SameContexts s') (h' : s'.SameContexts s'') : s.SameContexts s'' :=
  ⟨h'.resolving.trans h.resolving, h'.exporting.trans h.exporting,
    h'.callDepth.trans h.callDepth⟩

end Session.SameContexts

/-! ### Computations -/

theorem eq_ok_of_toOption {ε α : Type} {result : Except ε α} {a : α}
    (h : result.toOption = some a) : result = .ok a := by
  cases result with
  | error e => cases h
  | ok b => exact congrArg Except.ok (Option.some.inj h)

namespace Eval

variable {σ α β : Type} {env : Environment} {s s' : σ}

/-- **Going on after a result.** -/
theorem run_bind_ok {x : EvalOver σ α} {f : α → EvalOver σ β} {a : α} (h : x env s = (.ok a, s')) :
    (x >>= f) env s = f a env s' := by
  change ExceptT.bindCont (fun a => f a env) (x env s).1 (x env s).2 = _
  rw [h]
  rfl

/-- **Nothing happens after a stop.** -/
theorem run_bind_error {x : EvalOver σ α} {f : α → EvalOver σ β} {e : Stop}
    (h : x env s = (.error e, s')) : (x >>= f) env s = (.error e, s') := by
  change ExceptT.bindCont (fun a => f a env) (x env s).1 (x env s).2 = _
  rw [h]
  rfl

/-- How a computation that goes on can have stopped: before that, or in what came after. -/
theorem run_bind_cases (x : EvalOver σ α) (f : α → EvalOver σ β) (env : Environment) (s : σ) :
    (∃ a s', x env s = (.ok a, s') ∧ (x >>= f) env s = f a env s') ∨
      ∃ e s', x env s = (.error e, s') ∧ (x >>= f) env s = (.error e, s') := by
  rcases h : x env s with ⟨_ | a, s'⟩
  · exact Or.inr ⟨_, s', rfl, run_bind_error h⟩
  · exact Or.inl ⟨a, s', rfl, run_bind_ok h⟩

/-- A result of a computation that goes on is one of what comes after a result. -/
theorem exists_of_run_bind_ok {x : EvalOver σ α} {f : α → EvalOver σ β} {b : β}
    (h : (x >>= f) env s = (.ok b, s')) :
    ∃ a s₁, x env s = (.ok a, s₁) ∧ f a env s₁ = (.ok b, s') := by
  rcases run_bind_cases x f env s with ⟨a, s₁, hrun, hbind⟩ | ⟨e, s₁, hrun, hbind⟩
  · exact ⟨a, s₁, hrun, hbind.symm.trans h⟩
  · exact absurd (hbind.symm.trans h) nofun

/-- Two computations that do the same do the same if they go on in the same way. -/
theorem run_bind_congr {x y : EvalOver σ α} {f g : α → EvalOver σ β} (hx : x env s = y env s)
    (hf : ∀ a s', x env s = (.ok a, s') → f a env s' = g a env s') :
    (x >>= f) env s = (y >>= g) env s := by
  rcases run_bind_cases x f env s with ⟨a, s', hrun, hbind⟩ | ⟨e, s', hrun, hbind⟩
  · rw [hbind, run_bind_ok (hx.symm.trans hrun), hf a s' hrun]
  · rw [hbind, run_bind_error (hx.symm.trans hrun)]

theorem run_bracket [Store σ] (enter leave : Session → Session) (x : EvalOver σ α) (env : Environment)
    (s : σ) : bracket enter leave x env s =
      ((x env (Store.update enter s)).1, Store.update leave (x env (Store.update enter s)).2) :=
  rfl

theorem run_bracket_eq [Store σ] {enter leave : Session → Session} {x : EvalOver σ α}
    {r : Except Stop α} (h : x env (Store.update enter s) = (r, s')) :
    bracket enter leave x env s = (r, Store.update leave s') := by
  rw [run_bracket, h]

/-- A new frame gets the next number. -/
theorem run_newScope_bind [Store σ] (parent : Scope) (f : Scope → EvalOver σ α)
    (env : Environment) (s : σ) : (newScope parent >>= f) env s =
      f (some (Store.session s).frames.frames.size) env
        (Store.update (fun session => { session with
          frames := ((Store.session s).frames.child parent []).1 }) s) :=
  rfl

/-- The exports of a module are remembered if there are any, after it was left. -/
theorem run_remember [Store σ] (m : ModuleId) (x : EvalOver σ Value) (env : Environment) (s : σ) :
    remember m x env s =
      match whileExporting m x env s with
      | (.ok value, s') =>
        (.ok value, Store.update (fun session =>
          { session with exports := (m, value) :: session.exports }) s')
      | (.error e, s') => (.error e, s') := by
  rcases h : whileExporting m x env s with ⟨e | value, s'⟩
  · exact run_bind_error h
  · exact (run_bind_ok h).trans rfl

theorem remember_fst [Store σ] (m : ModuleId) (x : EvalOver σ Value) (env : Environment) (s : σ) :
    (remember m x env s).1 =
      (x env (Store.update (fun session =>
        { session with exporting := m :: session.exporting }) s)).1 := by
  rw [run_remember]
  change _ = (whileExporting m x env s).1
  rcases whileExporting m x env s with ⟨_ | _, s'⟩ <;> rfl

end Eval

end SchemaDoc
