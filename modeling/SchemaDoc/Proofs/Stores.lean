import SchemaDoc.Proofs.Logic
import SchemaDoc.Proofs.Runs

/-!
# Stores

Evaluation runs over any store, and asks nothing of it but the session. So evaluating over a store
gives what evaluating over its session gives, and leaves the store with the session that this leaves.
-/

namespace SchemaDoc

variable {σ : Type} [Store σ]

/-- A computation over a store that gives what another one gives over the session, and leaves that
session in the store. -/
def Follows {α : Type} (env : Environment) (x : EvalOver σ α) (y : Eval α) (s : σ) : Prop :=
  (x env s).1 = (y env (Store.session s)).1 ∧
    Store.session (x env s).2 = (y env (Store.session s)).2

namespace Follows

variable {α β : Type} {env : Environment} {x : EvalOver σ α} {y : Eval α} {s : σ}

theorem bind {f : α → EvalOver σ β} {g : α → Eval β} (hx : Follows env x y s)
    (hf : ∀ a s', Follows env (f a) (g a) s') : Follows env (x >>= f) (y >>= g) s := by
  obtain ⟨hresult, hsession⟩ := hx
  rcases Eval.run_bind_cases x f env s with ⟨a, s', h, hrun⟩ | ⟨e, s', h, hrun⟩
  · rw [h] at hresult hsession
    have hy : y env (Store.session s) = (.ok a, Store.session s') :=
      Prod.ext hresult.symm hsession.symm
    rw [Follows, hrun, Eval.run_bind_ok hy]
    exact hf a s'
  · rw [h] at hresult hsession
    have hy : y env (Store.session s) = (.error e, Store.session s') :=
      Prod.ext hresult.symm hsession.symm
    rw [Follows, hrun, Eval.run_bind_error hy]
    exact ⟨rfl, rfl⟩

theorem update (change : Session → Session) :
    Follows env (Eval.update change : EvalOver σ Unit) (Eval.update change) s :=
  ⟨rfl, Store.session_update change s⟩

theorem bracket {enter leave : Session → Session} (hx : ∀ s, Follows env x y s) :
    Follows env (Eval.bracket enter leave x) (Eval.bracket enter leave y) s := by
  obtain ⟨hresult, hsession⟩ := hx (Store.update enter s)
  rw [Store.session_update] at hresult hsession
  refine ⟨hresult, ?_⟩
  rw [Eval.run_bracket, Eval.run_bracket, Store.session_update, hsession]
  rfl

end Follows

/-- **The logic of stores.** -/
def followsSession (env : Environment) : Logic σ Session env where
  Own _ := True
  Holds _ x y s t := Store.session s = t → Follows env x y s
  pure _ _ := ⟨rfl, rfl⟩
  bind hx hf hs := (hx hs).bind fun a s' => hf a s' _ rfl
  lower hx := hx
  index _ _ hx := hx
  config hx := hx
  asks _ hx := hx
  fail _ _ := ⟨rfl, rfl⟩
  warn _ _ := .update _
  newScope := by
    intro α k parent f g s t hf _
    -- The new frame has the same number in the store as in its session.
    have h := hf (Store.session s).frames.frames.size (Store.update (fun session =>
      { session with frames := ((Store.session s).frames.child parent []).1 }) s) _ trivial rfl
    rw [Follows, Store.session_update] at h
    exact h
  bindName _ _ _ _ := .update _
  countCall _ _ := .update _
  calling _ hx _ := .bracket fun s => hx s _ rfl
  resolving _ hintroduced hnot _ :=
    .bracket fun s => Classical.byCases hintroduced hnot s _ rfl
  exporting _ _ hindexed hnot _ :=
    .bind (.bracket fun s => Classical.byCases hindexed hnot s _ rfl) fun _ _ =>
      .bind (.update _) fun _ _ => ⟨rfl, rfl⟩

theorem followsSession_holds {α : Type} {env : Environment} {k : Nat} {x : EvalOver σ α}
    {y : Eval α} {s : σ} {t : Session} :
    (followsSession env).Holds k x y s t ↔ (Store.session s = t → Follows env x y s) := Iff.rfl

/-- **Evaluating over a store is evaluating over its session.** -/
theorem request_over_store (env : Environment) (r : Request) (s : σ) :
    Follows env r.run r.run s :=
  followsSession_holds.mp (Logic.request (L := followsSession (σ := σ) env)
    (fun _ _ => followsSession_holds.mpr fun _ => ⟨rfl, rfl⟩) r s (Store.session s)) rfl

end SchemaDoc
