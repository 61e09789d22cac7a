import Mathlib.Data.Finset.Card
import Mathlib.Data.Finset.Range
import SchemaDoc.Proofs.Logic
import SchemaDoc.Proofs.Runs

/-!
# Evaluation ends

No argument of evaluation gets smaller: a name leads to the initializer of another one, a call to the
body of a function, a reference to the statements of another file. What gets smaller is the **room**
that a session leaves: the names that are not being resolved, the modules whose exports are not being
evaluated, and the calls that may still be nested. Every context that is entered takes some of it,
and gives it back when it is left; inside a context, evaluation goes by recursion on an expression.

So a bound on how deeply contexts may nest is never reached if it is larger than the room, whatever
the session holds, and there is never more room than the index has names and modules, and calls may
nest. A larger bound changes nothing.
-/

namespace SchemaDoc

open Evaluate

/-! ### Names -/

theorem Binding.mem_names_of_binds {b : Binding} {name : String} (h : b.binds name = true) :
    name ∈ b.names := by
  cases b with
  | ident n =>
    obtain rfl : n = name := by simpa [Binding.binds] using h
    exact List.mem_singleton_self n
  | object properties =>
    simp only [Binding.binds, List.any_eq_true, beq_iff_eq] at h
    obtain ⟨prop, hmem, rfl⟩ := h
    exact List.mem_map_of_mem hmem
  | unsupported => simp [Binding.binds] at h

theorem Statement.names_of_declare {statement : Statement} {exported : Bool}
    {ds : List Declarator} (h : statement.kind = .declare exported ds) :
    statement.names = ds.flatMap fun d => d.binding.names := by
  simp only [Statement.names, h]

theorem Statement.mem_names_of_origin {statement : Statement} {name : String}
    (h : (originIn? name statement).isSome) : name ∈ statement.names := by
  unfold originIn? at h
  split at h
  next exported ds hkind =>
    rw [Option.isSome_map, List.find?_isSome] at h
    obtain ⟨d, hd, hbinds⟩ := h
    rw [names_of_declare hkind]
    exact List.mem_flatMap.mpr ⟨d, hd, Binding.mem_names_of_binds hbinds⟩
  next source bindings hkind =>
    rw [Option.isSome_map, List.find?_isSome] at h
    obtain ⟨b, hb, hname⟩ := h
    have hnames : statement.names = bindings.map Script.ImportBinding.localName := by
      simp only [Statement.names, hkind]
    rw [hnames]
    exact List.mem_map.mpr ⟨b, hb, by simpa using hname⟩
  · simp at h

/-- There is less left once something more was taken. -/
theorem card_sdiff_cons_le {α : Type} [DecidableEq α] (all : Finset α) (a : α) (taken : List α) :
    (all \ (a :: taken).toFinset).card ≤ (all \ taken.toFinset).card :=
  Finset.card_le_card (Finset.sdiff_subset_sdiff le_rfl (by simp))

theorem card_sdiff_cons_lt {α : Type} [DecidableEq α] {all : Finset α} {a : α} {taken : List α}
    (hall : a ∈ all) (hnew : a ∉ taken) :
    (all \ (a :: taken).toFinset).card < (all \ taken.toFinset).card := by
  have hmem : a ∈ all \ taken.toFinset := by simp [hall, hnew]
  refine Finset.card_lt_card ⟨Finset.sdiff_subset_sdiff le_rfl (by simp), fun h => ?_⟩
  simpa using h hmem

namespace ModuleIndex

variable {index : ModuleIndex} {m : ModuleId} {name : String}

theorem Introduces.mem_names (h : index.Introduces m name) : (m, name) ∈ index.names := by
  obtain ⟨program, hprogram, horigin⟩ := h
  obtain ⟨sourceModule, hmodule, hscript⟩ := Option.bind_eq_some_iff.mp hprogram
  obtain ⟨statement, hstatement, hintroduced⟩ := List.findSome?_isSome_iff.mp horigin
  refine List.mem_flatMap.mpr ⟨(sourceModule, m), List.mem_zipIdx_iff_getElem?.mpr hmodule, ?_⟩
  refine List.mem_map.mpr ⟨name, ?_, rfl⟩
  rw [hscript]
  exact List.mem_flatMap.mpr ⟨statement, hstatement, Statement.mem_names_of_origin hintroduced⟩

/-! ### Room -/

/-- How many contexts there are: the names that modules introduce, the modules, and the depth to
which calls nest. -/
def distinctContexts (index : ModuleIndex) : Nat :=
  index.names.toFinset.card + index.modules.length + callDepthLimit

theorem distinctContexts_le (index : ModuleIndex) : index.distinctContexts ≤ index.contexts := by
  have h := index.names.toFinset_card_le
  unfold distinctContexts contexts
  omega

/-- **The room that a session leaves**: how many more contexts can be entered from it. -/
def room (index : ModuleIndex) (s : Session) : Nat :=
  (index.names.toFinset \ s.resolving.toFinset).card +
    (Finset.range index.modules.length \ s.exporting.toFinset).card +
    (callDepthLimit - s.callDepth)

theorem room_le (index : ModuleIndex) (s : Session) : index.room s ≤ index.distinctContexts := by
  have hnames : (index.names.toFinset \ s.resolving.toFinset).card ≤ index.names.toFinset.card :=
    Finset.card_le_card Finset.sdiff_subset
  have hmodules : (Finset.range index.modules.length \ s.exporting.toFinset).card ≤
      (Finset.range index.modules.length).card := Finset.card_le_card Finset.sdiff_subset
  rw [Finset.card_range] at hmodules
  unfold room distinctContexts
  omega

theorem room_eq {s s' : Session} (h : s.SameContexts s') : index.room s' = index.room s := by
  rw [room, room, h.resolving, h.exporting, h.callDepth]

theorem room_resolving_le (index : ModuleIndex) (s : Session) (key : ModuleId × String) :
    index.room { s with resolving := key :: s.resolving } ≤ index.room s := by
  have := card_sdiff_cons_le index.names.toFinset key s.resolving
  simp only [room]
  omega

theorem room_resolving {s : Session} (h : index.Introduces m name)
    (hfree : (m, name) ∉ s.resolving) :
    index.room { s with resolving := (m, name) :: s.resolving } < index.room s := by
  have := card_sdiff_cons_lt (List.mem_toFinset.mpr h.mem_names) hfree
  simp only [room]
  omega

theorem room_exporting_le (index : ModuleIndex) (s : Session) (m : ModuleId) :
    index.room { s with exporting := m :: s.exporting } ≤ index.room s := by
  have := card_sdiff_cons_le (Finset.range index.modules.length) m s.exporting
  simp only [room]
  omega

theorem room_exporting {s : Session} (h : (index.module? m).isSome) (hfree : m ∉ s.exporting) :
    index.room { s with exporting := m :: s.exporting } < index.room s := by
  have hm : m < index.modules.length := by simpa [module?] using h
  have := card_sdiff_cons_lt (Finset.mem_range.mpr hm) hfree
  simp only [room]
  omega

theorem room_calling {s : Session} (h : s.callDepth < callDepthLimit) :
    index.room { s with callDepth := s.callDepth + 1 } < index.room s := by
  simp only [room]
  omega

end ModuleIndex

/-! ### No bound is reached -/

/-- What is said of a computation that ends: it does not run into the bound, and it leaves the
contexts that it has entered. -/
def Session.Ends {α : Type} (s : Session) (result : Except Stop α × Session) : Prop :=
  result.1 ≠ .error .exhausted ∧ s.SameContexts result.2

namespace Session.Ends

variable {α β : Type} {env : Environment} {s : Session}

theorem ok (a : α) : s.Ends (.ok a, s) := ⟨nofun, .refl s⟩

theorem bind {x : Eval α} {f : α → Eval β} (hx : s.Ends (x env s))
    (hf : ∀ a s', s.SameContexts s' → s'.Ends (f a env s')) : s.Ends ((x >>= f) env s) := by
  rcases Eval.run_bind_cases x f env s with ⟨a, s', h, hrun⟩ | ⟨e, s', h, hrun⟩
  · rw [h] at hx
    rw [hrun]
    exact ⟨(hf a s' hx.2).1, hx.2.trans (hf a s' hx.2).2⟩
  · rw [h] at hx
    rw [hrun]
    exact ⟨fun he => hx.1 (by simpa using he), hx.2⟩

/-- A computation that starts in the same contexts. -/
theorem after {s' : Session} {result : Except Stop α × Session} (hs : s.SameContexts s')
    (h : s'.Ends result) : s.Ends result :=
  ⟨h.1, hs.trans h.2⟩

/-- A change of the session that stays in the contexts. -/
theorem update {change : Session → Session} (h : s.SameContexts (change s)) :
    s.Ends ((Eval.update change : Eval Unit) env s) := ⟨nofun, h⟩

/-- **Contexts are given back.** -/
theorem bracket {enter leave : Session → Session} {x : Eval α}
    (hx : (enter s).Ends (x env (enter s)))
    (hleave : ∀ s', (enter s).SameContexts s' → s.SameContexts (leave s')) :
    s.Ends (Eval.bracket enter leave x env s) :=
  ⟨hx.1, hleave _ hx.2⟩

theorem whileResolving {key : ModuleId × String} {x : Eval α}
    (hx : Session.Ends { s with resolving := key :: s.resolving }
      (x env { s with resolving := key :: s.resolving })) :
    s.Ends (Eval.whileResolving key x env s) :=
  hx.bracket fun s' h => ⟨by simp [h.resolving], h.exporting, h.callDepth⟩

theorem remember {m : ModuleId} {x : Eval Value}
    (hx : Session.Ends { s with exporting := m :: s.exporting }
      (x env { s with exporting := m :: s.exporting })) :
    s.Ends (Eval.remember m x env s) :=
  bind (hx.bracket fun s' h => ⟨h.resolving, by simp [h.exporting], h.callDepth⟩) fun value s' _ =>
    (update ⟨rfl, rfl, rfl⟩).bind fun _ s'' _ => ok value

end Session.Ends

/-- **The logic of termination**: with less room than the level, a computation ends. -/
def endsWithin (env : Environment) : Logic Session Session env where
  Own _ := True
  Holds k x _ s _ := env.index.room s < k → s.Ends (x env s)
  pure a _ := .ok a
  bind hx hf hroom := (hx hroom).bind fun a s' hs =>
    hf a s' s' (by rwa [ModuleIndex.room_eq hs])
  lower hx hroom := hx (by omega)
  index _ _ hx := hx
  config hx := hx
  asks _ hx := hx
  fail _ _ := ⟨nofun, .refl _⟩
  warn _ _ := .update ⟨rfl, rfl, rfl⟩
  newScope := by
    intro α k parent f g s t hf hroom
    rw [Eval.run_newScope_bind]
    refine .after ?_ (hf _ _ t trivial ?_)
    · exact ⟨rfl, rfl, rfl⟩
    · exact hroom
  bindName _ _ _ _ := .update ⟨rfl, rfl, rfl⟩
  countCall _ _ := .update ⟨rfl, rfl, rfl⟩
  calling {_ _ _ _ _ t} hdepth hx hroom :=
    .bracket (hx _ t ((ModuleIndex.room_calling hdepth).trans_le (Nat.le_of_lt_succ hroom)))
      fun s' h => ⟨h.resolving, h.exporting, by simp [h.callDepth]⟩
  resolving := by
    intro α k m name x y s t hfree hintroduced hnot hroom
    refine .whileResolving ?_
    by_cases h : env.index.Introduces m name
    -- A name of the index takes room; any other one has no initializer to be evaluated.
    · exact hintroduced h _ t
        ((ModuleIndex.room_resolving h hfree).trans_le (Nat.le_of_lt_succ hroom))
    · exact hnot h _ t ((env.index.room_resolving_le s (m, name)).trans_lt hroom)
  exporting := by
    intro k m x y s t _ hfree hindexed hnot hroom
    refine .remember ?_
    by_cases h : (env.index.module? m).isSome
    -- The same for modules: one that is not indexed has no statements.
    · exact hindexed h _ t
        ((ModuleIndex.room_exporting h hfree).trans_le (Nat.le_of_lt_succ hroom))
    · exact hnot h _ t ((env.index.room_exporting_le s m).trans_lt hroom)

theorem endsWithin_holds {α : Type} {env : Environment} {k : Nat} {x y : Eval α} {s t : Session} :
    (endsWithin env).Holds k x y s t ↔ (env.index.room s < k → s.Ends (x env s)) := Iff.rfl

/-- There is no room to run out of. -/
theorem endsWithin_zero {env : Environment} (s t : Session) :
    (endsWithin env).Holds 0 (throw .exhausted : Eval Value) (throw .exhausted) s t :=
  endsWithin_holds.mpr fun h => absurd h (Nat.not_lt_zero _)

/-! ### No bound matters -/

/-- What a computation gives unless it reaches its bound, another one gives too. -/
def AgreeUnlessExhausted {α : Type} (env : Environment) (x y : Eval α) (s : Session) : Prop :=
  (x env s).1 ≠ .error .exhausted → y env s = x env s

namespace AgreeUnlessExhausted

variable {α β : Type} {env : Environment} {x y : Eval α} {s : Session}

theorem refl : AgreeUnlessExhausted env x x s := fun _ => rfl

/-- It is enough to agree about what comes next where the first computation leads. -/
theorem bind_of_reached {f g : α → Eval β} (hx : AgreeUnlessExhausted env x y s)
    (hf : ∀ a s', x env s = (.ok a, s') → AgreeUnlessExhausted env (f a) (g a) s') :
    AgreeUnlessExhausted env (x >>= f) (y >>= g) s := by
  intro hends
  rcases Eval.run_bind_cases x f env s with ⟨a, s', h, hrun⟩ | ⟨e, s', h, hrun⟩
  · have hy : y env s = (.ok a, s') := by rw [hx (by simp [h]), h]
    rw [hrun] at hends ⊢
    rw [Eval.run_bind_ok hy]
    exact hf a s' h hends
  · rw [hrun] at hends
    have hy : y env s = (.error e, s') := by rw [hx (by simpa [h] using hends), h]
    rw [hrun, Eval.run_bind_error hy]

theorem bind {f g : α → Eval β} (hx : AgreeUnlessExhausted env x y s)
    (hf : ∀ a s', AgreeUnlessExhausted env (f a) (g a) s') :
    AgreeUnlessExhausted env (x >>= f) (y >>= g) s :=
  hx.bind_of_reached fun a s' _ => hf a s'

theorem bracket {enter leave : Session → Session} (hx : AgreeUnlessExhausted env x y (enter s)) :
    AgreeUnlessExhausted env (Eval.bracket enter leave x) (Eval.bracket enter leave y) s := by
  intro hends
  simp only [Eval.run_bracket]
  rw [show y env (Store.update enter s) = x env (Store.update enter s) from hx hends]

end AgreeUnlessExhausted

/-- **The logic of bounds**: what a computation gives under a bound that it does not reach, it also
gives under a larger one. -/
def sameUnlessExhausted (env : Environment) : Logic Session Session env where
  Own _ := True
  Holds _ x y s t := s = t → AgreeUnlessExhausted env x y s
  pure _ _ _ := rfl
  bind hx hf hs := (hx hs).bind fun a s' => hf a s' s' rfl
  lower hx := hx
  index _ _ hx := hx
  config hx := hx
  asks _ hx := hx
  fail _ _ _ := rfl
  warn _ _ _ := rfl
  newScope hf _ := hf _ _ _ trivial rfl
  bindName _ _ _ _ _ := rfl
  countCall _ _ _ := rfl
  calling _ hx _ := .bracket (hx _ _ rfl)
  resolving _ hintroduced hnot _ := .bracket (Classical.byCases hintroduced hnot _ _ rfl)
  exporting _ _ hindexed hnot _ :=
    .bind (.bracket (Classical.byCases hindexed hnot _ _ rfl)) fun _ _ _ => rfl

theorem sameUnlessExhausted_holds {α : Type} {env : Environment} {k : Nat} {x y : Eval α}
    {s t : Session} :
    (sameUnlessExhausted env).Holds k x y s t ↔ (s = t → AgreeUnlessExhausted env x y s) :=
  Iff.rfl

/-! ### Termination -/

/-- Under a bound that is larger than the room that a session leaves, every goal is evaluated. -/
theorem evaluate_ends {env : Environment} {s : Session} {k : Nat} (h : env.index.room s < k)
    (goal : Goal) : s.Ends (evaluate k goal env s) := by
  have hev := Logic.evaluate (L := endsWithin env) (j := 0) (fun _ => endsWithin_zero) k
  exact endsWithin_holds.mp (hev goal s s) h

theorem request_ends (env : Environment) (r : Request) (s : Session) : s.Ends (r.run env s) := by
  have hr := Logic.request (L := endsWithin env) endsWithin_zero r s s
  have := env.index.room_le s
  have := env.index.distinctContexts_le
  exact endsWithin_holds.mp hr (by omega)

/-- A bound that is not reached may as well be larger. -/
theorem evaluate_add {env : Environment} {s : Session} {k : Nat} {goal : Goal}
    (h : (evaluate k goal env s).1 ≠ .error .exhausted) (j : Nat) :
    evaluate (j + k) goal env s = evaluate k goal env s := by
  have hev := Logic.evaluate (L := sameUnlessExhausted env) (j := j)
    (fun _ _ _ => sameUnlessExhausted_holds.mpr fun _ hends => absurd rfl hends) k
  exact sameUnlessExhausted_holds.mp (hev goal s s) rfl h

/-- **Evaluation ends**, from every session, whatever names, helpers and modules lead back to
themselves: no request runs into a bound, and neither does any evaluation under a bound larger than
the number of names that modules introduce, of modules, and of calls that may be nested, taken
together. All such bounds give the same result. -/
theorem evaluation_terminates (env : Environment) (s : Session) :
    (∀ r : Request, (r.run env s).1 ≠ .error .exhausted) ∧
      ∀ goal k, env.index.distinctContexts < k →
        (evaluate k goal env s).1 ≠ .error .exhausted ∧
          evaluate k goal env s = evaluate (env.index.contexts + 1) goal env s := by
  refine ⟨fun r => (request_ends env r s).1, fun goal k hk => ?_⟩
  have hends (k : Nat) (hk : env.index.distinctContexts < k) :
      (evaluate k goal env s).1 ≠ .error .exhausted :=
    (evaluate_ends ((env.index.room_le s).trans_lt hk) goal).1
  -- Every larger bound agrees with the least one that is never reached, so all of them agree.
  have hsame (k : Nat) (hk : env.index.distinctContexts < k) :
      evaluate k goal env s = evaluate (env.index.distinctContexts + 1) goal env s := by
    obtain ⟨j, rfl⟩ := Nat.exists_eq_add_of_le' hk
    exact evaluate_add (hends _ (by omega)) j
  refine ⟨hends k hk, (hsame k hk).trans (hsame _ ?_).symm⟩
  have := env.index.distinctContexts_le
  omega

end SchemaDoc
