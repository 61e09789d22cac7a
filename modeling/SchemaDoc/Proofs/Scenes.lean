import SchemaDoc.Proofs.Logs
import SchemaDoc.Proofs.Mentions
import SchemaDoc.Proofs.Similarity

/-!
# Where code comes from

While a name is being resolved, the code that is run may be far from where it was written: a helper
can be passed on, kept in an object, or returned by another helper. But all of it stands in the
declarations that this name leads to, and so do the functions in all values that can be got hold of.
A `Scene` says so: it is where evaluation stands, and `Scene.Keeps` says that a computation does
nothing else but to run code of the scene.

What makes this work is that a declaration is evaluated at top level. It does not see the frames that
are there already, so that no value of theirs gets into it. A scene is therefore about the frames from
some number on, and about values whose functions were created in those; older frames are left alone
(`Scene.After`). When a name begins to be resolved, all frames become older ones
(`Scene.Keeps.whileResolving`).

Beside the frames, a scene keeps an eye on the log: no name is reported to refer to itself.
-/

namespace SchemaDoc

open Evaluate

/-! ### Functions in values -/

/-- All functions in a value have a property. -/
inductive Value.FunctionsAre (P : FunctionLit → ModuleId → Scope → Prop) : Value → Prop
  | atom {v : Value} (h : v.isAtom = true) : FunctionsAre P v
  | map {fields : List (String × Value)} (h : ∀ field ∈ fields, FunctionsAre P field.2) :
    FunctionsAre P (.map fields)
  | list {items : List Value} (h : ∀ item ∈ items, FunctionsAre P item) :
    FunctionsAre P (.list items)
  | function {f : FunctionLit} {m : ModuleId} {scope : Scope} (h : P f m scope) :
    FunctionsAre P (.function f m scope)

namespace Value.FunctionsAre

variable {P P' : FunctionLit → ModuleId → Scope → Prop} {v : Value}

theorem unknown : FunctionsAre P .unknown := .atom rfl

theorem mono (h : FunctionsAre P v) (hP : ∀ f m scope, P f m scope → P' f m scope) :
    FunctionsAre P' v := by
  induction h with
  | atom h => exact .atom h
  | map _ ih => exact .map ih
  | list _ ih => exact .list ih
  | function h => exact .function (hP _ _ _ h)

theorem fields {fields : List (String × Value)} (h : FunctionsAre P (.map fields)) :
    ∀ field ∈ fields, FunctionsAre P field.2 := by
  cases h with
  | atom h => cases h
  | map h => exact h

theorem items {items : List Value} (h : FunctionsAre P (.list items)) :
    ∀ item ∈ items, FunctionsAre P item := by
  cases h with
  | atom h => cases h
  | list h => exact h

theorem of_function {f : FunctionLit} {m : ModuleId} {scope : Scope}
    (h : FunctionsAre P (.function f m scope)) : P f m scope := by
  cases h with
  | atom h => cases h
  | function h => exact h

theorem field? (h : FunctionsAre P v) {key : String} {w : Value} (hw : v.field? key = some w) :
    FunctionsAre P w := by
  cases v with
  | map fields => exact h.fields _ (mem_of_lookupKey? hw)
  | _ => cases hw

theorem member (h : FunctionsAre P v) (property : String) : FunctionsAre P (v.member property) := by
  unfold Value.member
  split
  next w hw => exact h.field? hw
  next => split <;> exact .atom rfl

theorem getD {o : Option Value} (h : ∀ w ∈ o, FunctionsAre P w) :
    FunctionsAre P (o.getD .unknown) := by
  cases o with
  | none => exact .unknown
  | some w => exact h w rfl

theorem merge {fields more : List (String × Value)} (h : ∀ field ∈ fields, FunctionsAre P field.2)
    (hmore : ∀ field ∈ more, FunctionsAre P field.2) :
    ∀ field ∈ merge fields more, FunctionsAre P field.2 := by
  induction more generalizing fields with
  | nil => exact h
  | cons field more ih =>
    obtain ⟨hfield, hmore⟩ := List.forall_mem_cons.mp hmore
    exact ih (forall_mem_insertKey h field.1 hfield) hmore

theorem indexed {items : List Value} (h : ∀ item ∈ items, FunctionsAre P item) (i : Nat) :
    ∀ field ∈ indexed i items, FunctionsAre P field.2 := by
  induction items generalizing i with
  | nil => exact nofun
  | cons item items ih =>
    obtain ⟨hitem, hitems⟩ := List.forall_mem_cons.mp h
    exact List.forall_mem_cons.mpr ⟨hitem, ih hitems (i + 1)⟩

end Value.FunctionsAre

/-! ### Reports -/

/-- What is reported when a name is reached while it is being resolved. -/
def selfReport (name : String) : String := s!"'{name}' refers to itself; treated as unknown"

theorem Log.has_of_has_add {log : Log} {level : Level} {message other : String}
    (h : (log.add level message).Has other) : other = message ∨ log.Has other := by
  unfold Log.add at h
  split at h
  · exact Or.inr h
  · obtain ⟨entry, hentry, rfl⟩ := h
    rcases Array.mem_push.mp hentry with hentry | rfl
    · exact Or.inr ⟨entry, hentry, rfl⟩
    · exact Or.inl rfl

/-- The report starts with a quotation mark and ends with a letter. -/
theorem selfReport_ne {name message : String}
    (h : message.toList.head? ≠ "'".toList.head? ∨ message.toList.getLast? ≠ some 'n') :
    selfReport name ≠ message := by
  rintro rfl
  have hlist : (selfReport name).toList =
      "'".toList ++ (name.toList ++ "' refers to itself; treated as unknown".toList) := by
    change (("'" ++ name) ++ "' refers to itself; treated as unknown").toList = _
    rw [String.toList_append, String.toList_append, List.append_assoc]
  rw [hlist, List.getLast?_append, List.getLast?_append] at h
  exact h.elim (fun hhead => hhead rfl) fun hlast => hlast rfl

theorem selfReport_ne_append {name front back : String} {last : Char}
    (h : back.toList.getLast? = some last) (hlast : last ≠ 'n') :
    selfReport name ≠ front ++ back := by
  refine selfReport_ne (.inr ?_)
  rw [String.toList_append, List.getLast?_append, h]
  simpa using hlast

/-! ### Scenes -/

/-- **Where the evaluation of a program stands**: the name that is being resolved, all names that
are, and how many frames there were when it began to be. -/
structure Scene (program : Program) (m : ModuleId) where
  root : String
  stack : List (ModuleId × String)
  base : Nat

namespace Scene

variable {program : Program} {m : ModuleId} (c : Scene program m)

/-- The code that may be run: what stands in the declarations that the name leads to. -/
def Code (e : Expr) : Prop :=
  ∃ name d, Relation.ReflTransGen program.Mentions c.root name ∧
    origin? program name = some (.declarator d) ∧ d.Has e

/-- A scope that is not older than the scene. -/
def Sees (scope : Scope) : Prop := ∀ id ∈ scope, c.base ≤ id

/-- A function that was created in the scene. -/
structure Owns (f : FunctionLit) (home : ModuleId) (scope : Scope) : Prop where
  home_eq : home = m
  code : ∀ e ∈ f.parts, c.Code e
  sees : c.Sees scope

/-- A value all of whose functions were created in the scene. -/
abbrev Gives (v : Value) : Prop := v.FunctionsAre c.Owns

/-- A frame that may be seen: so may what is around it, and what is bound in it. -/
structure Shows (frame : Frame) : Prop where
  parent : c.Sees frame.parent
  bindings : ∀ binding ∈ frame.bindings, c.Gives binding.2

/-- A session in which the code of the scene may be run. -/
structure Ready (s : Session) : Prop where
  resolving : s.resolving = c.stack
  base_le : c.base ≤ s.frames.frames.size
  frames : ∀ id frame, c.base ≤ id → s.frames.frames[id]? = some frame → c.Shows frame

/-- What running it does: older frames are left alone, and no name is found to refer to itself. -/
structure After (s s' : Session) : Prop where
  ready : c.Ready s'
  older : ∀ id < c.base, s'.frames.frames[id]? = s.frames.frames[id]?
  reports : ∀ name, s'.log.Has (selfReport name) → s.log.Has (selfReport name)

/-- **No name that the scene leads to is being resolved.** -/
def Clear : Prop := ∀ other, Relation.TransGen program.Mentions c.root other → (m, other) ∉ c.stack

/-- The scene of a name that begins to be resolved. -/
def enter (name : String) (base : Nat) : Scene program m := ⟨name, (m, name) :: c.stack, base⟩

variable {c}

theorem Code.part {e part : Expr} (h : c.Code e) (hpart : part ∈ e.parts) : c.Code part := by
  obtain ⟨name, d, hreach, horigin, hhas⟩ := h
  exact ⟨name, d, hreach, horigin, hhas.inside hpart⟩

/-- What the name leads to is the code of a scene that it led to. -/
theorem Gives.mono {c' : Scene program m}
    (hreach : Relation.ReflTransGen program.Mentions c.root c'.root) (hbase : c.base ≤ c'.base)
    {v : Value} (h : c'.Gives v) : c.Gives v := by
  refine Value.FunctionsAre.mono h fun f home scope hf =>
    ⟨hf.home_eq, fun e he => ?_, fun id hid => ?_⟩
  · obtain ⟨name, d, hreach', horigin, hhas⟩ := hf.code e he
    exact ⟨name, d, hreach.trans hreach', horigin, hhas⟩
  · exact Nat.le_trans hbase (hf.sees id hid)

/-- What is bound in a scope that may be seen. -/
theorem Ready.lookup? {s : Session} (h : c.Ready s) {scope : Scope} (hscope : c.Sees scope)
    {name : String} {v : Value} (hv : s.frames.lookup? scope name = some v) : c.Gives v := by
  rw [Frames.lookup?] at hv
  generalize s.frames.frames.size = fuel at hv
  induction fuel generalizing scope with
  | zero => cases hv
  | succ fuel ih =>
    cases scope with
    | none => cases hv
    | some id =>
      simp only [Frames.lookupWithin] at hv
      split at hv
      next => cases hv
      next frame hframe =>
        have hshows := h.frames id frame (hscope id rfl) hframe
        split at hv
        next w hw =>
          cases hv
          exact hshows.bindings _ (mem_of_lookupKey? hw)
        next => exact ih hshows.parent hv

theorem Ready.congr {s s' : Session} (h : c.Ready s) (hresolving : s'.resolving = s.resolving)
    (hframes : s'.frames = s.frames) : c.Ready s' where
  resolving := hresolving.trans h.resolving
  base_le := hframes ▸ h.base_le
  frames := hframes ▸ h.frames

theorem After.trans {s s' s'' : Session} (h : c.After s s') (h' : c.After s' s'') :
    c.After s s'' where
  ready := h'.ready
  older id hid := (h'.older id hid).trans (h.older id hid)
  reports name hname := h.reports name (h'.reports name hname)

/-- A change of nothing but what is counted. -/
theorem Ready.after_of_eq {s s' : Session} (h : c.Ready s) (hresolving : s'.resolving = s.resolving)
    (hframes : s'.frames = s.frames) (hlog : s'.log = s.log) : c.After s s' where
  ready := h.congr hresolving hframes
  older _ _ := by rw [hframes]
  reports _ hname := hlog ▸ hname

/-! ### The rules -/

/-- **Running a computation in a scene**: it does what may be done, and its result is as said. -/
def Keeps (c : Scene program m) (env : Environment) {α : Type} (x : Eval α) (result : α → Prop) :
    Prop :=
  ∀ s, c.Ready s → c.After s (x env s).2 ∧ ∀ a, (x env s).1 = .ok a → result a

namespace Keeps

variable {env : Environment} {α β : Type} {x : Eval α} {result : α → Prop}
  {final : β → Prop}

theorem pure {a : α} (h : result a) : c.Keeps env (pure a) result := by
  refine fun s hs => ⟨hs.after_of_eq rfl rfl rfl, ?_⟩
  rintro _ ⟨⟩
  exact h

theorem stop (reason : Stop) : c.Keeps env (throw reason : Eval α) result :=
  fun _ hs => ⟨hs.after_of_eq rfl rfl rfl, nofun⟩

theorem bind {f : α → Eval β} (hx : c.Keeps env x result)
    (hf : ∀ a, result a → c.Keeps env (f a) final) : c.Keeps env (x >>= f) final := by
  intro s hs
  obtain ⟨hafter, hresult⟩ := hx s hs
  rcases Eval.run_bind_cases x f env s with ⟨a, s', hrun, hbind⟩ | ⟨e, s', hrun, hbind⟩
  · rw [hrun] at hafter hresult
    obtain ⟨hafter', hfinal⟩ := hf a (hresult a rfl) s' hafter.ready
    rw [hbind]
    exact ⟨hafter.trans hafter', hfinal⟩
  · rw [hrun] at hafter
    rw [hbind]
    exact ⟨hafter, nofun⟩

theorem asks {question : Session → α} {f : α → Eval β}
    (h : ∀ s, c.Ready s → c.Keeps env (f (question s)) final) :
    c.Keeps env (Eval.asks question >>= f) final :=
  fun s hs => h s hs s hs

theorem index {f : ModuleIndex → Eval β} (h : c.Keeps env (f env.index) final) :
    c.Keeps env (Eval.index >>= f) final := h

theorem config {f : Config → Eval β} (h : c.Keeps env (f env.config) final) :
    c.Keeps env (Eval.config >>= f) final := h

/-- Another report. -/
theorem warn {message : String} (h : ∀ name, selfReport name ≠ message) :
    c.Keeps env (Eval.warn message) fun _ => True := by
  refine fun s hs => ⟨⟨hs.congr rfl rfl, fun _ _ => rfl, fun name hname => ?_⟩, fun _ _ => trivial⟩
  exact (Log.has_of_has_add hname).resolve_left (h name)

theorem warn_unknown {message : String} (h : ∀ name, selfReport name ≠ message) :
    c.Keeps env (do Eval.warn message; return Value.unknown) c.Gives :=
  (warn h).bind fun _ _ => .pure .unknown

/-- A new frame. -/
theorem newScope {parent : Scope} (hparent : c.Sees parent) {f : Scope → Eval β}
    (hf : ∀ id, c.base ≤ id → c.Keeps env (f (some id)) final) :
    c.Keeps env (Eval.newScope parent >>= f) final := by
  intro s hs
  have hnew : c.After s { s with frames := (s.frames.child parent []).1 } := by
    refine ⟨⟨hs.resolving, ?_, fun id frame hid hframe => ?_⟩, fun id hid => ?_, fun _ h => h⟩
    · simpa [Frames.child] using Nat.le_succ_of_le hs.base_le
    · simp only [Frames.child, Array.getElem?_push] at hframe
      split at hframe
      next =>
        cases hframe
        exact ⟨hparent, nofun⟩
      next => exact hs.frames id frame hid hframe
    · exact Frames.getElem?_child (Nat.lt_of_lt_of_le hid hs.base_le) parent []
  obtain ⟨hafter, hfinal⟩ := hf s.frames.frames.size hs.base_le _ hnew.ready
  exact ⟨hnew.trans hafter, hfinal⟩

theorem bindName {id : Nat} (hid : c.base ≤ id) (name : String) {v : Value} (hv : c.Gives v) :
    c.Keeps env (Eval.bindName (some id) name v) fun _ => True := by
  refine fun s hs => ⟨⟨⟨hs.resolving, ?_, fun id' frame hid' hframe => ?_⟩, fun id' hid' => ?_,
    fun _ h => h⟩, fun _ _ => trivial⟩
  · exact Nat.le_trans hs.base_le (Nat.le_of_eq (Frames.size_bind _ _ _ _).symm)
  · by_cases hne : id = id'
    · obtain rfl := hne
      change (s.frames.bind (some id) name v).frames[id]? = some frame at hframe
      simp only [Frames.bind] at hframe
      split at hframe
      next hnone => exact hs.frames id frame hid hframe
      next old hold =>
        have hlt := (Array.getElem?_eq_some_iff.mp hold).1
        rw [Array.getElem?_setIfInBounds_self_of_lt hlt] at hframe
        cases hframe
        have hshows := hs.frames id old hid hold
        exact ⟨hshows.parent, forall_mem_insertKey hshows.bindings name hv⟩
    · exact hs.frames id' frame hid' ((Frames.getElem?_bind_of_ne hne name v).symm.trans hframe)
  · exact Frames.getElem?_bind_of_ne (by omega) name v

theorem countCall : c.Keeps env Eval.countCall fun _ => True :=
  fun _ hs => ⟨hs.after_of_eq rfl rfl rfl, fun _ _ => trivial⟩

theorem whileCalling (hx : c.Keeps env x result) : c.Keeps env (Eval.whileCalling x) result := by
  intro s hs
  obtain ⟨hafter, hresult⟩ := hx { s with callDepth := s.callDepth + 1 } (hs.congr rfl rfl)
  exact ⟨⟨hafter.ready.congr rfl rfl, hafter.older, hafter.reports⟩, hresult⟩

/-- **A name begins to be resolved.** Its declaration is evaluated in a scene of its own, which is
newer than all frames; what comes of it belongs to the scene around, if that leads to the name. -/
theorem whileResolving {name : String}
    (hreach : Relation.ReflTransGen program.Mentions c.root name) {x : Eval (Option Value)}
    (hx : ∀ base, (c.enter name base).Keeps env x fun found => ∀ v ∈ found,
      (c.enter name base).Gives v) :
    c.Keeps env (Eval.whileResolving (m, name) x) fun found => ∀ v ∈ found, c.Gives v := by
  intro s hs
  have hinner : (c.enter name s.frames.frames.size).Ready
      { s with resolving := (m, name) :: s.resolving } := by
    refine ⟨congrArg _ hs.resolving, Nat.le_refl _, fun id frame hid hframe => ?_⟩
    exact absurd (Array.getElem?_eq_some_iff.mp hframe).1 (Nat.not_lt_of_le hid)
  obtain ⟨hafter, hresult⟩ := hx _ _ hinner
  have hgives {v : Value} (hv : (c.enter name s.frames.frames.size).Gives v) : c.Gives v :=
    Gives.mono hreach hs.base_le hv
  refine ⟨⟨⟨?_, ?_, fun id frame hid hframe => ?_⟩, fun id hid => ?_, hafter.reports⟩,
    fun found hfound v hv => hgives (hresult found hfound v hv)⟩
  · exact congrArg List.tail hafter.ready.resolving
  · exact Nat.le_trans hs.base_le hafter.ready.base_le
  · by_cases hold : id < s.frames.frames.size
    · exact hs.frames id frame hid ((hafter.older id hold).symm.trans hframe)
    · have hshows := hafter.ready.frames id frame (Nat.le_of_not_lt hold) hframe
      refine ⟨fun id' hid' => Nat.le_trans hs.base_le (hshows.parent id' hid'), fun binding hb => ?_⟩
      exact hgives (hshows.bindings binding hb)
  · exact hafter.older id (Nat.lt_of_lt_of_le hid hs.base_le)

end Keeps

end Scene

end SchemaDoc
