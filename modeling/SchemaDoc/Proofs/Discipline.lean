import SchemaDoc.Proofs.Stores

/-!
# The discipline of sessions

A session is changed before and after everything that evaluation enters, and evaluation can stop in
the middle. What is changed on the way in has to be undone on every way out, or the next request
would take a name for one that is being resolved. This file shows that it is, and what holds at every
moment in between.

A moment is a session that evaluation goes through. A `History` is a store that keeps all of them,
and evaluation over it is the same evaluation: `request_over_store` says so for every store.
-/

namespace SchemaDoc

open Evaluate

/-! ### Histories -/

/-- A session with the ones that were there before it, the last one first. -/
structure History where
  now : Session
  past : List Session

namespace History

instance : Store History where
  session h := h.now
  update change h := ⟨change h.now, h.now :: h.past⟩
  session_update _ _ := rfl

/-- All sessions that a history went through. -/
def moments (h : History) : List Session := h.now :: h.past

/-- A history that starts now. -/
def start (s : Session) : History := ⟨s, []⟩

end History

/-! ### What holds at every moment -/

/-- **An orderly session**: no name is being resolved twice, the limits on calls are kept, and the
exports of a module are known once, and not while they are being evaluated. -/
structure Session.Orderly (s : Session) : Prop where
  resolving_nodup : s.resolving.Nodup
  callDepth_le : s.callDepth ≤ callDepthLimit
  calls_le : s.calls ≤ callLimit
  exports_nodup : (s.exports.map Prod.fst).Nodup
  exporting_unknown : ∀ m ∈ s.exporting, s.exports.lookup m = none

theorem Session.start_orderly (log : Log) : (Session.start log).Orderly :=
  ⟨.nil, Nat.zero_le _, Nat.zero_le _, .nil, nofun⟩

namespace Session.Orderly

variable {s : Session}

theorem resolving (h : s.Orderly) {key : ModuleId × String} (hfree : key ∉ s.resolving) :
    Session.Orderly { s with resolving := key :: s.resolving } :=
  { h with resolving_nodup := List.nodup_cons.mpr ⟨hfree, h.resolving_nodup⟩ }

theorem resolved (h : s.Orderly) : Session.Orderly { s with resolving := s.resolving.tail } :=
  { h with resolving_nodup := h.resolving_nodup.sublist (List.tail_sublist _) }

theorem calling (h : s.Orderly) (hdepth : s.callDepth < callDepthLimit) :
    Session.Orderly { s with callDepth := s.callDepth + 1 } :=
  { h with callDepth_le := hdepth }

theorem called (h : s.Orderly) : Session.Orderly { s with callDepth := s.callDepth - 1 } :=
  { h with callDepth_le := Nat.le_trans (Nat.sub_le _ _) h.callDepth_le }

theorem counted (h : s.Orderly) (hcalls : s.calls < callLimit) :
    Session.Orderly { s with calls := s.calls + 1 } :=
  { h with calls_le := hcalls }

theorem exporting (h : s.Orderly) {m : ModuleId} (hunknown : s.exports.lookup m = none) :
    Session.Orderly { s with exporting := m :: s.exporting } :=
  { h with
    exporting_unknown := fun m' hm' =>
      (List.mem_cons.mp hm').elim (fun he => he ▸ hunknown) (h.exporting_unknown m') }

theorem exported (h : s.Orderly) : Session.Orderly { s with exporting := s.exporting.tail } :=
  { h with exporting_unknown := fun m hm => h.exporting_unknown m (List.mem_of_mem_tail hm) }

/-- The exports of a module can be remembered once they are no longer being evaluated, and if they
were not known before. -/
theorem remembered (h : s.Orderly) {m : ModuleId} (hunknown : s.exports.lookup m = none)
    (hdone : m ∉ s.exporting) (value : Value) :
    Session.Orderly { s with exports := (m, value) :: s.exports } :=
  { h with
    exports_nodup := by
      refine List.nodup_cons.mpr ⟨fun hm => ?_, h.exports_nodup⟩
      obtain ⟨p, hp, hpm⟩ := List.mem_map.mp hm
      simpa [hpm] using List.lookup_eq_none_iff.mp hunknown p hp
    exporting_unknown := fun m' hm' => by
      have hne : (m' == m) = false := beq_false_of_ne fun he => hdone (he ▸ hm')
      rw [List.lookup_cons, hne]
      exact h.exporting_unknown m' hm' }

end Session.Orderly

/-! ### What is kept -/

/-- **What one session keeps of another**, where the frames below `base` are older than what came
between them: the contexts, the number of calls or more, the exports that are known, and those
frames. -/
structure Session.Keeps (base : Nat) (s s' : Session) : Prop extends s.SameContexts s' where
  calls : s.calls ≤ s'.calls
  exports : ∀ m value, s.exports.lookup m = some value → s'.exports.lookup m = some value
  base_le : base ≤ s'.frames.frames.size
  frames : ∀ id < base, s'.frames.frames[id]? = s.frames.frames[id]?

namespace Session.Keeps

variable {base : Nat} {s s' s'' : Session}

theorem refl (h : base ≤ s.frames.frames.size) : s.Keeps base s :=
  ⟨.refl s, Nat.le_refl _, fun _ _ h => h, h, fun _ _ => rfl⟩

theorem trans (h : s.Keeps base s') (h' : s'.Keeps base s'') : s.Keeps base s'' where
  toSameContexts := h.toSameContexts.trans h'.toSameContexts
  calls := Nat.le_trans h.calls h'.calls
  exports m value hm := h'.exports m value (h.exports m value hm)
  base_le := h'.base_le
  frames id hid := (h'.frames id hid).trans (h.frames id hid)

end Session.Keeps

/-- **A disciplined change of a history**: it only goes through orderly sessions, and the last one
keeps what the first one had. -/
structure History.Disciplined (base : Nat) (h h' : History) : Prop where
  orderly : ∀ s ∈ h'.moments, s.Orderly
  keeps : h.now.Keeps base h'.now

namespace History

variable {base : Nat} {h h' h'' : History}

/-- A history that went through orderly sessions only, and has the frames below `base`. -/
def Ready (base : Nat) (h : History) : Prop :=
  (∀ s ∈ h.moments, s.Orderly) ∧ base ≤ h.now.frames.frames.size

theorem Ready.now (hr : h.Ready base) : h.now.Orderly := hr.1 _ List.mem_cons_self

theorem Ready.update (hr : h.Ready base) {change : Session → Session}
    (horderly : (change h.now).Orderly) (hbase : base ≤ (change h.now).frames.frames.size) :
    Ready base (Store.update change h) :=
  ⟨fun s hs => (List.mem_cons.mp hs).elim (fun he => he ▸ horderly) (hr.1 s), hbase⟩

namespace Disciplined

theorem ready (hd : h.Disciplined base h') : h'.Ready base := ⟨hd.orderly, hd.keeps.base_le⟩

theorem refl (hr : h.Ready base) : h.Disciplined base h := ⟨hr.1, .refl hr.2⟩

theorem trans (hd : h.Disciplined base h') (hd' : h'.Disciplined base h'') :
    h.Disciplined base h'' :=
  ⟨hd'.orderly, hd.keeps.trans hd'.keeps⟩

theorem update {change : Session → Session} (hr : h.Ready base)
    (horderly : (change h.now).Orderly) (hkeeps : h.now.Keeps base (change h.now)) :
    h.Disciplined base (Store.update change h) :=
  ⟨(hr.update horderly hkeeps.base_le).1, hkeeps⟩

/-- **Going in and out.** -/
theorem bracket {α : Type} {env : Environment} {x : EvalOver History α}
    {enter leave : Session → Session} (hr : h.Ready base) (henter : (enter h.now).Orderly)
    (hbase : base ≤ (enter h.now).frames.frames.size)
    (hx : ∀ h : History, h.Ready base → h.Disciplined base (x env h).2)
    (hleave : ∀ s', s'.Orderly → (enter h.now).Keeps base s' →
      (leave s').Orderly ∧ h.now.Keeps base (leave s')) :
    h.Disciplined base (Eval.bracket enter leave x env h).2 := by
  have hinside := hx _ (hr.update henter hbase)
  obtain ⟨horderly, hkeeps⟩ := hleave _ hinside.ready.now hinside.keeps
  exact ⟨(hinside.ready.update horderly hkeeps.base_le).1, hkeeps⟩

/-- **A module is left with its exports still unknown**, whatever was required on the way: they are
unknown as long as they are being evaluated. -/
theorem whileExporting {env : Environment} {m : ModuleId} {x : EvalOver History Value}
    (hr : h.Ready base) (hunknown : h.now.exports.lookup m = none)
    (hx : ∀ h : History, h.Ready base → h.Disciplined base (x env h).2) :
    h.Disciplined base (Eval.whileExporting m x env h).2 ∧
      (Eval.whileExporting m x env h).2.now.exports.lookup m = none := by
  have hentered := hr.now.exporting hunknown
  refine ⟨?_, ?_⟩
  · refine bracket hr hentered hr.2 hx fun s' hs' hkeeps => ⟨hs'.exported, ?_⟩
    exact { hkeeps with exporting := by simp [hkeeps.exporting] }
  -- At the last moment inside, `m` is still being exported, so that moment knows no exports of it.
  · have hready : Ready base
        (Store.update (fun s : Session => { s with exporting := m :: s.exporting }) h) :=
      hr.update hentered hr.2
    have hinside := hx _ hready
    refine hinside.ready.now.exporting_unknown m ?_
    rw [hinside.keeps.exporting]
    exact List.mem_cons_self

end Disciplined

end History

/-! ### Frames -/

theorem Frames.getElem?_child {fs : Frames} {id : Nat} (hid : id < fs.frames.size)
    (parent : Scope) (bindings : List (String × Value)) :
    (fs.child parent bindings).1.frames[id]? = fs.frames[id]? := by
  simp [Frames.child, Array.getElem?_push, Nat.ne_of_lt hid]

theorem Frames.size_bind (fs : Frames) (scope : Scope) (name : String) (value : Value) :
    (fs.bind scope name value).frames.size = fs.frames.size := by
  unfold Frames.bind
  split
  · rfl
  · split
    · rfl
    · exact Array.size_setIfInBounds

theorem Frames.getElem?_bind_of_ne {fs : Frames} {id id' : Nat} (hne : id ≠ id') (name : String)
    (value : Value) : (fs.bind (some id) name value).frames[id']? = fs.frames[id']? := by
  simp only [Frames.bind]
  split
  · rfl
  · exact Array.getElem?_setIfInBounds_ne hne

theorem Frames.getElem?_bind_self (fs : Frames) (id : Nat) (name : String) (value : Value) :
    (fs.bind (some id) name value).frames[id]? = fs.frames[id]?.map fun frame =>
      { frame with bindings := insertKey name value frame.bindings } := by
  rw [Frames.bind]
  cases hframe : fs.frames[id]? with
  | none => exact hframe
  | some frame =>
    exact Array.getElem?_setIfInBounds_self_of_lt (Array.getElem?_eq_some_iff.mp hframe).1

/-! ### Evaluation is disciplined -/

/-- **The logic of discipline.** Only frames from `base` on are bound in. -/
def disciplined (base : Nat) (env : Environment) : Logic History History env where
  Own id := base ≤ id
  Holds _ x _ h _ := h.Ready base → h.Disciplined base (x env h).2
  pure _ hr := .refl hr
  bind := by
    intro α β k x y f g h h' hx hf hr
    rcases Eval.run_bind_cases x f env h with ⟨a, h₁, hrun, hbind⟩ | ⟨e, h₁, hrun, hbind⟩
    · have hfirst := hx hr
      rw [hrun] at hfirst
      rw [hbind]
      exact hfirst.trans (hf a h₁ h₁ hfirst.ready)
    · have hfirst := hx hr
      rw [hrun] at hfirst
      rwa [hbind]
  lower hx := hx
  index _ _ hx := hx
  config hx := hx
  asks _ hx := hx
  fail _ hr := .refl hr
  warn _ hr := .update hr { hr.now with } { Session.Keeps.refl hr.2 with }
  newScope := by
    intro α k parent f g h h' hf hr
    rw [Eval.run_newScope_bind]
    have hnew : h.Disciplined base (Store.update (fun s : Session => { s with
        frames := (h.now.frames.child parent []).1 }) h) :=
      .update hr { hr.now with }
        { Session.Keeps.refl hr.2 with
          base_le := by simpa [Frames.child] using Nat.le_succ_of_le hr.2
          frames := fun id hid => Frames.getElem?_child (Nat.lt_of_lt_of_le hid hr.2) _ _ }
    exact hnew.trans (hf _ _ h' hr.2 hnew.ready)
  bindName name value hid hr :=
    .update hr { hr.now with }
      { Session.Keeps.refl hr.2 with
        base_le := by simpa [Frames.size_bind] using hr.2
        frames := fun id' hid' =>
          Frames.getElem?_bind_of_ne (Nat.ne_of_gt (Nat.lt_of_lt_of_le hid' hid)) name value }
  countCall hcalls hr :=
    .update hr (hr.now.counted hcalls)
      { Session.Keeps.refl hr.2 with calls := Nat.le_succ _ }
  calling {_ _ _ _ _ h'} hdepth hx hr :=
    .bracket hr (hr.now.calling hdepth) hr.2 (fun h => hx h h') fun s' hs' hkeeps =>
      ⟨hs'.called, { hkeeps with callDepth := by simp [hkeeps.callDepth] }⟩
  resolving {_ _ _ _ _ _ _ h'} hfree hintroduced hnot hr :=
    .bracket hr (hr.now.resolving hfree) hr.2
      (fun h => Classical.byCases hintroduced hnot h h') fun s' hs' hkeeps =>
      ⟨hs'.resolved, { hkeeps with resolving := by simp [hkeeps.resolving] }⟩
  exporting := by
    intro k m x y h h' hunknown hfree hindexed hnot hr
    have hx (h : History) : h.Ready base → h.Disciplined base (x env h).2 :=
      Classical.byCases hindexed hnot h h'
    obtain ⟨hinside, hstill⟩ := History.Disciplined.whileExporting hr hunknown hx
    rw [Eval.run_remember]
    rcases hrun : Eval.whileExporting m x env h with ⟨e | value, h₁⟩
    · rwa [hrun] at hinside
    -- The module is not among those being evaluated any more, and its exports are still unknown:
    -- so they are entered only once, and only after it was left.
    · rw [hrun] at hinside hstill
      have hdone : m ∉ h₁.now.exporting := by rwa [hinside.keeps.exporting]
      refine hinside.trans (.update hinside.ready
        (hinside.ready.now.remembered hstill hdone value) ?_)
      exact { Session.Keeps.refl hinside.keeps.base_le with
        exports := fun m' value' hm' => by
          have hne : (m' == m) = false := beq_false_of_ne fun he => by
            rw [he, hstill] at hm'
            exact nomatch hm'
          rwa [List.lookup_cons, hne] }

theorem disciplined_holds {α : Type} {base : Nat} {env : Environment} {k : Nat}
    {x y : EvalOver History α} {h h' : History} :
    (disciplined base env).Holds k x y h h' ↔
      (h.Ready base → h.Disciplined base (x env h).2) := Iff.rfl

/-- **Every request is disciplined.** -/
theorem request_disciplined (env : Environment) (r : Request) {base : Nat} {h : History}
    (hr : h.Ready base) : h.Disciplined base (r.run env h).2 :=
  disciplined_holds.mp (Logic.request (L := disciplined base env)
    (fun _ _ => disciplined_holds.mpr .refl) r h h) hr

/-! ### Runs of requests -/

/-- The session that requests leave, one after the other, whether they give values or stop. -/
def Session.after (env : Environment) (s : Session) (requests : List Request) : Session :=
  requests.foldl (fun s r => (r.run env s).2) s

/-- Evaluating a request from an orderly session: what holds at every moment, and what is kept. -/
theorem request_keeps (env : Environment) (r : Request) {s : Session} (hs : s.Orderly) :
    (∀ t ∈ (r.run env (History.start s)).2.moments, t.Orderly) ∧
      (r.run env (History.start s)).1 = (r.run env s).1 ∧
      (r.run env (History.start s)).2.now = (r.run env s).2 ∧
      (r.run env s).2.Orderly ∧ s.Keeps s.frames.frames.size (r.run env s).2 := by
  have hready : (History.start s).Ready s.frames.frames.size :=
    ⟨fun t ht => (List.mem_singleton.mp ht) ▸ hs, Nat.le_refl _⟩
  have hd := request_disciplined env r hready
  have hf := request_over_store env r (History.start s)
  exact ⟨hd.orderly, hf.1, hf.2, hf.2 ▸ hd.ready.now, hf.2 ▸ hd.keeps⟩

theorem Session.Orderly.after {env : Environment} {s : Session} (hs : s.Orderly)
    (requests : List Request) : (s.after env requests).Orderly := by
  induction requests generalizing s with
  | nil => exact hs
  | cons r requests ih =>
    obtain ⟨-, -, -, hnext, -⟩ := request_keeps env r hs
    exact ih hnext

/-- **The discipline of sessions.** After any requests to a new session, a request leaves what is
being resolved and exported, the depth of calls and the frames that were there as they were, whether
it gives a value or stops; exports that are known stay known; and calls are only counted up, to the
limit. At every moment of it no name is being resolved twice, calls are nested no deeper than the
limit, and no module has exports, or has them twice, while they are being evaluated. The moments are
those of the same evaluation over a history. -/
theorem session_discipline (env : Environment) (log : Log) (requests : List Request)
    (r : Request) :
    let s := (Session.start log).after env requests
    let s' := (r.run env s).2
    let h' := (r.run env (History.start s)).2
    (s'.resolving = s.resolving ∧ s'.exporting = s.exporting ∧ s'.callDepth = s.callDepth ∧
      (∀ id < s.frames.frames.size, s'.frames.frames[id]? = s.frames.frames[id]?)) ∧
    (∀ m value, s.exports.lookup m = some value → s'.exports.lookup m = some value) ∧
    (s.calls ≤ s'.calls ∧ s'.calls ≤ 10000) ∧
    ((r.run env (History.start s)).1 = (r.run env s).1 ∧ h'.now = s') ∧
    ∀ t ∈ h'.moments, t.resolving.Nodup ∧ t.callDepth ≤ 64 ∧ t.calls ≤ 10000 ∧
      (∀ m ∈ t.exporting, t.exports.lookup m = none) ∧ (t.exports.map Prod.fst).Nodup := by
  intro s s' h'
  have hs : s.Orderly := (Session.start_orderly log).after requests
  obtain ⟨hmoments, hresult, hnow, hs', hkeeps⟩ := request_keeps env r hs
  refine ⟨⟨hkeeps.resolving, hkeeps.exporting, hkeeps.callDepth, hkeeps.frames⟩, hkeeps.exports,
    ⟨hkeeps.calls, hs'.calls_le⟩, ⟨hresult, hnow⟩, fun t ht => ?_⟩
  have ho := hmoments t ht
  exact ⟨ho.resolving_nodup, ho.callDepth_le, ho.calls_le, ho.exporting_unknown, ho.exports_nodup⟩

end SchemaDoc
