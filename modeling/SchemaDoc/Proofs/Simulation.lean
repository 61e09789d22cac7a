import SchemaDoc.Proofs.Logs
import SchemaDoc.Proofs.Similarity

/-!
# Comparing two evaluations

Two evaluations of the same code in different sessions, side by side. They are in lockstep as long
as no name and no reference is followed: what is known of values and scopes is known up to the
numbers of frames, and new frames are created in pairs. This file shows that much for every part of
an evaluation, and leaves open what happens at a name of a module and at a reference to one: that
depends on what the sessions know already.

* A `World` is where the comparison stands: a session on each side, and which frames are paired. On
  each side some frames are *frozen*: they belong to exports that are remembered, and no name is ever
  bound in them again. Only a pair of frames that is not frozen, and neither of which is paired with
  another frame, may be bound in (`World.Owns`).
* A `Setting` says which code is run, and what else is known of the two sessions.
* `Sim` compares two computations from a world: if both come to an end without a report that the
  setting excludes, they end in another world that extends the first one, with the same error or
  with related results.

A call that is refused is reported, and the result of it says nothing about the function that was
called. So both reports of refused calls are excluded in every setting. Since logs only grow, that a
report is missing in the end says that it was missing all the way.
-/

namespace SchemaDoc

open Evaluate

/-! ### Sides -/

/-- One side of a comparison: a session, and frames of it in which nothing is bound any more. -/
structure Side where
  session : Session
  frozen : Nat → Prop
  frozen_lt : ∀ id, frozen id → id < session.frames.frames.size

namespace Side

/-- The number of frames. -/
abbrev size (a : Side) : Nat := a.session.frames.frames.size

/-- A frame that is apart from those in use: a frozen one, or one that is not there yet. -/
def Apart (a : Side) (id : Nat) : Prop := a.frozen id ∨ a.size ≤ id

/-- What running a piece of code does to a side: contexts are left again, frames are only added, and
of those that were there at most the own one has changed. -/
structure Extends (own : Scope) (a b : Side) : Prop extends a.session.SameContexts b.session where
  size_le : a.size ≤ b.size
  frames : ∀ id < a.size, some id ≠ own →
    b.session.frames.frames[id]? = a.session.frames.frames[id]?
  frozen : ∀ id, a.frozen id → b.frozen id
  apart : ∀ id, b.Apart id → a.Apart id

namespace Extends

variable {own : Scope} {a b c : Side}

theorem refl (a : Side) : a.Extends own a where
  toSameContexts := .refl _
  size_le := Nat.le_refl _
  frames _ _ _ := rfl
  frozen _ h := h
  apart _ h := h

theorem trans (h : a.Extends own b) (h' : b.Extends own c) : a.Extends own c where
  toSameContexts := h.toSameContexts.trans h'.toSameContexts
  size_le := Nat.le_trans h.size_le h'.size_le
  frames id hid hown :=
    (h'.frames id (Nat.lt_of_lt_of_le hid h.size_le) hown).trans (h.frames id hid hown)
  frozen id hid := h'.frozen id (h.frozen id hid)
  apart id hid := h.apart id (h'.apart id hid)

theorem weaken (h : a.Extends none b) : a.Extends own b :=
  { h with frames := fun id hid _ => h.frames id hid nofun }

/-- What is bound in a frame that was not there before is no change of what was there. -/
theorem forget {id : Nat} (h : a.Extends none b) (hid : a.size ≤ id)
    (h' : b.Extends (some id) c) : a.Extends none c :=
  { h.weaken.trans h' with
    frames := fun id' hid' hown => (h.weaken.trans h').frames id' hid' fun he => by
      cases he
      omega }

end Extends

/-- A side with another session, in which the same frames are frozen. -/
def move (a : Side) (s : Session) (h : a.size ≤ s.frames.frames.size) : Side :=
  ⟨s, a.frozen, fun id hid => Nat.lt_of_lt_of_le (a.frozen_lt id hid) h⟩

/-- Nothing that is remembered or being evaluated is different in a session. -/
structure Unaffected (a : Side) (s : Session) : Prop where
  exports : s.exports = a.session.exports
  exporting : s.exporting = a.session.exporting
  resolving : s.resolving = a.session.resolving
  size_le : a.size ≤ s.frames.frames.size
  frames : ∀ id, a.frozen id → s.frames.frames[id]? = a.session.frames.frames[id]?

/-- Only what is counted and reported is different in a session. -/
structure Steady (a : Side) (s : Session) : Prop extends a.session.SameContexts s where
  exports : s.exports = a.session.exports
  frames : s.frames = a.session.frames

namespace Steady

variable {a : Side} {s : Session} (h : a.Steady s)

include h

theorem unaffected : a.Unaffected s where
  exports := h.exports
  exporting := h.exporting
  resolving := h.resolving
  size_le := Nat.le_of_eq (by rw [h.frames])
  frames _ _ := by rw [h.frames]

theorem extends_move (own : Scope) : a.Extends own (a.move s h.unaffected.size_le) where
  toSameContexts := h.toSameContexts
  size_le := h.unaffected.size_le
  frames _ _ _ := by rw [move, h.frames]
  frozen _ hid := hid
  apart _ hid := hid.imp (fun hfrozen => hfrozen) fun hle => Nat.le_trans h.unaffected.size_le hle

end Steady

variable (a : Side)

theorem unaffected_depth (callDepth : Nat) : a.Unaffected { a.session with callDepth } :=
  ⟨rfl, rfl, rfl, Nat.le_refl _, fun _ _ => rfl⟩

/-- A call is left again. -/
theorem Extends.called {a b : Side} {own : Scope} {depth : Nat}
    (h : Extends own
      (a.move { a.session with callDepth := a.session.callDepth + 1 } (Nat.le_refl _)) b)
    (hdepth : depth = b.session.callDepth - 1) :
    a.Extends own (b.move { b.session with callDepth := depth } (Nat.le_refl _)) :=
  { h with callDepth := by rw [hdepth, h.callDepth]; rfl }

/-- A new frame. -/
theorem unaffected_child (parent : Scope) :
    a.Unaffected { a.session with frames := (a.session.frames.child parent []).1 } where
  exports := rfl
  exporting := rfl
  resolving := rfl
  size_le := by simp [Frames.child]
  frames id hid := Frames.getElem?_child (a.frozen_lt id hid) parent []

theorem extends_child (parent : Scope) :
    a.Extends none (a.move _ (a.unaffected_child parent).size_le) where
  toSameContexts := ⟨rfl, rfl, rfl⟩
  size_le := (a.unaffected_child parent).size_le
  frames _ hid _ := Frames.getElem?_child hid parent []
  frozen _ hid := hid
  apart _ hid := hid.imp (fun hfrozen => hfrozen) fun hle =>
    Nat.le_trans (a.unaffected_child parent).size_le hle

theorem not_apart_child (parent : Scope) :
    ¬(a.move _ (a.unaffected_child parent).size_le).Apart a.size := by
  rintro (hfrozen | hle)
  · exact absurd (a.frozen_lt _ hfrozen) (Nat.lt_irrefl _)
  · change (a.session.frames.frames.push { bindings := [], parent }).size ≤ _ at hle
    rw [Array.size_push] at hle
    exact absurd hle (Nat.not_succ_le_self _)

/-- A name bound in a frame that is in use. -/
theorem unaffected_bind {id : Nat} (hid : ¬a.Apart id) (name : String) (value : Value) :
    a.Unaffected { a.session with frames := a.session.frames.bind (some id) name value } where
  exports := rfl
  exporting := rfl
  resolving := rfl
  size_le := Nat.le_of_eq (Frames.size_bind _ _ _ _).symm
  frames id' hid' :=
    Frames.getElem?_bind_of_ne (fun (he : id = id') => hid (.inl (he ▸ hid'))) name value

theorem extends_bind {id : Nat} (hid : ¬a.Apart id) (name : String) (value : Value) :
    a.Extends (some id) (a.move _ (a.unaffected_bind hid name value).size_le) where
  toSameContexts := ⟨rfl, rfl, rfl⟩
  size_le := (a.unaffected_bind hid name value).size_le
  frames _ _ hown := Frames.getElem?_bind_of_ne (fun he => hown (congrArg some he.symm)) name value
  frozen _ hid := hid
  apart _ hid' := hid'.imp (fun hfrozen => hfrozen) fun hle =>
    Nat.le_trans (a.unaffected_bind hid name value).size_le hle

end Side

/-! ### Worlds -/

/-- Where a comparison stands: the two sides, and which frames are paired. -/
structure World where
  left : Side
  right : Side
  pairs : Nat → Nat → Prop

namespace World

/-- What running code on both sides does to a world. Only frames that are apart from those in use
are paired on the way. -/
structure Extends (own own' : Scope) (w w' : World) : Prop where
  left : w.left.Extends own w'.left
  right : w.right.Extends own' w'.right
  pairs : ∀ i j, w.pairs i j → w'.pairs i j
  new : ∀ i j, w'.pairs i j → w.pairs i j ∨ w.left.Apart i ∧ w.right.Apart j

namespace Extends

variable {own own' : Scope} {w w' w'' : World}

theorem refl (w : World) : w.Extends own own' w :=
  ⟨.refl _, .refl _, fun _ _ h => h, fun _ _ => .inl⟩

theorem trans (h : w.Extends own own' w') (h' : w'.Extends own own' w'') :
    w.Extends own own' w'' where
  left := h.left.trans h'.left
  right := h.right.trans h'.right
  pairs i j hij := h'.pairs i j (h.pairs i j hij)
  new i j hij := by
    rcases h'.new i j hij with hij | ⟨hi, hj⟩
    · exact h.new i j hij
    · exact .inr ⟨h.left.apart i hi, h.right.apart j hj⟩

theorem weaken (h : w.Extends none none w') : w.Extends own own' w' :=
  { h with left := h.left.weaken, right := h.right.weaken }

section Related

variable (h : w.Extends own own' w') {code : ModuleId → Prop}

include h

theorem scope {scope scope' : Scope} (hscope : Option.Rel w.pairs scope scope') :
    Option.Rel w'.pairs scope scope' := optionRel_mono h.pairs hscope

theorem value {v v' : Value} (hv : Value.Similar code w.pairs v v') :
    Value.Similar code w'.pairs v v' := hv.mono (fun _ hm => hm) h.pairs

theorem values {vs vs' : List Value} (hvs : List.Forall₂ (Value.Similar code w.pairs) vs vs') :
    List.Forall₂ (Value.Similar code w'.pairs) vs vs' := hvs.imp fun _ _ => h.value

theorem fields {fields fields' : List (String × Value)}
    (hfields : FieldsRel (Value.Similar code w.pairs) fields fields') :
    FieldsRel (Value.Similar code w'.pairs) fields fields' :=
  hfields.imp fun _ _ hpq => ⟨hpq.1, h.value hpq.2⟩

end Related

end Extends

/-- Two frames that names may be bound in: they are paired with each other only, and in use. -/
structure Owns (w : World) (i j : Nat) : Prop where
  pair : w.pairs i j
  only : ∀ j', w.pairs i j' → j' = j
  only' : ∀ i', w.pairs i' j → i' = i
  inUse : ¬w.left.Apart i
  inUse' : ¬w.right.Apart j

theorem Owns.extends {w w' : World} {own own' : Scope} {i j : Nat} (h : w.Owns i j)
    (hw : w.Extends own own' w') : w'.Owns i j where
  pair := hw.pairs i j h.pair
  only j' hj' := (hw.new i j' hj').elim (h.only j') fun hapart => absurd hapart.1 h.inUse
  only' i' hi' := (hw.new i' j hi').elim (h.only' i') fun hapart => absurd hapart.2 h.inUse'
  inUse hi := h.inUse (hw.left.apart i hi)
  inUse' hj := h.inUse' (hw.right.apart j hj)

/-- A world one call deeper. -/
def deeper (w : World) : World where
  left := w.left.move { w.left.session with callDepth := w.left.session.callDepth + 1 }
    (Nat.le_refl _)
  right := w.right.move { w.right.session with callDepth := w.right.session.callDepth + 1 }
    (Nat.le_refl _)
  pairs := w.pairs

end World

/-! ### Reports -/

/-- The reports that a call was refused. -/
def refusals : List String :=
  ["helper calls nested too deeply; result treated as unknown",
    "helper call budget exhausted; result treated as unknown"]

/-- A log without excluded reports, in which they would have been recorded. -/
structure Log.Clean (Excluded : String → Prop) (log : Log) : Prop where
  verbose : log.verbose = true
  not_has : ∀ message, Excluded message → ¬log.Has message

/-- A result that says something: one of a computation that did not reach its bound, and reported
nothing that is excluded. -/
structure Finished {α : Type} (Excluded : String → Prop) (result : Except Stop α × Session) :
    Prop where
  ends : result.1 ≠ .error .exhausted
  clean : result.2.log.Clean Excluded

section Reports

variable {env : Environment} {Excluded : String → Prop}

theorem Log.Clean.of_grows {log log' : Log} (h : log'.Clean Excluded) (hgrows : log.Grows log') :
    log.Clean Excluded :=
  ⟨hgrows.verbose.symm.trans h.verbose, fun message hmessage hhas =>
    h.not_has message hmessage (hhas.grows hgrows)⟩

/-- What a whole computation has not reported, the first part of it has not. -/
theorem Finished.of_bind {α β : Type} {x : Eval α} {f : α → Eval β}
    [hf : ∀ a, Eval.Grows env (f a)] {s : Session} (h : Finished Excluded ((x >>= f) env s)) :
    Finished Excluded (x env s) := by
  rcases Eval.run_bind_cases x f env s with ⟨a, s', hrun, hbind⟩ | ⟨e, s', hrun, hbind⟩
  · rw [hbind] at h
    rw [hrun]
    exact ⟨nofun, h.clean.of_grows ((hf a).log s')⟩
  · rw [hbind] at h
    rw [hrun]
    exact ⟨fun he => h.ends (by cases he; rfl), h.clean⟩

theorem not_finished_warn {s : Session} {message : String} (hmessage : Excluded message) :
    ¬Finished Excluded ((do Eval.warn message; return Value.unknown : Eval Value) env s) := by
  rintro ⟨-, hclean⟩
  have hverbose : s.log.verbose = true :=
    (Log.grows_add s.log .warning message).verbose.symm.trans hclean.verbose
  exact hclean.not_has message hmessage (Log.has_warn hverbose message)

end Reports

/-! ### Settings -/

/-- What is known of all code that is run, and of the two sessions that it is run in. -/
structure Setting (env : Environment) where
  /-- The modules whose code may be run. -/
  code : ModuleId → Prop
  /-- The reports that are excluded. -/
  Excluded : String → Prop
  refusal_excluded : ∀ message ∈ refusals, Excluded message
  /-- What is known of the two sessions. -/
  Holds : Side → Side → Prop
  stable : ∀ {a b : Side} {s t : Session} (ha : a.Unaffected s) (hb : b.Unaffected t),
    Holds a b → Holds (a.move s ha.size_le) (b.move t hb.size_le)

namespace Setting

variable {env : Environment} (S : Setting env)

/-- A world in which paired frames match, and what the setting knows holds. -/
structure Valid (w : World) : Prop where
  frames : w.left.session.frames.Match S.code w.pairs w.right.session.frames
  holds : S.Holds w.left w.right

/-- Similar values. -/
abbrev Values (pairs : Nat → Nat → Prop) : Value → Value → Prop := Value.Similar S.code pairs

variable {S}

theorem Valid.move {w : World} (hw : S.Valid w) {s t : Session} (hs : w.left.Unaffected s)
    (ht : w.right.Unaffected t) (hframes : s.frames = w.left.session.frames)
    (hframes' : t.frames = w.right.session.frames) :
    S.Valid ⟨w.left.move s hs.size_le, w.right.move t ht.size_le, w.pairs⟩ where
  frames := by
    change s.frames.Match S.code w.pairs t.frames
    rw [hframes, hframes']
    exact hw.frames
  holds := S.stable hs ht hw.holds

end Setting

/-! ### Simulation -/

/-- Two results: the same error, or related values. -/
inductive Outcome {α β : Type} (q : α → β → Prop) : Except Stop α → Except Stop β → Prop
  | ok {a : α} {b : β} (h : q a b) : Outcome q (.ok a) (.ok b)
  | error (e : Stop) : Outcome q (.error e) (.error e)

theorem Outcome.imp {α β : Type} {q q' : α → β → Prop} {r : Except Stop α} {r' : Except Stop β}
    (h : Outcome q r r') (hq : ∀ a b, q a b → q' a b) : Outcome q' r r' := by
  cases h with
  | ok h => exact .ok (hq _ _ h)
  | error e => exact .error e

section Sim

variable {env : Environment} (S : Setting env) (own own' : Scope) (w : World) {α β γ δ : Type}

/-- A world that two computations lead to. -/
structure Setting.Ends (q : (Nat → Nat → Prop) → α → β → Prop) (r : Except Stop α × Session)
    (r' : Except Stop β × Session) (w' : World) : Prop where
  left : w'.left.session = r.2
  right : w'.right.session = r'.2
  valid : S.Valid w'
  extended : w.Extends own own' w'
  outcome : Outcome (q w'.pairs) r.1 r'.1

/-- **Two computations that stay together**: from a world they lead to a world that extends it, with
the same error or with related results. -/
def Sim (x : Eval α) (y : Eval β) (q : (Nat → Nat → Prop) → α → β → Prop) : Prop :=
  Finished S.Excluded (x env w.left.session) → Finished S.Excluded (y env w.right.session) →
    ∃ w', S.Ends own own' w q (x env w.left.session) (y env w.right.session) w'

variable {S own own' w}

namespace Sim

variable {x : Eval α} {y : Eval β} {f : α → Eval γ} {g : β → Eval δ}
  {q q' : (Nat → Nat → Prop) → α → β → Prop} {p : (Nat → Nat → Prop) → γ → δ → Prop}

theorem pure (hw : S.Valid w) {a : α} {b : β} (h : q w.pairs a b) :
    Sim S own own' w (pure a) (pure b) q :=
  fun _ _ => ⟨w, rfl, rfl, hw, .refl w, .ok h⟩

theorem fail (hw : S.Valid w) (e : Error) :
    Sim S own own' w (Eval.fail e : Eval α) (Eval.fail e : Eval β) q :=
  fun _ _ => ⟨w, rfl, rfl, hw, .refl w, .error _⟩

theorem weaken (h : Sim S none none w x y q) : Sim S own own' w x y q := by
  intro hx hy
  obtain ⟨w', h⟩ := h hx hy
  exact ⟨w', { h with extended := h.extended.weaken }⟩

/-- **Going on after related results.** -/
theorem bind_of_grows (hf : ∀ a, Eval.Grows env (f a)) (hg : ∀ b, Eval.Grows env (g b))
    (hxy : Sim S own own' w x y q)
    (hfg : ∀ w' a b, S.Valid w' → w.Extends own own' w' → q w'.pairs a b →
      Sim S own own' w' (f a) (g b) p) : Sim S own own' w (x >>= f) (y >>= g) p := by
  intro hx hy
  obtain ⟨w₁, hends⟩ := hxy hx.of_bind hy.of_bind
  rcases hrun : x env w.left.session with ⟨r, s⟩
  rcases hrun' : y env w.right.session with ⟨r', t⟩
  rw [hrun, hrun'] at hends
  obtain ⟨rfl, rfl, hvalid, hext, houtcome⟩ := hends
  dsimp only at houtcome
  cases houtcome with
  | ok hab =>
    rw [Eval.run_bind_ok hrun] at hx ⊢
    rw [Eval.run_bind_ok hrun'] at hy ⊢
    obtain ⟨w₂, h₂⟩ := hfg w₁ _ _ hvalid hext hab hx hy
    exact ⟨w₂, { h₂ with extended := hext.trans h₂.extended }⟩
  | error e =>
    rw [Eval.run_bind_error hrun, Eval.run_bind_error hrun']
    exact ⟨w₁, rfl, rfl, hvalid, hext, .error e⟩

theorem bind [hf : ∀ a, Eval.Grows env (f a)] [hg : ∀ b, Eval.Grows env (g b)]
    (hxy : Sim S own own' w x y q)
    (hfg : ∀ w' a b, S.Valid w' → w.Extends own own' w' → q w'.pairs a b →
      Sim S own own' w' (f a) (g b) p) : Sim S own own' w (x >>= f) (y >>= g) p :=
  bind_of_grows hf hg hxy hfg

theorem asks {question : Session → α} {question' : Session → β}
    (h : Sim S own own' w (f (question w.left.session)) (g (question' w.right.session)) p) :
    Sim S own own' w (Eval.asks question >>= f) (Eval.asks question' >>= g) p := h

theorem index {f : ModuleIndex → Eval γ} {g : ModuleIndex → Eval δ}
    (h : Sim S own own' w (f env.index) (g env.index) p) :
    Sim S own own' w (Eval.index >>= f) (Eval.index >>= g) p := h

theorem config {f : Config → Eval γ} {g : Config → Eval δ}
    (h : Sim S own own' w (f env.config) (g env.config) p) :
    Sim S own own' w (Eval.config >>= f) (Eval.config >>= g) p := h

/-- Nothing is said about what comes of a call that is refused. -/
theorem refused {q : (Nat → Nat → Prop) → Value → β → Prop} {message : String}
    (h : message ∈ refusals) :
    Sim S own own' w (do Eval.warn message; return Value.unknown) y q :=
  fun hx => absurd hx (not_finished_warn (S.refusal_excluded message h))

theorem refused' {q : (Nat → Nat → Prop) → α → Value → Prop} {message : String}
    (h : message ∈ refusals) :
    Sim S own own' w x (do Eval.warn message; return Value.unknown) q :=
  fun _ hy => absurd hy (not_finished_warn (S.refusal_excluded message h))

/-- Changes of what is counted and reported only. -/
theorem of_steady (hw : S.Valid w) (hs : w.left.Steady (x env w.left.session).2)
    (ht : w.right.Steady (y env w.right.session).2)
    (h : Outcome (q w.pairs) (x env w.left.session).1 (y env w.right.session).1) :
    Sim S own own' w x y q := fun _ _ =>
  ⟨⟨w.left.move _ hs.unaffected.size_le, w.right.move _ ht.unaffected.size_le, w.pairs⟩, rfl, rfl,
    hw.move hs.unaffected ht.unaffected hs.frames ht.frames,
    ⟨hs.extends_move own, ht.extends_move own', fun _ _ h => h, fun _ _ => .inl⟩, h⟩

theorem warn (hw : S.Valid w) (message : String) :
    Sim S own own' w (Eval.warn message) (Eval.warn message) fun _ _ _ => True :=
  of_steady hw ⟨⟨rfl, rfl, rfl⟩, rfl, rfl⟩ ⟨⟨rfl, rfl, rfl⟩, rfl, rfl⟩ (.ok trivial)

theorem countCall (hw : S.Valid w) :
    Sim S own own' w Eval.countCall Eval.countCall fun _ _ _ => True :=
  of_steady hw ⟨⟨rfl, rfl, rfl⟩, rfl, rfl⟩ ⟨⟨rfl, rfl, rfl⟩, rfl, rfl⟩ (.ok trivial)

theorem warn_unknown (hw : S.Valid w) (message : String) :
    Sim S own own' w (do Eval.warn message; return Value.unknown)
      (do Eval.warn message; return Value.unknown) S.Values :=
  .bind (.warn hw message) fun _ _ _ hw' _ _ => .pure hw' .unknown

/-- **New frames** are paired, and can be bound in. -/
theorem newScope {f : Scope → Eval γ} {g : Scope → Eval δ} {parent parent' : Scope}
    (hw : S.Valid w) (hparent : Option.Rel w.pairs parent parent')
    (h : ∀ w' i j, S.Valid w' → w.Extends none none w' → w'.Owns i j →
      Sim S (some i) (some j) w' (f (some i)) (g (some j)) p) :
    Sim S none none w (Eval.newScope parent >>= f) (Eval.newScope parent' >>= g) p := by
  intro hx hy
  rw [Eval.run_newScope_bind] at hx hy ⊢
  rw [Eval.run_newScope_bind]
  have hleft := w.left.unaffected_child parent
  have hright := w.right.unaffected_child parent'
  let w₁ : World := ⟨w.left.move _ hleft.size_le, w.right.move _ hright.size_le,
    fun i j => w.pairs i j ∨ i = w.left.size ∧ j = w.right.size⟩
  have hext : w.Extends none none w₁ :=
    ⟨w.left.extends_child parent, w.right.extends_child parent', fun _ _ => .inl, fun i j hij =>
      hij.imp id fun ⟨hi, hj⟩ => ⟨.inr (Nat.le_of_eq hi.symm), .inr (Nat.le_of_eq hj.symm)⟩⟩
  have hvalid : S.Valid w₁ := ⟨hw.frames.child hparent, S.stable hleft hright hw.holds⟩
  have howns : w₁.Owns w.left.size w.right.size := by
    refine ⟨.inr ⟨rfl, rfl⟩, fun j' hj' => ?_, fun i' hi' => ?_, ?_, ?_⟩
    · exact hj'.elim (fun hpair => absurd (hw.frames.lt hpair).1 (Nat.lt_irrefl _)) And.right
    · exact hi'.elim (fun hpair => absurd (hw.frames.lt hpair).2 (Nat.lt_irrefl _)) And.left
    · exact w.left.not_apart_child parent
    · exact w.right.not_apart_child parent'
  obtain ⟨w₂, h₂⟩ := h w₁ _ _ hvalid hext howns hx hy
  exact ⟨w₂, { h₂ with
    extended :=
      { hext.weaken.trans h₂.extended with
        left := hext.left.forget (Nat.le_refl _) h₂.extended.left
        right := hext.right.forget (Nat.le_refl _) h₂.extended.right } }⟩

theorem bindName (hw : S.Valid w) {i j : Nat} (howns : w.Owns i j) (name : String) {v v' : Value}
    (hv : S.Values w.pairs v v') :
    Sim S (some i) (some j) w (Eval.bindName (some i) name v) (Eval.bindName (some j) name v')
      fun _ _ _ => True := by
  intro _ _
  have hleft := w.left.unaffected_bind howns.inUse name v
  have hright := w.right.unaffected_bind howns.inUse' name v'
  refine ⟨⟨w.left.move _ hleft.size_le, w.right.move _ hright.size_le, w.pairs⟩, rfl, rfl,
    ⟨?_, S.stable hleft hright hw.holds⟩,
    ⟨w.left.extends_bind howns.inUse name v, w.right.extends_bind howns.inUse' name v',
      fun _ _ h => h, fun _ _ => .inl⟩, .ok trivial⟩
  exact hw.frames.bind howns.pair howns.only howns.only' name hv

/-- A call: one deeper, and back. -/
theorem calling (hw : S.Valid w) (h : S.Valid w.deeper → Sim S none none w.deeper x y q) :
    Sim S none none w (Eval.whileCalling x) (Eval.whileCalling y) q := by
  intro hx hy
  have hdeeper : S.Valid w.deeper :=
    hw.move (w.left.unaffected_depth _) (w.right.unaffected_depth _) rfl rfl
  obtain ⟨w₁, hleft, hright, hvalid, hext, houtcome⟩ := h hdeeper ⟨hx.ends, hx.clean⟩
    ⟨hy.ends, hy.clean⟩
  refine ⟨⟨w₁.left.move { w₁.left.session with callDepth := w₁.left.session.callDepth - 1 }
    (Nat.le_refl _), w₁.right.move { w₁.right.session with
      callDepth := w₁.right.session.callDepth - 1 } (Nat.le_refl _), w₁.pairs⟩, ?_, ?_, ?_, ?_,
    houtcome⟩
  · exact congrArg (fun s : Session => { s with callDepth := s.callDepth - 1 }) hleft
  · exact congrArg (fun s : Session => { s with callDepth := s.callDepth - 1 }) hright
  · exact hvalid.move (w₁.left.unaffected_depth _) (w₁.right.unaffected_depth _) rfl rfl
  · exact ⟨hext.left.called rfl, hext.right.called rfl, hext.pairs, hext.new⟩

end Sim

end Sim

/-! ### Evaluation -/

section Evaluation

variable {env : Environment} {S : Setting env}

/-- Two evaluators that stay together on every goal. -/
structure Setting.Evaluators (S : Setting env) (ev ev' : Evaluator Session) : Prop where
  expr : ∀ {w : World} {m : ModuleId} {scope scope' : Scope} (e : Expr), S.Valid w → S.code m →
    Option.Rel w.pairs scope scope' →
    Sim S none none w (ev (.expr m e scope)) (ev' (.expr m e scope')) S.Values
  name : ∀ {w : World} {m : ModuleId} {scope scope' : Scope} (name : String), S.Valid w → S.code m →
    Option.Rel w.pairs scope scope' →
    Sim S none none w (ev (.name m name scope)) (ev' (.name m name scope')) S.Values

/-- Two evaluators that stay together where a name or a reference is followed. -/
structure Setting.Follows (S : Setting env) (ev ev' : Evaluator Session) : Prop where
  topLevel : ∀ {w : World} {m : ModuleId} (name : String), S.Valid w → S.code m →
    Sim S none none w (topLevel ev m name) (topLevel ev' m name) S.Values
  require : ∀ {w : World} {m : ModuleId} (specifier : String), S.Valid w → S.code m →
    Sim S none none w (require ev m specifier) (require ev' m specifier) S.Values

variable {ev ev' : Evaluator Session} [∀ goal, Eval.Grows env (ev goal)]
  [∀ goal, Eval.Grows env (ev' goal)] {w : World} {m : ModuleId} {scope scope' : Scope}

namespace Setting.Evaluators

variable (hev : S.Evaluators ev ev')

include hev

/-! Inside a function -/

section Functions

variable (hw : S.Valid w) (hm : S.code m)

include hw hm

omit [∀ goal, Eval.Grows env (ev goal)] [∀ goal, Eval.Grows env (ev' goal)] in
theorem orDefault (hscope : Option.Rel w.pairs scope scope') {v v' : Value}
    (hv : S.Values w.pairs v v') (default : Option Expr) :
    Sim S none none w (orDefault ev m scope v default) (Evaluate.orDefault ev' m scope' v' default)
      S.Values := by
  cases default with
  | none => exact .pure hw hv
  | some e =>
    simp only [Evaluate.orDefault, hv.isUnknown_eq]
    split
    · exact hev.expr e hw hm hscope
    · exact .pure hw hv

omit [∀ goal, Eval.Grows env (ev goal)] [∀ goal, Eval.Grows env (ev' goal)] in
theorem initial (hscope : Option.Rel w.pairs scope scope') (init : Option Expr) :
    Sim S none none w (initial ev m scope init) (Evaluate.initial ev' m scope' init) S.Values := by
  cases init with
  | none => exact .pure hw .unknown
  | some e => exact hev.expr e hw hm hscope

variable {i j : Nat} (howns : w.Owns i j)

include howns

theorem bindProperties {v v' : Value} (hv : S.Values w.pairs v v') (props : List PatternProp) :
    Sim S (some i) (some j) w (bindProperties ev m v (some i) props)
      (Evaluate.bindProperties ev' m v' (some j) props) fun _ _ _ => True := by
  induction props generalizing w with
  | nil => exact .pure hw trivial
  | cons prop props ih =>
    have hread := hev.orDefault hw hm (.some howns.pair) (.getD (hv.field? prop.key)) prop.default
    refine hread.weaken.bind fun w₁ a b hw₁ hext₁ hab => ?_
    refine (Sim.bindName hw₁ (howns.extends hext₁) prop.name hab).bind fun w₂ _ _ hw₂ hext₂ _ => ?_
    exact ih hw₂ ((howns.extends hext₁).extends hext₂) (hext₂.value (hext₁.value hv))

theorem bind {v v' : Value} (hv : S.Values w.pairs v v') (binding : Binding) :
    Sim S (some i) (some j) w (Evaluate.bind ev m binding v (some i))
      (Evaluate.bind ev' m binding v' (some j)) fun _ _ _ => True := by
  cases binding with
  | ident name => exact .bindName hw howns name hv
  | object props => exact hev.bindProperties hw hm howns hv props
  | unsupported => exact .pure hw trivial

theorem bindParams {args args' : List Value} (hargs : List.Forall₂ (S.Values w.pairs) args args')
    (params : List Param) :
    Sim S (some i) (some j) w (bindParams ev m (some i) params args)
      (Evaluate.bindParams ev' m (some j) params args') fun _ _ _ => True := by
  induction params generalizing w args args' with
  | nil => exact .pure hw trivial
  | cons param params ih =>
    have hgiven : S.Values w.pairs
        (if param.rest then .list args else args.head?.getD .unknown)
        (if param.rest then .list args' else args'.head?.getD .unknown) := by
      split
      · exact Value.similar_list_iff.mpr hargs
      · cases hargs with
        | nil => exact .unknown
        | cons harg _ => exact harg
    refine (hev.orDefault hw hm (.some howns.pair) hgiven param.default).weaken.bind
      fun w₁ a b hw₁ hext₁ hab => ?_
    refine (hev.bind hw₁ hm (howns.extends hext₁) hab param.binding).bind
      fun w₂ _ _ hw₂ hext₂ _ => ?_
    have hrest : List.Forall₂ (S.Values w₂.pairs) (if param.rest then [] else args.tail)
        (if param.rest then [] else args'.tail) := by
      split
      · exact .nil
      · cases hargs with
        | nil => exact .nil
        | cons _ htail => exact hext₂.values (hext₁.values htail)
    exact ih hw₂ ((howns.extends hext₁).extends hext₂) hrest

theorem bindDeclarators (ds : List Declarator) :
    Sim S (some i) (some j) w (bindDeclarators ev m (some i) ds)
      (Evaluate.bindDeclarators ev' m (some j) ds) fun _ _ _ => True := by
  induction ds generalizing w with
  | nil => exact .pure hw trivial
  | cons d ds ih =>
    refine (hev.initial hw hm (.some howns.pair) d.init).weaken.bind fun w₁ a b hw₁ hext₁ hab => ?_
    refine (hev.bind hw₁ hm (howns.extends hext₁) hab d.binding).bind
      fun w₂ _ _ hw₂ hext₂ _ => ?_
    exact ih hw₂ ((howns.extends hext₁).extends hext₂)

theorem runBody (statements : List BodyStatement) :
    Sim S (some i) (some j) w (runBody ev m (some i) statements)
      (Evaluate.runBody ev' m (some j) statements) S.Values := by
  induction statements generalizing w with
  | nil => exact .pure hw .unknown
  | cons statement statements ih =>
    cases statement with
    | declare ds =>
      refine (hev.bindDeclarators hw hm howns ds).bind fun w₁ _ _ hw₁ hext₁ _ => ?_
      exact ih hw₁ (howns.extends hext₁)
    | returns e => exact (hev.initial hw hm (.some howns.pair) e).weaken
    | other => exact .pure hw .unknown

end Functions

theorem runFunction (hw : S.Valid w) (hm : S.code m) (f : FunctionLit) {outer outer' : Scope}
    (houter : Option.Rel w.pairs outer outer') {args args' : List Value}
    (hargs : List.Forall₂ (S.Values w.pairs) args args') :
    Sim S none none w (runFunction ev f m outer args) (Evaluate.runFunction ev' f m outer' args')
      S.Values := by
  refine Sim.newScope hw houter fun w₁ i j hw₁ hext₁ howns => ?_
  refine Sim.bind_of_grows ?grows ?grows' (hev.bindParams hw₁ hm howns (hext₁.values hargs) f.params)
    fun w₂ _ _ hw₂ hext₂ _ => ?_
  case grows | grows' =>
    intro _
    cases f.body <;> infer_instance
  cases f.body with
  | expr e => exact (hev.expr e hw₂ hm (.some (hext₂.pairs _ _ howns.pair))).weaken
  | block statements => exact hev.runBody hw₂ hm (howns.extends hext₂) statements

theorem runNested (hw : S.Valid w) (hm : S.code m) (f : FunctionLit) {outer outer' : Scope}
    (houter : Option.Rel w.pairs outer outer') {args args' : List Value}
    (hargs : List.Forall₂ (S.Values w.pairs) args args') :
    Sim S none none w (runNested ev f m outer args) (Evaluate.runNested ev' f m outer' args')
      S.Values := by
  refine Sim.asks ?_
  split
  · exact .refused List.mem_cons_self
  · split
    · exact .refused' List.mem_cons_self
    · exact .calling hw fun hdeeper => hev.runFunction hdeeper hm f houter hargs

theorem invoke (hw : S.Valid w) (hm : S.code m) (f : FunctionLit) {outer outer' : Scope}
    (houter : Option.Rel w.pairs outer outer') {args args' : List Value}
    (hargs : List.Forall₂ (S.Values w.pairs) args args') :
    Sim S none none w (invoke ev f m outer args) (Evaluate.invoke ev' f m outer' args')
      S.Values := by
  have hrefusal : "helper call budget exhausted; result treated as unknown" ∈ refusals := by
    simp [refusals]
  refine Sim.asks ?_
  split
  · exact .refused hrefusal
  · split
    · exact .refused' hrefusal
    · refine (Sim.countCall hw).bind fun w₁ _ _ hw₁ hext₁ _ => ?_
      exact hev.runNested hw₁ hm f (hext₁.scope houter) (hext₁.values hargs)

/-! Exports -/

section Exports

variable (hm : S.code m)

include hm

theorem declared (hw : S.Valid w) (d : Declarator) (name : String) :
    Sim S none none w (declared ev m d name) (Evaluate.declared ev' m d name) S.Values := by
  refine Sim.bind_of_grows ?grows ?grows' (hev.initial hw hm .none d.init)
    fun w₁ v v' hw₁ hext₁ hv => ?_
  case grows | grows' =>
    intro init
    cases d.binding with
    | ident _ => infer_instance
    | object props =>
      dsimp only
      cases props.find? (·.name == name) with
      | none => infer_instance
      | some prop => exact Eval.Grows.orDefault _ _ _
    | unsupported => infer_instance
  cases d.binding with
  | ident _ => exact .pure hw₁ hv
  | object props =>
    dsimp only
    cases props.find? (·.name == name) with
    | none => exact .pure hw₁ .unknown
    | some prop => exact hev.orDefault hw₁ hm .none (.getD (hv.field? prop.key)) prop.default
  | unsupported => exact .pure hw₁ .unknown

variable {exports exports' : Value}

theorem exportDeclarators (hw : S.Valid w) (hexports : S.Values w.pairs exports exports')
    (ds : List Declarator) :
    Sim S none none w (exportDeclarators ev m exports ds)
      (Evaluate.exportDeclarators ev' m exports' ds) S.Values := by
  induction ds generalizing w exports exports' with
  | nil => exact .pure hw hexports
  | cons d ds ih =>
    simp only [Evaluate.exportDeclarators]
    cases d.binding with
    | ident name =>
      refine (hev.declared hm hw d name).bind fun w₁ v v' hw₁ hext₁ hv => ?_
      exact ih hw₁ (similar_exportNamed (hext₁.value hexports) name hv)
    | object props => exact ih hw hexports
    | unsupported => exact ih hw hexports

theorem exportNames (hw : S.Valid w) (hexports : S.Values w.pairs exports exports')
    (names : List (String × String)) :
    Sim S none none w (exportNames ev m exports names)
      (Evaluate.exportNames ev' m exports' names) S.Values := by
  induction names generalizing w exports exports' with
  | nil => exact .pure hw hexports
  | cons name names ih =>
    refine (hev.name name.1 hw hm .none).bind fun w₁ v v' hw₁ hext₁ hv => ?_
    exact ih hw₁ (similar_exportNamed (hext₁.value hexports) name.2 hv)

theorem exportStatement (hw : S.Valid w) (hexports : S.Values w.pairs exports exports')
    (statement : Statement) :
    Sim S none none w (exportStatement ev m exports statement)
      (Evaluate.exportStatement ev' m exports' statement) S.Values := by
  simp only [Evaluate.exportStatement]
  cases statement.kind with
  | declare exported ds =>
    dsimp only
    split
    · exact hev.exportDeclarators hm hw hexports ds
    · exact .pure hw hexports
  | expression e =>
    dsimp only
    split
    · exact .pure hw hexports
    · refine (hev.expr _ hw hm .none).bind fun w₁ v v' hw₁ hext₁ hv => ?_
      exact .pure hw₁ (similar_store (hext₁.value hexports) _ hv)
  | imports source bindings => exact .pure hw hexports
  | exportDefault e =>
    refine (hev.expr e hw hm .none).bind fun w₁ v v' hw₁ hext₁ hv => ?_
    exact .pure hw₁ (similar_exportNamed (hext₁.value hexports) _ hv)
  | exportNames names => exact hev.exportNames hm hw hexports names
  | other => exact .pure hw hexports

theorem exportStatements (hw : S.Valid w) (hexports : S.Values w.pairs exports exports')
    (statements : List Statement) :
    Sim S none none w (exportStatements ev m exports statements)
      (Evaluate.exportStatements ev' m exports' statements) S.Values := by
  induction statements generalizing w exports exports' with
  | nil => exact .pure hw hexports
  | cons statement statements ih =>
    refine (hev.exportStatement hm hw hexports statement).bind fun w₁ v v' hw₁ _ hv => ?_
    exact ih hw₁ hv

theorem evaluateExports (hw : S.Valid w) :
    Sim S none none w (evaluateExports ev m) (Evaluate.evaluateExports ev' m) S.Values := by
  refine Sim.index ?_
  cases env.index.module? m with
  | none => exact .pure hw .unknown
  | some sourceModule =>
    dsimp only
    cases sourceModule.source with
    | json value => exact .pure hw (Value.similar_ofJson value)
    | script program =>
      exact hev.exportStatements hm hw (Value.similar_map_iff.mpr .nil) program.body

end Exports

/-! Names -/

theorem introduced? (hw : S.Valid w) (hm : S.code m) (name : String) (program : Program)
    (hrequire : ∀ source, Sim S none none w (require ev m source) (require ev' m source) S.Values) :
    Sim S none none w (introduced? ev m name program) (Evaluate.introduced? ev' m name program)
      fun pairs => Option.Rel (S.Values pairs) := by
  simp only [Evaluate.introduced?]
  cases origin? program name with
  | none => exact .pure hw .none
  | some origin =>
    refine Sim.bind (q := S.Values) ?_ fun w₁ v v' hw₁ _ hv => .pure hw₁ (.some hv)
    cases origin with
    | declarator d => exact hev.declared hm hw d name
    | imported source binding =>
      exact (hrequire source).bind fun w₁ v v' hw₁ _ hv =>
        .pure hw₁ (similar_select hv binding)

omit hev [∀ goal, Eval.Grows env (ev goal)] [∀ goal, Eval.Grows env (ev' goal)] in
/-- A name is a local one on both sides or on none. -/
theorem lookup (hfollows : S.Follows ev ev') (hw : S.Valid w) (hm : S.code m)
    (hscope : Option.Rel w.pairs scope scope') (name : String) :
    Sim S none none w (lookup ev m name scope) (Evaluate.lookup ev' m name scope') S.Values := by
  have hlocal := hw.frames.lookup? name hscope
  refine Sim.asks ?_
  revert hlocal
  generalize w.left.session.frames.lookup? scope name = found,
    w.right.session.frames.lookup? scope' name = found'
  rintro (hfound | _)
  · exact .pure hw hfound
  · have hconstant : Option.Rel (S.Values w.pairs) (constant? name) (constant? name) :=
      similar_constant? name
    dsimp only
    revert hconstant
    generalize constant? name = constant
    rintro (hconstant | _)
    · exact .pure hw hconstant
    · exact hfollows.topLevel name hw hm

/-! Expressions -/

section Expressions

omit hev

theorem warnAt (hw : S.Valid w) (loc : Loc) (message : String) :
    Sim S none none w (Evaluate.warnAt m loc message) (Evaluate.warnAt m loc message)
      fun _ _ _ => True :=
  Sim.index (.warn hw _)

theorem spreadFields (hw : S.Valid w) (loc : Loc) {fields fields' : List (String × Value)}
    (hfields : FieldsRel (S.Values w.pairs) fields fields') {v v' : Value}
    (hv : S.Values w.pairs v v') :
    Sim S none none w (Evaluate.spreadFields m loc fields v)
      (Evaluate.spreadFields m loc fields' v') fun pairs => FieldsRel (S.Values pairs) := by
  cases hv with
  | @atom v hatom =>
    cases v with
    | map _ => cases hatom
    | list _ => cases hatom
    | unknown =>
      exact (warnAt hw loc _).bind fun w₁ _ _ hw₁ hext₁ _ => .pure hw₁ (hext₁.fields hfields)
    | _ => exact .pure hw hfields
  | map hkeys hmore =>
    exact .pure hw (similar_merge hfields (Value.similar_map_iff.mp (.map hkeys hmore)))
  | list hlength hitems =>
    exact .pure hw (similar_merge hfields
      (similar_indexed (Value.similar_list_iff.mp (.list hlength hitems)) 0))
  | function _ _ => exact .pure hw hfields

theorem entryItems (hw : S.Valid w) (kind : EntryKind) (loc : Loc) {v v' : Value}
    (hv : S.Values w.pairs v v') :
    Sim S none none w (Evaluate.entryItems m kind loc v) (Evaluate.entryItems m kind loc v')
      fun pairs => List.Forall₂ (S.Values pairs) := by
  have hignored : Sim S none none w
      (do Evaluate.warnAt m loc "spread of a non-array value is ignored"; return ([] : List Value))
      (do Evaluate.warnAt m loc "spread of a non-array value is ignored"; return ([] : List Value))
      fun pairs => List.Forall₂ (S.Values pairs) :=
    (warnAt hw loc _).bind fun w₁ _ _ hw₁ _ _ => .pure hw₁ .nil
  cases kind with
  | spread =>
    cases hv with
    | @atom v hatom =>
      cases v with
      | list _ => cases hatom
      | _ => exact hignored
    | map _ _ => exact hignored
    | list hlength hitems => exact .pure hw (Value.similar_list_iff.mp (.list hlength hitems))
    | function _ _ => exact hignored
  | _ => exact .pure hw (.cons hv .nil)

theorem choose (condition : Option Bool) {yes yes' no no' : Eval Value} (hw : S.Valid w)
    (hyes : Sim S none none w yes yes' S.Values) (hno : Sim S none none w no no' S.Values) :
    Sim S none none w (Evaluate.choose condition yes no) (Evaluate.choose condition yes' no')
      S.Values := by
  unfold Evaluate.choose
  split
  · exact hyes
  · exact hno
  · exact .pure hw .unknown

theorem binary (op : Script.BinaryOp) {left left' right right' : Eval Value}
    [Eval.Grows env right] [Eval.Grows env right'] (hleft : Sim S none none w left left' S.Values)
    (hright : ∀ w', S.Valid w' → w.Extends none none w' →
      Sim S none none w' right right' S.Values) :
    Sim S none none w (Evaluate.binary op left right) (Evaluate.binary op left' right')
      S.Values := by
  refine Sim.bind_of_grows ?grows ?grows' hleft fun w₁ a a' hw₁ hext₁ ha => ?_
  case grows | grows' =>
    intro a
    cases op with
    | nullish => cases a <;> infer_instance
    | _ => infer_instance
  have hsecond := hright w₁ hw₁ hext₁
  cases op with
  | and =>
    dsimp only
    rw [ha.truthy?_eq]
    exact choose _ hw₁ hsecond (.pure hw₁ ha)
  | or =>
    dsimp only
    rw [ha.truthy?_eq]
    exact choose _ hw₁ (.pure hw₁ ha) hsecond
  | nullish =>
    cases ha with
    | @atom a hatom =>
      cases a with
      | null => exact hsecond
      | unknown => exact hsecond
      | _ => exact .pure hw₁ (.atom hatom)
    | map hkeys hfields => exact .pure hw₁ (.map hkeys hfields)
    | list hlength hitems => exact .pure hw₁ (.list hlength hitems)
    | function hm hscope => exact .pure hw₁ (.function hm hscope)
  | _ => exact hsecond.bind fun w₂ b b' hw₂ hext₂ hb => .pure hw₂ ((hext₂.value ha).binary hb _)

end Expressions

theorem call (hfollows : S.Follows ev ev') (hw : S.Valid w) (hm : S.code m)
    (hscope : Option.Rel w.pairs scope scope') (constructs : Bool) (callee : Expr)
    (args : List Expr) {f f' : Eval Value} {values values' : Eval (List Value)}
    [Eval.Grows env values] [Eval.Grows env values'] (hf : Sim S none none w f f' S.Values)
    (hvalues : ∀ w', S.Valid w' → w.Extends none none w' →
      Sim S none none w' values values' fun pairs => List.Forall₂ (S.Values pairs)) :
    Sim S none none w (call ev m scope constructs callee args f values)
      (Evaluate.call ev' m scope' constructs callee args f' values') S.Values := by
  have hlocal : (w.left.session.frames.lookup? scope "require").isSome =
      (w.right.session.frames.lookup? scope' "require").isSome :=
    optionRel_isSome (hw.frames.lookup? "require" hscope)
  refine Sim.asks ?_
  simp only [hlocal]
  split
  · split
    · exact hfollows.require _ hw hm
    · exact .pure hw .unknown
  · refine Sim.bind_of_grows ?grows ?grows' hf fun w₁ v v' hw₁ hext₁ hv =>
      Sim.bind_of_grows ?applied ?applied' (hvalues w₁ hw₁ hext₁)
        fun w₂ args args' hw₂ hext₂ hargs => ?_
    case grows | grows' =>
      intro v
      cases v <;> infer_instance
    case applied =>
      intro args
      cases v <;> infer_instance
    case applied' =>
      intro args
      cases v' <;> infer_instance
    cases hext₂.value hv with
    | @atom v hatom =>
      cases v with
      | function _ _ _ => cases hatom
      | typeLabel name => exact .pure hw₂ (Value.Similar.callType hargs name)
      | _ => exact .pure hw₂ .unknown
    | map _ _ => exact .pure hw₂ .unknown
    | list _ _ => exact .pure hw₂ .unknown
    | function hcode hscopes => exact hev.invoke hw₂ hcode _ hscopes hargs

omit hev

-- The recursion is that of the expressions, as it is in `Logic.Evaluators.expression`.
mutual
theorem expression (hev : S.Evaluators ev ev') (hfollows : S.Follows ev ev') (hm : S.code m) :
    ∀ (e : Expr) {w : World} {scope scope' : Scope}, S.Valid w → Option.Rel w.pairs scope scope' →
      Sim S none none w (expression ev m scope e) (Evaluate.expression ev' m scope' e) S.Values
  | .lit _ v, _, _, _, hw, _ => .pure hw (similar_literal v)
  | .regex _ _ _, _, _, _, hw, _ => .pure hw (.atom rfl)
  | .template _ chunks exprs, _, _, _, hw, hscope =>
    hev.template hfollows hm exprs "" chunks hw hscope
  | .ident _ name, _, _, _, hw, hscope => lookup hfollows hw hm hscope name
  | .object _ entries, _, _, _, hw, hscope =>
    (hev.object hfollows hm entries hw hscope .nil).bind fun _ _ _ hw₁ _ hfields =>
      .pure hw₁ (Value.similar_map_iff.mpr hfields)
  | .array _ entries, _, _, _, hw, hscope =>
    (hev.array hfollows hm entries hw hscope).bind fun _ _ _ hw₁ _ hitems =>
      .pure hw₁ (Value.similar_list_iff.mpr hitems)
  | .call _ constructs callee args, _, _, _, hw, hscope =>
    hev.call hfollows hw hm hscope constructs callee args
      (hev.expression hfollows hm callee hw hscope)
      fun _ hw₁ hext₁ => hev.values hfollows hm args hw₁ (hext₁.scope hscope)
  | .member _ e property, _, _, _, hw, hscope =>
    (hev.expression hfollows hm e hw hscope).bind fun _ _ _ hw₁ _ hv =>
      .pure hw₁ (hv.member property)
  | .function _ _, _, _, _, hw, hscope => .pure hw (.function hm hscope)
  | .unary _ op e, _, _, _, hw, hscope =>
    (hev.expression hfollows hm e hw hscope).bind fun _ _ _ hw₁ _ hv => .pure hw₁ (hv.unary op)
  | .binary _ op left right, _, _, _, hw, hscope =>
    binary op (hev.expression hfollows hm left hw hscope)
      fun _ hw₁ hext₁ => hev.expression hfollows hm right hw₁ (hext₁.scope hscope)
  | .conditional _ test yes no, _, _, _, hw, hscope =>
    (hev.expression hfollows hm test hw hscope).bind fun _ v v' hw₁ hext₁ hv => by
      rw [hv.truthy?_eq]
      exact choose _ hw₁ (hev.expression hfollows hm yes hw₁ (hext₁.scope hscope))
        (hev.expression hfollows hm no hw₁ (hext₁.scope hscope))
  | .assign _ _ _, _, _, _, hw, _ => .pure hw .unknown
  | .unmodelled _ _, _, _, _, hw, _ => .pure hw .unknown

theorem values (hev : S.Evaluators ev ev') (hfollows : S.Follows ev ev') (hm : S.code m) :
    ∀ (es : List Expr) {w : World} {scope scope' : Scope}, S.Valid w →
      Option.Rel w.pairs scope scope' →
      Sim S none none w (values ev m scope es) (Evaluate.values ev' m scope' es)
        fun pairs => List.Forall₂ (S.Values pairs)
  | [], _, _, _, hw, _ => .pure hw .nil
  | e :: es, _, _, _, hw, hscope =>
    (hev.expression hfollows hm e hw hscope).bind fun _ _ _ hw₁ hext₁ hv =>
      (hev.values hfollows hm es hw₁ (hext₁.scope hscope)).bind fun _ _ _ hw₂ hext₂ hvs =>
        .pure hw₂ (.cons (hext₂.value hv) hvs)

theorem template (hev : S.Evaluators ev ev') (hfollows : S.Follows ev ev') (hm : S.code m) :
    ∀ (es : List Expr) (done : String) (chunks : List String) {w : World} {scope scope' : Scope},
      S.Valid w → Option.Rel w.pairs scope scope' →
      Sim S none none w (template ev m scope done chunks es)
        (Evaluate.template ev' m scope' done chunks es) S.Values
  | [], _, _, _, _, _, hw, _ => by
    simp only [Evaluate.template]
    exact .pure hw (.atom rfl)
  | _ :: _, _, [], _, _, _, hw, _ => .pure hw (.atom rfl)
  | e :: es, done, chunk :: chunks, _, _, _, hw, hscope => by
    refine Sim.bind_of_grows ?grows ?grows' (hev.expression hfollows hm e hw hscope)
      fun w₁ v v' hw₁ hext₁ hv => ?_
    case grows | grows' =>
      intro v
      split <;> infer_instance
    rw [hv.text?_eq]
    split
    · exact hev.template hfollows hm es _ chunks hw₁ (hext₁.scope hscope)
    · exact .pure hw₁ .unknown

theorem object (hev : S.Evaluators ev ev') (hfollows : S.Follows ev ev') (hm : S.code m) :
    ∀ (entries : List Entry) {w : World} {scope scope' : Scope}
      {fields fields' : List (String × Value)}, S.Valid w → Option.Rel w.pairs scope scope' →
      FieldsRel (S.Values w.pairs) fields fields' →
      Sim S none none w (object ev m scope fields entries)
        (Evaluate.object ev' m scope' fields' entries) fun pairs => FieldsRel (S.Values pairs)
  | [], _, _, _, _, _, hw, _, hfields => .pure hw hfields
  | .mk (.keyed key) value _ _ :: entries, _, _, _, _, _, hw, hscope, hfields =>
    (hev.expression hfollows hm value hw hscope).bind fun _ _ _ hw₁ hext₁ hv =>
      hev.object hfollows hm entries hw₁ (hext₁.scope hscope)
        ((hext₁.fields hfields).insertKey key hv)
  | .mk .spread value loc _ :: entries, _, _, _, _, _, hw, hscope, hfields =>
    (hev.expression hfollows hm value hw hscope).bind fun _ _ _ hw₁ hext₁ hv =>
      (spreadFields hw₁ loc (hext₁.fields hfields) hv).bind fun _ _ _ hw₂ hext₂ hspread =>
        hev.object hfollows hm entries hw₂ (hext₂.scope (hext₁.scope hscope)) hspread
  | .mk .element _ _ _ :: entries, _, _, _, _, _, hw, hscope, hfields =>
    hev.object hfollows hm entries hw hscope hfields

theorem array (hev : S.Evaluators ev ev') (hfollows : S.Follows ev ev') (hm : S.code m) :
    ∀ (entries : List Entry) {w : World} {scope scope' : Scope}, S.Valid w →
      Option.Rel w.pairs scope scope' →
      Sim S none none w (array ev m scope entries) (Evaluate.array ev' m scope' entries)
        fun pairs => List.Forall₂ (S.Values pairs)
  | [], _, _, _, hw, _ => .pure hw .nil
  | .mk kind value loc _ :: entries, _, _, _, hw, hscope =>
    (hev.expression hfollows hm value hw hscope).bind fun _ _ _ hw₁ hext₁ hv =>
      (entryItems hw₁ kind loc hv).bind fun _ _ _ hw₂ hext₂ hitems =>
        (hev.array hfollows hm entries hw₂ (hext₂.scope (hext₁.scope hscope))).bind
          fun _ _ _ hw₃ hext₃ hrest => .pure hw₃ (List.rel_append (hext₃.values hitems) hrest)
end

/-- **One step of evaluation.** Evaluators that stay together, also where names and references are
followed, give steps that stay together. -/
theorem step (hev : S.Evaluators ev ev') (hfollows : S.Follows ev ev') :
    S.Evaluators (step ev) (step ev') where
  expr e hw hm hscope := hev.expression hfollows hm e hw hscope
  name name hw hm hscope := lookup hfollows hw hm hscope name

end Setting.Evaluators

end Evaluation

end SchemaDoc
