import Mathlib.Data.Finset.Card
import Mathlib.Logic.Relation
import SchemaDoc.Proofs.Indexing
import SchemaDoc.Proofs.Simulation
import SchemaDoc.Proofs.Termination

/-!
# Remembered exports are transparent

The exports of a module are evaluated once, in whatever context needs them first, and remembered for
all others. This file shows that nobody can tell, as long as modules do not refer to each other in
circles and no call is refused: a request to a session that has answered others gives what it gives
to a new session.

The contexts are the difficulty. Exports may have been evaluated while names of other modules were
being resolved, deep inside calls, and after other modules had been evaluated or not; they hold
functions whose frames have numbers of their own. What cannot leak into them follows from where
evaluation can go from a module: only to modules that it **reaches**. If none of these is being
resolved or exported when the evaluation starts, the contexts around it are never met on the way.

* In the `realm` of a module only code of the modules that it reaches is run, and none of them but
  the module itself is being resolved or exported. A name of another module, or its exports, lead
  into the realm of that module, which is smaller.
* A session is `Settled` if everything that it remembers was `Recorded`: it was once evaluated in a
  settled session outside of the realm of its module, and the frames that were frozen then, or came
  of it, have not changed.
* Two records of a module agree (`Recorded.agree`). So it makes no difference whether exports are
  evaluated now or were remembered.

The induction is on the realms, and inside of a realm on how deeply contexts nest.
-/

namespace SchemaDoc

open Evaluate Relation

/-! ### Modules that reach each other -/

namespace ModuleIndex

/-- A module leads to another one through references. -/
def Reaches (index : ModuleIndex) : ModuleId → ModuleId → Prop := ReflTransGen index.Requires

/-- No module leads back to itself. -/
def Acyclic (index : ModuleIndex) : Prop := ∀ m, ¬TransGen index.Requires m m

variable {index : ModuleIndex}

/-- The modules that references lead to. -/
def targets (index : ModuleIndex) : List ModuleId :=
  index.links.filterMap fun (_, link) =>
    match link with
    | .loaded n => some n
    | .failed _ => none

theorem mem_targets {m n : ModuleId} (h : TransGen index.Requires m n) : n ∈ index.targets := by
  obtain ⟨k, specifier, hlink⟩ : ∃ k, index.Requires k n := by
    cases h with
    | single h => exact ⟨m, h⟩
    | tail _ h => exact ⟨_, h⟩
  exact List.mem_filterMap.mpr ⟨_, mem_links_of_link? hlink, rfl⟩

/-- Over an index without circles, going on from module to module comes to an end. -/
theorem Acyclic.wellFounded (h : index.Acyclic) :
    WellFounded fun n m => TransGen index.Requires m n := by
  classical
  refine Subrelation.wf (r := InvImage (· < ·) fun m =>
    (index.targets.toFinset.filter (TransGen index.Requires m)).card) (fun {n m} hn => ?_)
    (InvImage.wf _ Nat.lt_wfRel.wf)
  refine Finset.card_lt_card ⟨fun k hk => ?_, fun hsubset => ?_⟩
  · simp only [Finset.mem_filter] at hk ⊢
    exact ⟨hk.1, hn.trans hk.2⟩
  · have hmem := hsubset (Finset.mem_filter.mpr ⟨List.mem_toFinset.mpr (mem_targets hn), hn⟩)
    exact h n (Finset.mem_filter.mp hmem).2

/-- References only lead to later modules. -/
def LinksForward (index : ModuleIndex) : Prop :=
  ∀ link ∈ index.links, ∀ n ∈ index.targets, link.2 = .loaded n → link.1.1 < n

instance (index : ModuleIndex) : Decidable index.LinksForward :=
  inferInstanceAs (Decidable
    (∀ link ∈ index.links, ∀ n ∈ index.targets, link.2 = .loaded n → link.1.1 < n))

theorem LinksForward.lt (h : index.LinksForward) {m n : ModuleId} (hmn : index.Requires m n) :
    (m : Nat) < n := by
  obtain ⟨specifier, hlink⟩ := hmn
  exact h _ (mem_links_of_link? hlink) n (mem_targets (.single ⟨specifier, hlink⟩)) rfl

theorem LinksForward.acyclic (h : index.LinksForward) : index.Acyclic := by
  have hlt {m n : ModuleId} (hmn : TransGen index.Requires m n) : (m : Nat) < n := by
    induction hmn with
    | single hmn => exact h.lt hmn
    | tail _ hmn ih => exact Nat.lt_trans ih (h.lt hmn)
  exact fun m hm => Nat.lt_irrefl m (hlt hm)

end ModuleIndex

/-! ### Realms -/

/-- Nothing that a module reaches is being resolved or exported. -/
structure Session.Outside (index : ModuleIndex) (n : ModuleId) (s : Session) : Prop where
  resolving : ∀ key ∈ s.resolving, ¬index.Reaches n key.1
  exporting : ∀ m ∈ s.exporting, ¬index.Reaches n m

/-- Nothing that a module reaches but itself is being resolved or exported. -/
structure Session.Confined (index : ModuleIndex) (m : ModuleId) (s : Session) : Prop where
  resolving : ∀ key ∈ s.resolving, index.Reaches m key.1 → key.1 = m
  exporting : ∀ n ∈ s.exporting, index.Reaches m n → n = m

namespace Session

variable {index : ModuleIndex} {m n : ModuleId} {s s' : Session}

theorem Outside.confined (h : s.Outside index n) : s.Confined index n :=
  ⟨fun key hkey hreaches => absurd hreaches (h.resolving key hkey),
    fun m hm hreaches => absurd hreaches (h.exporting m hm)⟩

theorem Confined.enterExports (h : s.Confined index n) :
    Confined index n { s with exporting := n :: s.exporting } :=
  ⟨h.resolving, fun m hm hreaches =>
    (List.mem_cons.mp hm).elim (fun he => he) fun hm => h.exporting m hm hreaches⟩

theorem Confined.enterName (h : s.Confined index n) (name : String) :
    Confined index n { s with resolving := (n, name) :: s.resolving } :=
  ⟨fun key hkey hreaches =>
    (List.mem_cons.mp hkey).elim (fun he => he ▸ rfl) fun hkey => h.resolving key hkey hreaches,
    h.exporting⟩

theorem Confined.of_sameContexts (h : s.Confined index m) (hs : s.SameContexts s') :
    s'.Confined index m :=
  ⟨hs.resolving ▸ h.resolving, hs.exporting ▸ h.exporting⟩

/-- **Smaller realms are outside of what is going on.** -/
theorem Confined.outside (h : s.Confined index m) (hacyclic : index.Acyclic)
    (hn : TransGen index.Requires m n) : s.Outside index n := by
  have hback (k : ModuleId) (hk : index.Reaches n k) (he : k = m) : False :=
    hacyclic m (hn.trans_left (he ▸ hk))
  exact ⟨fun key hkey hreaches =>
      hback _ hreaches (h.resolving key hkey (hn.to_reflTransGen.trans hreaches)),
    fun k hk hreaches => hback _ hreaches (h.exporting k hk (hn.to_reflTransGen.trans hreaches))⟩

end Session

/-- A frame that was frozen on a side, or has been created since. -/
def Side.Since (a : Side) (s : Session) (id : Nat) : Prop :=
  a.frozen id ∨ a.size ≤ id ∧ id < s.frames.frames.size

theorem Side.Since.lt {a : Side} {s : Session} {id : Nat} (hid : a.Since s id)
    (h : a.size ≤ s.frames.frames.size) : id < s.frames.frames.size :=
  hid.elim (fun hfrozen => Nat.lt_of_lt_of_le (a.frozen_lt id hfrozen) h) And.right

/-! ### What a side remembers -/

/-- Nothing that is remembered on a side is different on another one. -/
structure Side.Keeps (a b : Side) : Prop where
  exports : b.session.exports = a.session.exports
  kept : ∀ id, a.frozen id →
    b.frozen id ∧ b.session.frames.frames[id]? = a.session.frames.frames[id]?

/-- A property of the exports of a module, in frames of which some are frozen. -/
abbrev ExportsProperty := ModuleId → Except Stop Value → Frames → (Nat → Prop) → Prop

/-- The property stays, as long as the frozen frames do. -/
def ExportsProperty.Lasting (Q : ExportsProperty) : Prop :=
  ∀ {n : ModuleId} {r : Except Stop Value} {fs fs' : Frames} {frozen frozen' : Nat → Prop},
    Q n r fs frozen → (∀ id, frozen id → frozen' id ∧ fs'.frames[id]? = fs.frames[id]?) →
      Q n r fs' frozen'

/-- All exports that a side remembers have a property. -/
def Side.Remembers (a : Side) (Q : ExportsProperty) : Prop :=
  ∀ n v, a.session.exports.lookup n = some v → Q n (.ok v) a.session.frames a.frozen

theorem Side.Remembers.of_keeps {Q : ExportsProperty} {a b : Side} (h : a.Remembers Q)
    (hQ : Q.Lasting) (hkeeps : a.Keeps b) : b.Remembers Q :=
  fun n v hv => hQ (h n v (hkeeps.exports ▸ hv)) hkeeps.kept

/-- **A record of a module**: what evaluating its exports once came to, and that the frames that
were frozen then, or that it created, are the same now. The evaluation started outside of what the
module reaches, from a session whose exports were recorded in turn. -/
inductive Recorded (env : Environment) :
    ModuleId → Except Stop Value → Frames → (Nat → Prop) → Prop
  | mk {n : ModuleId} {k : Nat} {a : Side} {r : Except Stop Value} {s : Session} {fs : Frames}
      {frozen : Nat → Prop}
      (known : ∀ m v, a.session.exports.lookup m = some v →
        Recorded env m (.ok v) a.session.frames a.frozen)
      (outside : a.session.Outside env.index n)
      (run : evaluateExports (evaluate k) n env
        { a.session with exporting := n :: a.session.exporting } = (r, s))
      (finished : Finished (· ∈ refusals) (r, s))
      (kept : ∀ id, a.Since s id → frozen id ∧ fs.frames[id]? = s.frames.frames[id]?) :
      Recorded env n r fs frozen

/-- A side that only remembers what was recorded. -/
def Settled (env : Environment) (a : Side) : Prop :=
  ∀ n v, a.session.exports.lookup n = some v → Recorded env n (.ok v) a.session.frames a.frozen

section Records

variable {env : Environment}

theorem Recorded.lasting (env : Environment) : ExportsProperty.Lasting (Recorded env) := by
  rintro n r fs fs' frozen frozen' ⟨known, outside, run, finished, kept⟩ hkept
  refine ⟨known, outside, run, finished, fun id hid => ?_⟩
  obtain ⟨hfrozen, hframe⟩ := kept id hid
  exact ⟨(hkept id hfrozen).1, (hkept id hfrozen).2.trans hframe⟩

theorem Settled.of_exports {a b : Side} (h : Settled env a)
    (hexports : b.session.exports = a.session.exports)
    (hkept : ∀ id, a.frozen id →
      b.frozen id ∧ b.session.frames.frames[id]? = a.session.frames.frames[id]?) :
    Settled env b := Side.Remembers.of_keeps h (Recorded.lasting env) ⟨hexports, hkept⟩

end Records

/-- What is known in the realm of a module. -/
structure RealmHolds (env : Environment) (m : ModuleId) (a b : Side) : Prop where
  settled : Settled env a
  settled' : Settled env b
  confined : a.session.Confined env.index m
  confined' : b.session.Confined env.index m
  /-- The names of the module that are being resolved are the same on both sides. -/
  agree : ∀ name, (m, name) ∈ a.session.resolving ↔ (m, name) ∈ b.session.resolving

/-- **The realm of a module.** -/
def realm (env : Environment) (m : ModuleId) : Setting env where
  code := env.index.Reaches m
  Excluded message := message ∈ refusals
  refusal_excluded _ h := h
  Holds := RealmHolds env m
  stable ha hb h := {
    settled := h.settled.of_exports ha.exports fun id hid => ⟨hid, ha.frames id hid⟩
    settled' := h.settled'.of_exports hb.exports fun id hid => ⟨hid, hb.frames id hid⟩
    confined := ⟨ha.resolving ▸ h.confined.resolving, ha.exporting ▸ h.confined.exporting⟩
    confined' := ⟨hb.resolving ▸ h.confined'.resolving, hb.exporting ▸ h.confined'.exporting⟩
    agree := fun name => by
      simp only [Side.move, ha.resolving, hb.resolving]
      exact h.agree name }

/-- **In the realm of a module, all evaluations stay together.** -/
def Together (env : Environment) (m : ModuleId) : Prop :=
  ∀ k k', (realm env m).Evaluators (evaluate k) (evaluate k')

/-! ### Exports -/

section Exports

variable {env : Environment} {n : ModuleId}

/-- A side while the exports of a module are being evaluated. -/
def Side.exporting (a : Side) (n : ModuleId) : Side :=
  a.move { a.session with exporting := n :: a.session.exporting } (Nat.le_refl _)

/-- What is paired while exports are evaluated on both sides is apart from the frames that were in
use at the start. -/
theorem World.Extends.since {a b : Side} {w : World} {own own' : Scope}
    (h : Extends own own' ⟨a.exporting n, b.exporting n, fun _ _ => False⟩ w)
    {code : ModuleId → Prop}
    (hmatch : w.left.session.frames.Match code w.pairs w.right.session.frames)
    {i j : Nat} (hij : w.pairs i j) : a.Since w.left.session i ∧ b.Since w.right.session j := by
  obtain ⟨hi, hj⟩ := (h.new i j hij).resolve_left id
  obtain ⟨hlt, hlt'⟩ := hmatch.lt hij
  exact ⟨hi.imp_right fun hle => ⟨hle, hlt⟩, hj.imp_right fun hle => ⟨hle, hlt'⟩⟩

/-- Two evaluations of the exports of a module, each from a settled session outside of what it
reaches. -/
theorem Together.evaluateExports (h : Together env n) {a b : Side} (k k' : Nat)
    (ha : Settled env a) (hb : Settled env b) (hout : a.session.Outside env.index n)
    (hout' : b.session.Outside env.index n) :
    Sim (realm env n) none none ⟨a.exporting n, b.exporting n, fun _ _ => False⟩
      (evaluateExports (evaluate k) n) (Evaluate.evaluateExports (evaluate k') n)
      (realm env n).Values := by
  have hnone {s : Session} (hs : s.Outside env.index n) (name : String) :
      (n, name) ∉ s.resolving := fun hmem => hs.resolving _ hmem .refl
  refine (h k k').evaluateExports .refl ⟨.empty _ _, ?_⟩
  exact {
    settled := ha.of_exports rfl fun id hid => ⟨hid, rfl⟩
    settled' := hb.of_exports rfl fun id hid => ⟨hid, rfl⟩
    confined := hout.confined.enterExports
    confined' := hout'.confined.enterExports
    agree := fun name => iff_of_false (hnone hout name) (hnone hout' name) }

/-- **Two records of a module agree.** -/
theorem Recorded.agree (h : Together env n) {r r' : Except Stop Value} {fs gs : Frames}
    {frozen frozen' : Nat → Prop} (hr : Recorded env n r fs frozen)
    (hr' : Recorded env n r' gs frozen') :
    ∃ pairs, (∀ i j, pairs i j → frozen i ∧ frozen' j) ∧
      fs.Match (env.index.Reaches n) pairs gs ∧
      Outcome (Value.Similar (env.index.Reaches n) pairs) r r' := by
  obtain @⟨_, k, a, _, s, _, _, known, outside, run, finished, kept⟩ := hr
  obtain @⟨_, k', b, _, t, _, _, known', outside', run', finished', kept'⟩ := hr'
  have hsim := h.evaluateExports k k' known known' outside outside'
  obtain ⟨w, hleft, hright, hvalid, hext, houtcome⟩ := hsim (run ▸ finished) (run' ▸ finished')
  obtain rfl : w.left.session = s := hleft.trans (congrArg Prod.snd run)
  obtain rfl : w.right.session = t := hright.trans (congrArg Prod.snd run')
  have houtcome : Outcome (Value.Similar (env.index.Reaches n) w.pairs) r r' := by
    have hr : _ = r := congrArg Prod.fst run
    have hr' : _ = r' := congrArg Prod.fst run'
    exact hr ▸ hr' ▸ houtcome
  -- What is paired has not changed since.
  have hpair {i j : Nat} (hij : w.pairs i j) := hext.since hvalid.frames hij
  refine ⟨w.pairs, fun i j hij => ?_, hvalid.frames.congr (fun i j hij => ?_) fun i j hij => ?_,
    houtcome⟩
  · exact ⟨(kept i (hpair hij).1).1, (kept' j (hpair hij).2).1⟩
  · exact (kept i (hpair hij).1).2
  · exact (kept' j (hpair hij).2).2

theorem run_exportsOf_of_known {ev : Evaluator Session} {s : Session} {v : Value}
    (h : s.exports.lookup n = some v) : exportsOf ev n env s = (.ok v, s) := by
  have hasked : (Eval.asks fun s => s.exports.lookup n : Eval (Option Value)) env s =
      (.ok (some v), s) := by rw [← h]; rfl
  exact Eval.run_bind_ok hasked

theorem run_exportsOf_of_unknown {ev : Evaluator Session} {s : Session}
    (h : s.exports.lookup n = none) (hfree : n ∉ s.exporting) :
    exportsOf ev n env s = Eval.remember n (evaluateExports ev n) env s := by
  have hasked : (Eval.asks fun s => s.exports.lookup n : Eval (Option Value)) env s =
      (.ok none, s) := by rw [← h]; rfl
  have hfree : (Eval.asks fun s => s.exporting.contains n : Eval Bool) env s = (.ok false, s) := by
    have hcontains : s.exporting.contains n = false := by simpa using hfree
    rw [← hcontains]
    rfl
  exact (Eval.run_bind_ok hasked).trans (Eval.run_bind_ok hfree)

/-- What a session remembers of the exports of a module after they were evaluated. -/
def remembering (n : ModuleId) (r : Except Stop Value) (exports : List (ModuleId × Value)) :
    List (ModuleId × Value) :=
  match r with
  | .ok v => (n, v) :: exports
  | .error _ => exports

theorem run_remember_eq {x : Eval Value} {s s' : Session} {r : Except Stop Value}
    (h : x env { s with exporting := n :: s.exporting } = (r, s')) :
    Eval.remember n x env s = (r, { s' with
      exporting := s'.exporting.tail, exports := remembering n r s'.exports }) := by
  have hrun : Eval.whileExporting n x env s = (r, { s' with exporting := s'.exporting.tail }) :=
    Eval.run_bracket_eq h
  rw [Eval.run_remember, hrun]
  cases r <;> rfl

/-- A side after the exports of a module were evaluated, which led to another session. All frames
that were created on the way are frozen. -/
def Side.exported (a : Side) (n : ModuleId) (r : Except Stop Value) (s : Session)
    (h : a.size ≤ s.frames.frames.size) : Side where
  session := { s with exporting := s.exporting.tail, exports := remembering n r s.exports }
  frozen := a.Since s
  frozen_lt _ hid := hid.lt h

section Exported

variable {a b : Side} {r : Except Stop Value} (hext : (a.exporting n).Extends none b)

include hext

theorem Side.Extends.exported : a.Extends none (a.exported n r b.session hext.size_le) where
  resolving := hext.resolving
  exporting := by
    change b.session.exporting.tail = _
    rw [hext.exporting]
    rfl
  callDepth := hext.callDepth
  size_le := hext.size_le
  frames := hext.frames
  frozen _ := .inl
  apart _ hid := hid.elim (Or.imp_right And.left) fun hle => .inr (Nat.le_trans hext.size_le hle)

theorem Side.Extends.since {id : Nat} (hid : b.frozen id) : a.Since b.session id :=
  (hext.apart id (.inl hid)).imp_right fun hle => ⟨hle, b.frozen_lt id hid⟩

/-- What was remembered on the way stays, and the exports themselves are remembered now. -/
theorem Side.Remembers.exported {Q : ExportsProperty} (hb : b.Remembers Q) (hQ : Q.Lasting)
    (hnew : Q n r b.session.frames (a.Since b.session)) :
    (a.exported n r b.session hext.size_le).Remembers Q := by
  intro m v hv
  have hbefore (hv : b.session.exports.lookup m = some v) :
      Q m (.ok v) b.session.frames (a.Since b.session) :=
    hQ (hb m v hv) fun _ hid => ⟨hext.since hid, rfl⟩
  cases r with
  | error e => exact hbefore hv
  | ok u =>
    change List.lookup m ((n, u) :: b.session.exports) = some v at hv
    rw [List.lookup_cons] at hv
    split at hv
    next he =>
      obtain rfl := eq_of_beq he
      cases hv
      exact hnew
    next => exact hbefore hv

end Exported

/-- **The exports of a module, on one side**: they have a property, whether they are remembered or
evaluated now, if evaluating them now gives exports that have it. -/
theorem Side.Remembers.exportsOf {Q : ExportsProperty} {Excluded : String → Prop} {a : Side}
    (ha : a.Remembers Q) (hQ : Q.Lasting) {ev : Evaluator Session}
    (hfinished : Finished Excluded (exportsOf ev n env a.session))
    (hunknown : a.session.exports.lookup n = none →
      Evaluate.exportsOf ev n env a.session =
        Eval.remember n (Evaluate.evaluateExports ev n) env a.session)
    (hnow : ∀ r s, Evaluate.evaluateExports ev n env
        { a.session with exporting := n :: a.session.exporting } = (r, s) →
      Finished Excluded (r, s) →
      ∃ b : Side, b.session = s ∧ (a.exporting n).Extends none b ∧ b.Remembers Q ∧
        Q n r s.frames (a.Since s)) :
    ∃ b : Side, b.session = (Evaluate.exportsOf ev n env a.session).2 ∧ a.Extends none b ∧
      b.Remembers Q ∧ Q n (Evaluate.exportsOf ev n env a.session).1 b.session.frames b.frozen := by
  cases hlookup : a.session.exports.lookup n with
  | some v =>
    rw [run_exportsOf_of_known hlookup]
    exact ⟨a, rfl, .refl a, ha, ha n v hlookup⟩
  | none =>
    rw [hunknown hlookup] at hfinished ⊢
    rcases hrun : Evaluate.evaluateExports ev n env
      { a.session with exporting := n :: a.session.exporting } with ⟨r, s⟩
    rw [run_remember_eq hrun] at hfinished ⊢
    obtain ⟨b, rfl, hext, hb, hnew⟩ := hnow r s hrun ⟨hfinished.ends, hfinished.clean⟩
    exact ⟨a.exported n r b.session hext.size_le, rfl, hext.exported, hb.exported hext hQ hnew,
      hnew⟩

/-- **The exports of a module, on one side**: whether they are remembered or evaluated now, there is
a record of them afterwards, and the side is still settled. -/
theorem Settled.exportsOf {a : Side} (ha : Settled env a) (h : Together env n)
    (hout : a.session.Outside env.index n) {k : Nat}
    (hfinished : Finished (· ∈ refusals) (exportsOf (evaluate k) n env a.session)) :
    ∃ b : Side, b.session = (Evaluate.exportsOf (evaluate k) n env a.session).2 ∧
      a.Extends none b ∧ Settled env b ∧
      Recorded env n (Evaluate.exportsOf (evaluate k) n env a.session).1 b.session.frames
        b.frozen := by
  have hfree : n ∉ a.session.exporting := fun hn => hout.exporting n hn .refl
  refine Side.Remembers.exportsOf ha (Recorded.lasting env) hfinished
    (fun hlookup => run_exportsOf_of_unknown hlookup hfree) fun r s hrun hfinished => ?_
  -- The evaluation, compared with itself, shows that it leaves a settled session.
  obtain ⟨w, hleft, -, hvalid, hext, -⟩ :=
    h.evaluateExports k k ha ha hout hout (hrun ▸ hfinished) (hrun ▸ hfinished)
  obtain rfl : w.left.session = s := hleft.trans (congrArg Prod.snd hrun)
  exact ⟨w.left, rfl, hext.left, hvalid.holds.settled,
    .mk ha hout hrun hfinished fun id hid => ⟨hid, rfl⟩⟩

end Exports

/-! ### References and names -/

section Realms

variable {env : Environment} {m : ModuleId}

/-- **Coming back** to a comparison with other frames that are paired: they are paired here too. -/
theorem Setting.Valid.join {S : Setting env} {w : World} (hw : S.Valid w) {a b : Side}
    (hexta : w.left.Extends none a) (hextb : w.right.Extends none b) (hholds : S.Holds a b)
    {code : ModuleId → Prop} (hcode : ∀ k, code k → S.code k) {pairs : Nat → Nat → Prop}
    (hmatch : a.session.frames.Match code pairs b.session.frames)
    (hapart : ∀ i j, pairs i j → w.left.Apart i ∧ w.right.Apart j) :
    S.Valid ⟨a, b, fun i j => w.pairs i j ∨ pairs i j⟩ ∧
      w.Extends none none ⟨a, b, fun i j => w.pairs i j ∨ pairs i j⟩ := by
  have hkept : a.session.frames.Match S.code w.pairs b.session.frames :=
    hw.frames.congr (fun i j hij => hexta.frames i (hw.frames.lt hij).1 nofun)
      fun i j hij => hextb.frames j (hw.frames.lt hij).2 nofun
  exact ⟨⟨hkept.union hmatch hcode, hholds⟩, hexta, hextb, fun _ _ => .inl,
    fun i j hij => hij.imp_right (hapart i j)⟩

/-- **Coming back from a realm** inside of another one. -/
theorem realm_join {w : World} (hw : (realm env m).Valid w) {a b : Side}
    (hexta : w.left.Extends none a) (hextb : w.right.Extends none b) (hsettled : Settled env a)
    (hsettled' : Settled env b) {m' : ModuleId} (hm : env.index.Reaches m m')
    {pairs : Nat → Nat → Prop}
    (hmatch : a.session.frames.Match (env.index.Reaches m') pairs b.session.frames)
    (hapart : ∀ i j, pairs i j → w.left.Apart i ∧ w.right.Apart j) :
    (realm env m).Valid ⟨a, b, fun i j => w.pairs i j ∨ pairs i j⟩ ∧
      w.Extends none none ⟨a, b, fun i j => w.pairs i j ∨ pairs i j⟩ := by
  refine hw.join hexta hextb ?_ (fun _ hk => hm.trans hk) hmatch hapart
  exact {
    settled := hsettled
    settled' := hsettled'
    confined := hw.holds.confined.of_sameContexts hexta.toSameContexts
    confined' := hw.holds.confined'.of_sameContexts hextb.toSameContexts
    agree := fun name => by
      rw [hexta.resolving, hextb.resolving]
      exact hw.holds.agree name }

/-- **A reference**: whether the exports are remembered on none, one or both of the sides makes no
difference. -/
theorem require_together (hacyclic : env.index.Acyclic)
    (h : ∀ n, TransGen env.index.Requires m n → Together env n) {w : World} {m' : ModuleId}
    {k k' : Nat} (specifier : String) (hw : (realm env m).Valid w) (hm : env.index.Reaches m m') :
    Sim (realm env m) none none w (require (evaluate k) m' specifier)
      (Evaluate.require (evaluate k') m' specifier) (realm env m).Values := by
  refine Sim.index ?_
  split
  · exact .warn_unknown hw _
  · exact Sim.index (.fail hw _)
  next n hlink =>
    have hn : TransGen env.index.Requires m n := TransGen.tail' hm ⟨specifier, hlink⟩
    intro hx hy
    have hholds := hw.holds
    obtain ⟨a, ha, hexta, hsettled, hrecorded⟩ :=
      hholds.settled.exportsOf (h n hn) (hholds.confined.outside hacyclic hn) ⟨hx.ends, hx.clean⟩
    obtain ⟨b, hb, hextb, hsettled', hrecorded'⟩ :=
      hholds.settled'.exportsOf (h n hn) (hholds.confined'.outside hacyclic hn) ⟨hy.ends, hy.clean⟩
    obtain ⟨pairs, hfrozen, hmatch, houtcome⟩ := hrecorded.agree (h n hn) hrecorded'
    obtain ⟨hvalid, hext⟩ := realm_join hw hexta hextb hsettled hsettled' hn.to_reflTransGen hmatch
      fun i j hij =>
        ⟨hexta.apart i (.inl (hfrozen i j hij).1), hextb.apart j (.inl (hfrozen i j hij).2)⟩
    exact ⟨_, ha, hb, hvalid, hext, houtcome.imp fun _ _ hv =>
      hv.mono (fun _ hk => hn.to_reflTransGen.trans hk) fun _ _ => .inr⟩

/-- What is known in a realm is known in the realms inside of it. -/
theorem RealmHolds.inside {a b : Side} (h : RealmHolds env m a b) (hacyclic : env.index.Acyclic)
    {m' : ModuleId} (hm : env.index.Reaches m m') : RealmHolds env m' a b := by
  rcases reflTransGen_iff_eq_or_transGen.mp hm with rfl | hm
  · exact h
  · have hout := h.confined.outside hacyclic hm
    have hout' := h.confined'.outside hacyclic hm
    exact {
      settled := h.settled
      settled' := h.settled'
      confined := hout.confined
      confined' := hout'.confined
      agree := fun name => iff_of_false (fun hmem => hout.resolving _ hmem .refl)
        fun hmem => hout'.resolving _ hmem .refl }

/-- A side while a name is being resolved. -/
def Side.resolving (a : Side) (key : ModuleId × String) : Side :=
  a.move { a.session with resolving := key :: a.session.resolving } (Nat.le_refl _)

/-- A side after a name was resolved. -/
def Side.resolved (a : Side) : Side :=
  a.move { a.session with resolving := a.session.resolving.tail } (Nat.le_refl _)

theorem Side.Extends.resolved {a b : Side} {own : Scope} {key : ModuleId × String}
    (h : (a.resolving key).Extends own b) : a.Extends own b.resolved :=
  { h with
    resolving := by
      change b.session.resolving.tail = _
      rw [h.resolving]
      rfl }

theorem RealmHolds.resolving {a b : Side} (h : RealmHolds env m a b) (name : String) :
    RealmHolds env m (a.resolving (m, name)) (b.resolving (m, name)) where
  settled := h.settled.of_exports rfl fun _ hid => ⟨hid, rfl⟩
  settled' := h.settled'.of_exports rfl fun _ hid => ⟨hid, rfl⟩
  confined := h.confined.enterName name
  confined' := h.confined'.enterName name
  agree other := by
    change (m, other) ∈ (m, name) :: _ ↔ (m, other) ∈ (m, name) :: _
    rw [List.mem_cons, List.mem_cons, h.agree other]

/-- **Resolving a name** leads into the realm of its module, and no scope goes along. -/
theorem resolving_together (hacyclic : env.index.Acyclic) {w : World}
    (hw : (realm env m).Valid w) {m' : ModuleId} (hm : env.index.Reaches m m') (name : String)
    {x y : Eval (Option Value)}
    (h : ∀ w', (realm env m').Valid w' → Sim (realm env m') none none w' x y
      fun pairs => Option.Rel ((realm env m').Values pairs)) :
    Sim (realm env m) none none w (Eval.whileResolving (m', name) x)
      (Eval.whileResolving (m', name) y) fun pairs => Option.Rel ((realm env m).Values pairs) := by
  intro hx hy
  have hinside : (realm env m').Valid
      ⟨w.left.resolving (m', name), w.right.resolving (m', name), fun _ _ => False⟩ :=
    ⟨.empty _ _, (hw.holds.inside hacyclic hm).resolving name⟩
  obtain ⟨w₁, hleft, hright, hvalid, hext, houtcome⟩ :=
    h _ hinside ⟨hx.ends, hx.clean⟩ ⟨hy.ends, hy.clean⟩
  obtain ⟨hjoined, hextended⟩ := realm_join hw hext.left.resolved hext.right.resolved
    (hvalid.holds.settled.of_exports rfl fun _ hid => ⟨hid, rfl⟩)
    (hvalid.holds.settled'.of_exports rfl fun _ hid => ⟨hid, rfl⟩) hm hvalid.frames
    fun i j hij => (hext.new i j hij).resolve_left id
  refine ⟨_, ?_, ?_, hjoined, hextended, houtcome.imp fun _ _ =>
    optionRel_mono fun _ _ hv => hv.mono (fun _ hk => hm.trans hk) fun _ _ => .inr⟩
  · exact congrArg (fun s : Session => { s with resolving := s.resolving.tail }) hleft
  · exact congrArg (fun s : Session => { s with resolving := s.resolving.tail }) hright

/-- **A name of a module**, which is being resolved on both sides or on none. -/
theorem topLevel_together (hacyclic : env.index.Acyclic) {m' : ModuleId}
    (h : ∀ n, TransGen env.index.Requires m' n → Together env n) {k k' : Nat}
    (hev : (realm env m').Evaluators (evaluate k) (evaluate k')) {w : World}
    (hw : (realm env m).Valid w) (hm : env.index.Reaches m m') (name : String) :
    Sim (realm env m) none none w (topLevel (evaluate k) m' name)
      (Evaluate.topLevel (evaluate k') m' name) (realm env m).Values := by
  have hagree : w.left.session.resolving.contains (m', name) =
      w.right.session.resolving.contains (m', name) := by
    rw [Bool.eq_iff_iff, List.contains_iff_mem, List.contains_iff_mem]
    exact (hw.holds.inside hacyclic hm).agree name
  refine Sim.asks ?_
  rw [hagree]
  split
  · exact .warn_unknown hw _
  · refine Sim.index ?_
    split
    · exact .pure hw .unknown
    next program _ =>
      refine Sim.bind_of_grows ?grows ?grows'
        (resolving_together hacyclic hw hm name fun w' hw' =>
          hev.introduced? hw' .refl name program fun source =>
            require_together hacyclic h source hw' .refl) fun w₁ v v' hw₁ _ hv => ?_
      case grows | grows' =>
        intro found
        cases found <;> infer_instance
      cases hv with
      | some hv => exact .pure hw₁ hv
      | none =>
        refine Sim.config ?_
        split
        · exact .pure hw₁ (.atom rfl)
        · exact Sim.index (.warn_unknown hw₁ _)

/-- **In every realm, all evaluations stay together.** -/
theorem together (hacyclic : env.index.Acyclic) (m : ModuleId) : Together env m := by
  induction m using hacyclic.wellFounded.induction with
  | _ m ih =>
    intro k
    induction k with
    | zero =>
      exact fun k' =>
        ⟨fun _ _ _ _ hx => absurd rfl hx.ends, fun _ _ _ _ hx => absurd rfl hx.ends⟩
    | succ k ihk =>
      intro k'
      cases k' with
      | zero =>
        exact ⟨fun _ _ _ _ _ hy => absurd rfl hy.ends, fun _ _ _ _ _ hy => absurd rfl hy.ends⟩
      | succ k' =>
        refine (ihk k').step ⟨fun {w m'} name hw hm => ?_, fun specifier hw hm =>
          require_together hacyclic ih specifier hw hm⟩
        have hbelow (n : ModuleId) (hn : TransGen env.index.Requires m' n) : Together env n :=
          ih n (TransGen.trans_right hm hn)
        refine topLevel_together hacyclic hbelow ?_ hw hm name
        rcases reflTransGen_iff_eq_or_transGen.mp hm with rfl | hm
        · exact ihk k'
        · exact ih m' hm k k'

end Realms

/-! ### Requests -/

/-- A request that is made at top level: for an expression or a name there, or for the exports that
a specifier refers to. -/
def Request.IsTopLevel : Request → Prop
  | .expr _ _ scope => scope = none
  | .lookup _ _ scope => scope = none
  | .require _ _ => True
  | .invoke _ _ _ _ => False

instance (r : Request) : Decidable r.IsTopLevel := by
  cases r <;> unfold Request.IsTopLevel <;> infer_instance

/-- What a session answers to requests, one after the other. -/
def outcomes (env : Environment) : Session → List Request → List (Except Stop Value)
  | _, [] => []
  | s, r :: requests => (r.run env s).1 :: outcomes env (r.run env s).2 requests

/-- Whether a new session refuses a call while it answers requests, as its log would say. -/
def Refuses (env : Environment) (requests : List Request) : Prop :=
  ∃ message ∈ refusals, ((Session.start (.empty true)).after env requests).log.Has message

instance (env : Environment) (requests : List Request) : Decidable (Refuses env requests) :=
  inferInstanceAs (Decidable (∃ message ∈ refusals,
    ((Session.start (.empty true)).after env requests).log.Has message))

/-- A settled side on which nothing is going on. -/
structure Idle (env : Environment) (a : Side) : Prop where
  settled : Settled env a
  resolving : a.session.resolving = []
  exporting : a.session.exporting = []

section Requests

variable {env : Environment}

theorem idle_start (log : Log) : Idle env ⟨Session.start log, fun _ => False, fun _ h => h.elim⟩ :=
  ⟨fun _ _ h => (nomatch h), rfl, rfl⟩

theorem Idle.confined {a : Side} (ha : Idle env a) (m : ModuleId) :
    a.session.Confined env.index m :=
  ⟨by simp [ha.resolving], by simp [ha.exporting]⟩

theorem Idle.valid {a b : Side} (ha : Idle env a) (hb : Idle env b) (m : ModuleId) :
    (realm env m).Valid ⟨a, b, fun _ _ => False⟩ :=
  ⟨.empty _ _, ha.settled, hb.settled, ha.confined m, hb.confined m, fun name => by
    rw [ha.resolving, hb.resolving]⟩

/-- **A request, on two sides.** -/
theorem request_together (hacyclic : env.index.Acyclic) {r : Request} (hr : r.IsTopLevel)
    {a b : Side} (ha : Idle env a) (hb : Idle env b)
    (hfinished : Finished (· ∈ refusals) (r.run env a.session))
    (hfinished' : Finished (· ∈ refusals) (r.run env b.session)) :
    Outcome Value.SameForm (r.run env a.session).1 (r.run env b.session).1 ∧
      ∃ a', a'.session = (r.run env a.session).2 ∧ Idle env a' := by
  have hends {m : ModuleId} (hsim : Sim (realm env m) none none ⟨a, b, fun _ _ => False⟩ r.run r.run
      (realm env m).Values) : Outcome Value.SameForm (r.run env a.session).1
        (r.run env b.session).1 ∧ ∃ a', a'.session = (r.run env a.session).2 ∧ Idle env a' := by
    obtain ⟨w, hleft, -, hvalid, hext, houtcome⟩ := hsim hfinished hfinished'
    exact ⟨houtcome.imp fun _ _ hv => hv.sameForm, w.left, hleft, hvalid.holds.settled,
      hext.left.resolving.trans ha.resolving, hext.left.exporting.trans ha.exporting⟩
  have hcontexts (m : ModuleId) :=
    together hacyclic m (env.index.contexts + 1) (env.index.contexts + 1)
  cases r with
  | expr m e scope =>
    obtain rfl : scope = none := hr
    exact hends (Sim.index ((hcontexts m).expr e (ha.valid hb m) .refl .none))
  | lookup m name scope =>
    obtain rfl : scope = none := hr
    exact hends (Sim.index ((hcontexts m).name name (ha.valid hb m) .refl .none))
  | require m specifier =>
    exact hends (Sim.index (require_together hacyclic (fun n _ => together hacyclic n) specifier
      (ha.valid hb m) .refl))
  | invoke f m scope args => exact hr.elim

theorem Session.grows_after (s : Session) (requests : List Request) :
    s.log.Grows (s.after env requests).log := by
  induction requests generalizing s with
  | nil => exact .refl _
  | cons r requests ih => exact ((Eval.Grows.request env r).log s).trans (ih _)

/-- No request reads the log, so no run of requests does. -/
theorem outcomes_congr {s t : Session} (h : s.quiet = t.quiet) (requests : List Request) :
    outcomes env s requests = outcomes env t requests := by
  induction requests generalizing s t with
  | nil => rfl
  | cons r requests ih =>
    obtain ⟨hresult, hquiet⟩ := request_sameButLog env r h
    exact congrArg₂ List.cons hresult (ih hquiet)

/-- **A run of requests** on a session, against each of them on another one. -/
theorem outcomes_together (hacyclic : env.index.Acyclic) {b : Side} (hb : Idle env b)
    {requests : List Request} {a : Side} (ha : Idle env a)
    (htop : ∀ r ∈ requests, r.IsTopLevel)
    (hclean : (a.session.after env requests).log.Clean (· ∈ refusals))
    (hclean' : ∀ r ∈ requests, (r.run env b.session).2.log.Clean (· ∈ refusals)) :
    List.Forall₂ (Outcome Value.SameForm) (outcomes env a.session requests)
      (requests.map fun r => (r.run env b.session).1) := by
  induction requests generalizing a with
  | nil => exact .nil
  | cons r requests ih =>
    have hfirst : Finished (· ∈ refusals) (r.run env a.session) :=
      ⟨(request_ends env r _).1, hclean.of_grows (Session.grows_after _ requests)⟩
    have hfirst' : Finished (· ∈ refusals) (r.run env b.session) :=
      ⟨(request_ends env r _).1, hclean' r List.mem_cons_self⟩
    obtain ⟨houtcome, a', hsession, hidle⟩ :=
      request_together hacyclic (htop r List.mem_cons_self) ha hb hfirst hfirst'
    refine .cons houtcome ?_
    rw [← hsession]
    refine ih hidle (fun r hr => htop r (List.mem_cons_of_mem _ hr)) ?_
      fun r hr => hclean' r (List.mem_cons_of_mem _ hr)
    rw [hsession]
    exact hclean

theorem clean_of_not_refuses {requests : List Request} (h : ¬Refuses env requests) :
    ((Session.start (.empty true)).after env requests).log.Clean (· ∈ refusals) :=
  ⟨(Session.grows_after _ requests).verbose, fun message hmessage hhas =>
    h ⟨message, hmessage, hhas⟩⟩

/-- **Remembered exports are transparent.** Over an index without circles, what a session answers to
requests, one after the other, is what a new session answers to each of them: the same error, or a
value of the same kind that is printed in the same way, unless a call is refused in one of these
runs. The log of the sessions makes no difference. -/
theorem remembered_exports_are_transparent (hacyclic : env.index.Acyclic)
    {requests : List Request} (htop : ∀ r ∈ requests, r.IsTopLevel)
    (hshared : ¬Refuses env requests) (hnew : ∀ r ∈ requests, ¬Refuses env [r]) (log log' : Log) :
    List.Forall₂ (Outcome Value.SameForm) (outcomes env (Session.start log) requests)
      (requests.map fun r => (r.run env (Session.start log')).1) := by
  have hlog' (r : Request) : (r.run env (Session.start log')).1 =
      (r.run env (Session.start (.empty true))).1 :=
    (request_sameButLog env r (Session.quiet_start log' _)).1
  simp only [hlog', outcomes_congr (Session.quiet_start log (.empty true))]
  exact outcomes_together hacyclic (idle_start _) (idle_start _) htop (clean_of_not_refuses hshared)
    fun r hr => clean_of_not_refuses (hnew r hr)

/-- An exported helper is called with a function of another file, and returns a function that calls
it: the frames that these functions see have other numbers in a session that answers more. -/
theorem exported_helper_with_callback :
    let fs : FileSystem :=
      { nodes := [(["lib.js"], .file "exports.twice = h => x => h(h(x));")]
        workingDirectory := [] }
    let entry := "const add = require('./lib').twice(s => s + '!');"
    let loc : Loc := ⟨0, 0, 1, 1⟩
    let requests : List Request := [.require 0 "./lib", .lookup 0 "add" none,
      .expr 0 (.call loc false (.ident loc "add") [.lit loc (.string "a")]) none]
    ∃ index log, ModuleIndex.ofText fs entry "model.js" (.empty true) = .ok (index, log) ∧
      (outcomes ⟨index, .standard⟩ (Session.start log) requests).map
          (fun r => r.toOption.map Value.print) =
        [some "\x7b twice: [Function (anonymous)] \x7d", some "[Function (anonymous)]",
          some "'a!!'"] ∧
      List.Forall₂ (Outcome Value.SameForm)
        (outcomes ⟨index, .standard⟩ (Session.start log) requests)
        (requests.map fun r => (r.run ⟨index, .standard⟩ (Session.start log)).1) := by
  intro fs entry loc requests
  have hfacts : ((ModuleIndex.ofText fs entry "model.js" (.empty true)).toOption.any fun indexed =>
      decide (
        indexed.1.LinksForward ∧
        ¬Refuses ⟨indexed.1, .standard⟩ requests ∧
        (∀ r ∈ requests, ¬Refuses ⟨indexed.1, .standard⟩ [r]) ∧
        (outcomes ⟨indexed.1, .standard⟩ (Session.start indexed.2) requests).map
            (fun r => r.toOption.map Value.print) =
          [some "\x7b twice: [Function (anonymous)] \x7d", some "[Function (anonymous)]",
            some "'a!!'"])) = true := by decide +kernel
  cases hindex : ModuleIndex.ofText fs entry "model.js" (.empty true) with
  | error failure =>
    rw [hindex] at hfacts
    exact absurd hfacts Bool.false_ne_true
  | ok indexed =>
    rw [hindex] at hfacts
    obtain ⟨hforward, hshared, hnew, hprinted⟩ := of_decide_eq_true hfacts
    exact ⟨indexed.1, indexed.2, rfl, hprinted, remembered_exports_are_transparent
      hforward.acyclic (by decide) hshared hnew indexed.2 indexed.2⟩

end Requests

end SchemaDoc
