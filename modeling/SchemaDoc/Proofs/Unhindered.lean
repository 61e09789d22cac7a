import SchemaDoc.Proofs.Scenes
import SchemaDoc.Proofs.Transparency

/-!
# Evaluations that nothing hinders

Where modules refer to each other in circles, what a session remembers depends on where it started:
the first module that is asked for finds the exports of the others, and one of these finds that the
first one has none yet. Such a place is reported, and so is a name that refers to itself and a call
that is refused. This file compares evaluations in which nothing of the kind is reported
(`Hindrance`), over any index and from any sessions: they stay together, whatever each of the
sessions remembers and whatever is going on there.

* A side only remembers what was `Traced`, if all its exports were once evaluated without a
  hindrance, in a session that only remembered what was traced in turn, and their frames have not
  changed since.
* Two traces of a module `Agree`. The two evaluations need not have found the same exports
  remembered, so at a reference one of them may evaluate what the other one knows. The induction is
  on how deeply contexts nest on the left, and what is remembered there agrees with all traces, not
  only with those that the right side happens to have (`Sound`).
* That a side which evaluates exports only remembers traces afterwards is a comparison too, of that
  evaluation with itself (`copies`).
-/

namespace SchemaDoc

open Evaluate

/-! ### Hindrances -/

/-- The report that a module needs its own exports before they are there. -/
def circularReport (path : String) : String := s!"circular require of {path}; treated as unknown"

/-- A report that something was given up: a call was refused, or something refers to itself. -/
inductive Hindrance : String → Prop
  | refused {message : String} (h : message ∈ refusals) : Hindrance message
  | self (name : String) : Hindrance (selfReport name)
  | circular (path : String) : Hindrance (circularReport path)

section Exporting

variable {env : Environment} {ev : Evaluator Session} {n : ModuleId} {s : Session}

/-- Exports that are not remembered are evaluated now, since they are not being evaluated already.
-/
theorem run_exportsOf_of_finished (h : s.exports.lookup n = none)
    (hfinished : Finished Hindrance (exportsOf ev n env s)) :
    exportsOf ev n env s = Eval.remember n (evaluateExports ev n) env s := by
  by_cases hn : n ∈ s.exporting
  · have hasked : (Eval.asks fun s => s.exports.lookup n : Eval (Option Value)) env s =
        (.ok none, s) := by rw [← h]; rfl
    have hbusy : (Eval.asks fun s => s.exporting.contains n : Eval Bool) env s = (.ok true, s) := by
      have hcontains : s.exporting.contains n = true := by simpa using hn
      rw [← hcontains]
      rfl
    have hrun : exportsOf ev n env s = (do
        Eval.warn (circularReport (env.index.path n))
        return Value.unknown : Eval Value) env s :=
      (Eval.run_bind_ok hasked).trans (Eval.run_bind_ok hbusy)
    exact absurd (hrun ▸ hfinished) (not_finished_warn (.circular _))
  · exact run_exportsOf_of_unknown h hn

end Exporting

/-! ### What two sides remember -/

/-- Something that is known of what two sides remember, whatever is going on there. -/
structure Memory where
  Holds : Side → Side → Prop
  stable : ∀ {a b a' b' : Side}, a.Keeps a' → b.Keeps b' → Holds a b → Holds a' b'

/-- Two results that agree: they are the same error or similar values, and the frames that are
paired are frozen. -/
def Agree (r : Except Stop Value) (fs : Frames) (frozen : Nat → Prop) (r' : Except Stop Value)
    (gs : Frames) (frozen' : Nat → Prop) : Prop :=
  ∃ pairs, (∀ i j, pairs i j → frozen i ∧ frozen' j) ∧ fs.Match (fun _ => True) pairs gs ∧
    Outcome (Value.Similar (fun _ => True) pairs) r r'

theorem Agree.mono {r r' : Except Stop Value} {fs gs fs' gs' : Frames}
    {frozen frozen' more more' : Nat → Prop} (h : Agree r fs frozen r' gs frozen')
    (hkept : ∀ id, frozen id → more id ∧ fs'.frames[id]? = fs.frames[id]?)
    (hkept' : ∀ id, frozen' id → more' id ∧ gs'.frames[id]? = gs.frames[id]?) :
    Agree r fs' more r' gs' more' := by
  obtain ⟨pairs, hfrozen, hmatch, houtcome⟩ := h
  refine ⟨pairs, fun i j hij => ?_, hmatch.congr (fun i j hij => ?_) fun i j hij => ?_, houtcome⟩
  · exact ⟨(hkept i (hfrozen i j hij).1).1, (hkept' j (hfrozen i j hij).2).1⟩
  · exact (hkept i (hfrozen i j hij).1).2
  · exact (hkept' j (hfrozen i j hij).2).2

namespace Memory

variable (M : Memory) (env : Environment)

/-- The setting in which any code may be run, nothing hinders it, and something is known of what the
two sides remember. -/
def setting : Setting env where
  code _ := True
  Excluded := Hindrance
  refusal_excluded _ := .refused
  Holds := M.Holds
  stable ha hb h := M.stable ⟨ha.exports, fun id hid => ⟨hid, ha.frames id hid⟩⟩
    ⟨hb.exports, fun id hid => ⟨hid, hb.frames id hid⟩⟩ h

variable {M env} {w : World}

/-- **Exports that agree**, on two sides that some code leads to. -/
theorem meet (hw : (M.setting env).Valid w) {x y : Eval Value} {a b : Side}
    (ha : a.session = (x env w.left.session).2) (hb : b.session = (y env w.right.session).2)
    (hexta : w.left.Extends none a) (hextb : w.right.Extends none b) (hholds : M.Holds a b)
    (hagree : Agree (x env w.left.session).1 a.session.frames a.frozen (y env w.right.session).1
      b.session.frames b.frozen) :
    ∃ w', (M.setting env).Ends none none w (M.setting env).Values (x env w.left.session)
      (y env w.right.session) w' := by
  obtain ⟨pairs, hfrozen, hmatch, houtcome⟩ := hagree
  obtain ⟨hvalid, hext⟩ := hw.join hexta hextb hholds (fun _ h => h) hmatch fun i j hij =>
    ⟨hexta.apart i (.inl (hfrozen i j hij).1), hextb.apart j (.inl (hfrozen i j hij).2)⟩
  exact ⟨_, ha, hb, hvalid, hext,
    houtcome.imp fun _ _ hv => hv.mono (fun _ h => h) fun _ _ => .inr⟩

/-- What is being resolved makes no difference. -/
theorem resolving (hw : (M.setting env).Valid w) (key : ModuleId × String) {α : Type} {x y : Eval α}
    {q : (Nat → Nat → Prop) → α → α → Prop}
    (h : ∀ w', (M.setting env).Valid w' → Sim (M.setting env) none none w' x y q) :
    Sim (M.setting env) none none w (Eval.whileResolving key x) (Eval.whileResolving key y) q := by
  have henter (a : Side) : a.Keeps (a.resolving key) := ⟨rfl, fun _ hid => ⟨hid, rfl⟩⟩
  have hleave (a : Side) : a.Keeps a.resolved := ⟨rfl, fun _ hid => ⟨hid, rfl⟩⟩
  intro hx hy
  have hinside : (M.setting env).Valid ⟨w.left.resolving key, w.right.resolving key, w.pairs⟩ :=
    ⟨hw.frames, M.stable (henter _) (henter _) hw.holds⟩
  obtain ⟨w₁, hleft, hright, hvalid, hext, houtcome⟩ :=
    h _ hinside ⟨hx.ends, hx.clean⟩ ⟨hy.ends, hy.clean⟩
  refine ⟨⟨w₁.left.resolved, w₁.right.resolved, w₁.pairs⟩, ?_, ?_,
    ⟨hvalid.frames, M.stable (hleave _) (hleave _) hvalid.holds⟩,
    ⟨hext.left.resolved, hext.right.resolved, hext.pairs, hext.new⟩, houtcome⟩
  · exact congrArg (fun s : Session => { s with resolving := s.resolving.tail }) hleft
  · exact congrArg (fun s : Session => { s with resolving := s.resolving.tail }) hright

section Follows

variable {ev ev' : Evaluator Session}

theorem require {m : ModuleId} (specifier : String) (hw : (M.setting env).Valid w)
    (hexports : ∀ n, Sim (M.setting env) none none w (exportsOf ev n) (exportsOf ev' n)
      (M.setting env).Values) :
    Sim (M.setting env) none none w (require ev m specifier) (Evaluate.require ev' m specifier)
      (M.setting env).Values := by
  refine Sim.index ?_
  split
  · exact .warn_unknown hw _
  · exact Sim.index (.fail hw _)
  next n _ => exact hexports n

variable [∀ goal, Eval.Grows env (ev goal)] [∀ goal, Eval.Grows env (ev' goal)]

/-- **Evaluations that stay together at exports** stay together where names and references are
followed. A name that is being resolved already is a hindrance. -/
theorem follows (hev : (M.setting env).Evaluators ev ev')
    (hexports : ∀ {w : World} (n : ModuleId), (M.setting env).Valid w →
      Sim (M.setting env) none none w (exportsOf ev n) (exportsOf ev' n) (M.setting env).Values) :
    (M.setting env).Follows ev ev' where
  require specifier hw _ := require specifier hw fun n => hexports n hw
  topLevel {w m} name hw _ := by
    have hself : Hindrance s!"'{name}' refers to itself; treated as unknown" := .self name
    refine Sim.asks ?_
    split
    · exact fun hx => absurd hx (not_finished_warn hself)
    · split
      · exact fun _ hy => absurd hy (not_finished_warn hself)
      · refine Sim.index ?_
        split
        · exact .pure hw .unknown
        next program _ =>
          refine Sim.bind_of_grows ?grows ?grows' (resolving hw (m, name) fun w' hw' =>
            hev.introduced? hw' trivial name program fun source =>
              require source hw' fun n => hexports n hw') fun w₁ v v' hw₁ _ hv => ?_
          case grows | grows' =>
            intro found
            cases found <;> infer_instance
          cases hv with
          | some hv => exact .pure hw₁ hv
          | none =>
            refine Sim.config ?_
            split
            · exact .pure hw₁ (.atom rfl)
            · exact Sim.index (.warn_unknown hw₁ _)

end Follows

/-- **All evaluations stay together**, if they do at exports. The induction is on how deeply
contexts nest on the left. -/
theorem evaluators
    (hexports : ∀ k, (∀ k', (M.setting env).Evaluators (evaluate k) (evaluate k')) →
      ∀ k' {w : World} (n : ModuleId), (M.setting env).Valid w →
        Sim (M.setting env) none none w (exportsOf (evaluate k) n) (exportsOf (evaluate k') n)
          (M.setting env).Values) (k k' : Nat) :
    (M.setting env).Evaluators (evaluate k) (evaluate k') := by
  induction k generalizing k' with
  | zero => exact ⟨fun _ _ _ _ hx => absurd rfl hx.ends, fun _ _ _ _ hx => absurd rfl hx.ends⟩
  | succ k ih =>
    cases k' with
    | zero => exact ⟨fun _ _ _ _ _ hy => absurd rfl hy.ends, fun _ _ _ _ _ hy => absurd rfl hy.ends⟩
    | succ k' => exact (ih k').step (follows (ih k') (hexports k ih k'))

/-- **Two evaluations of the exports of a module** lead to sides that still remember what is known,
and give results that agree. -/
theorem evaluateExports {k k' : Nat} (hev : (M.setting env).Evaluators (evaluate k) (evaluate k'))
    {n : ModuleId} {a b : Side} (hholds : M.Holds a b) {r r' : Except Stop Value} {s t : Session}
    (hrun : evaluateExports (evaluate k) n env
      { a.session with exporting := n :: a.session.exporting } = (r, s))
    (hfinished : Finished Hindrance (r, s))
    (hrun' : Evaluate.evaluateExports (evaluate k') n env
      { b.session with exporting := n :: b.session.exporting } = (r', t))
    (hfinished' : Finished Hindrance (r', t)) :
    ∃ a' b' : Side, a'.session = s ∧ b'.session = t ∧ (a.exporting n).Extends none a' ∧
      (b.exporting n).Extends none b' ∧ M.Holds a' b' ∧
      Agree r s.frames (a.Since s) r' t.frames (b.Since t) := by
  have hkeeps (c : Side) : c.Keeps (c.exporting n) := ⟨rfl, fun id hid => ⟨hid, rfl⟩⟩
  have hsim := hev.evaluateExports (m := n) trivial
    (w := ⟨a.exporting n, b.exporting n, fun _ _ => False⟩)
    ⟨.empty _ _, M.stable (hkeeps a) (hkeeps b) hholds⟩
  obtain ⟨w, hleft, hright, hvalid, hext, houtcome⟩ :=
    hsim (hrun ▸ hfinished) (hrun' ▸ hfinished')
  obtain rfl : w.left.session = s := hleft.trans (congrArg Prod.snd hrun)
  obtain rfl : w.right.session = t := hright.trans (congrArg Prod.snd hrun')
  have houtcome : Outcome ((M.setting env).Values w.pairs) r r' := by
    have hr : _ = r := congrArg Prod.fst hrun
    have hr' : _ = r' := congrArg Prod.fst hrun'
    exact hr ▸ hr' ▸ houtcome
  exact ⟨w.left, w.right, rfl, rfl, hext.left, hext.right, hvalid.holds, w.pairs,
    fun _ _ hij => hext.since hvalid.frames hij, hvalid.frames, houtcome⟩

end Memory

/-! ### Traces -/

/-- **A trace of a module**: what evaluating its exports once came to, without a hindrance, and that
the frames that were frozen then, or that it created, are the same now. The session that it started
from only remembered exports that were traced in turn. -/
inductive Traced (env : Environment) : ExportsProperty
  | mk {n : ModuleId} {k : Nat} {a : Side} {r : Except Stop Value} {s : Session} {fs : Frames}
      {frozen : Nat → Prop}
      (known : ∀ m v, a.session.exports.lookup m = some v →
        Traced env m (.ok v) a.session.frames a.frozen)
      (run : evaluateExports (evaluate k) n env
        { a.session with exporting := n :: a.session.exporting } = (r, s))
      (finished : Finished Hindrance (r, s))
      (kept : ∀ id, a.Since s id → frozen id ∧ fs.frames[id]? = s.frames.frames[id]?) :
      Traced env n r fs frozen

theorem Traced.lasting (env : Environment) : ExportsProperty.Lasting (Traced env) := by
  rintro n r fs fs' frozen frozen' ⟨known, run, finished, kept⟩ hkept
  refine ⟨known, run, finished, fun id hid => ?_⟩
  obtain ⟨hfrozen, hframe⟩ := kept id hid
  exact ⟨(hkept id hfrozen).1, (hkept id hfrozen).2.trans hframe⟩

/-! ### Evaluations compared with themselves -/

/-- Two sides remember exports of the same modules, and these agree. -/
def Side.Alike (a b : Side) : Prop :=
  ∀ n, Option.Rel (fun v v' => Agree (.ok v) a.session.frames a.frozen (.ok v') b.session.frames
    b.frozen) (a.session.exports.lookup n) (b.session.exports.lookup n)

theorem Side.Alike.of_keeps {a b a' b' : Side} (h : a.Alike b) (ha : a.Keeps a') (hb : b.Keeps b') :
    a'.Alike b' := by
  intro n
  rw [ha.exports, hb.exports]
  exact optionRel_mono (fun _ _ hagree => hagree.mono ha.kept hb.kept) (h n)

/-- Sides stay alike if exports that agree are added. -/
theorem Side.Alike.exported {a b a₁ b₁ : Side} {n : ModuleId} {r r' : Except Stop Value}
    (h : a₁.Alike b₁) (hext : (a.exporting n).Extends none a₁)
    (hext' : (b.exporting n).Extends none b₁)
    (hagree : Agree r a₁.session.frames (a.Since a₁.session) r' b₁.session.frames
      (b.Since b₁.session)) :
    (a.exported n r a₁.session hext.size_le).Alike (b.exported n r' b₁.session hext'.size_le) := by
  intro m
  have hbefore : Option.Rel (fun v v' => Agree (.ok v) a₁.session.frames (a.Since a₁.session)
      (.ok v') b₁.session.frames (b.Since b₁.session)) (a₁.session.exports.lookup m)
      (b₁.session.exports.lookup m) :=
    optionRel_mono (fun _ _ hagree => hagree.mono (fun _ hid => ⟨hext.since hid, rfl⟩)
      fun _ hid => ⟨hext'.since hid, rfl⟩) (h m)
  have houtcome := hagree
  obtain ⟨pairs, -, -, houtcome⟩ := houtcome
  cases houtcome with
  | error e => exact hbefore
  | @ok u u' _ =>
    change Option.Rel _ (List.lookup m ((n, u) :: a₁.session.exports))
      (List.lookup m ((n, u') :: b₁.session.exports))
    rw [List.lookup_cons, List.lookup_cons]
    split
    · exact .some hagree
    · exact hbefore

/-- Two sides that are alike, the first one of which only remembers what was traced. -/
def copies (env : Environment) : Memory where
  Holds a b := a.Remembers (Traced env) ∧ a.Alike b
  stable ha hb h := ⟨h.1.of_keeps (Traced.lasting env) ha, h.2.of_keeps ha hb⟩

section Copies

variable {env : Environment} {n : ModuleId}

/-- Sides that are alike both remember the exports of a module, or none of them does. -/
theorem copies_exportsOf {k k' : Nat}
    (hev : ((copies env).setting env).Evaluators (evaluate k) (evaluate k')) {w : World}
    (hw : ((copies env).setting env).Valid w) :
    Sim ((copies env).setting env) none none w (exportsOf (evaluate k) n)
      (exportsOf (evaluate k') n) ((copies env).setting env).Values := by
  intro hx hy
  obtain ⟨htraced, halike⟩ := hw.holds
  have hn := halike n
  cases hlookup : w.left.session.exports.lookup n with
  | some v =>
    rw [hlookup] at hn
    cases hlookup' : w.right.session.exports.lookup n with
    | none =>
      rw [hlookup'] at hn
      cases hn
    | some v' =>
      rw [hlookup'] at hn
      obtain ⟨hagree⟩ := hn
      refine Memory.meet hw (a := w.left) (b := w.right) ?_ ?_ (.refl _) (.refl _) hw.holds ?_
      all_goals simp only [run_exportsOf_of_known hlookup, run_exportsOf_of_known hlookup']
      exact hagree
  | none =>
    have hlookup' : w.right.session.exports.lookup n = none := by
      rw [hlookup] at hn
      generalize w.right.session.exports.lookup n = found at hn
      cases hn
      rfl
    rcases hrun : evaluateExports (evaluate k) n env
      { w.left.session with exporting := n :: w.left.session.exporting } with ⟨r, s⟩
    rcases hrun' : evaluateExports (evaluate k') n env
      { w.right.session with exporting := n :: w.right.session.exporting } with ⟨r', t⟩
    have hleft := (run_exportsOf_of_finished hlookup hx).trans (run_remember_eq hrun)
    have hright := (run_exportsOf_of_finished hlookup' hy).trans (run_remember_eq hrun')
    rw [hleft] at hx
    rw [hright] at hy
    have hfinished : Finished Hindrance (r, s) := ⟨hx.ends, hx.clean⟩
    obtain ⟨a, b, rfl, rfl, hexta, hextb, hholds, hagree⟩ :=
      Memory.evaluateExports hev hw.holds hrun hfinished hrun' ⟨hy.ends, hy.clean⟩
    have hnew : Traced env n r a.session.frames (w.left.Since a.session) :=
      .mk htraced hrun hfinished fun id hid => ⟨hid, rfl⟩
    refine Memory.meet hw (congrArg Prod.snd hleft).symm (congrArg Prod.snd hright).symm
      hexta.exported hextb.exported
      ⟨hholds.1.exported hexta (Traced.lasting env) hnew, hholds.2.exported hexta hextb hagree⟩ ?_
    rw [hleft, hright]
    exact hagree

theorem copies_evaluators (k k' : Nat) :
    ((copies env).setting env).Evaluators (evaluate k) (evaluate k') :=
  Memory.evaluators (fun _ hev k' _ _ hw => copies_exportsOf (hev k') hw) k k'

/-- **A trace agrees with itself**, since the evaluation does that it is a trace of. -/
theorem Traced.agree_self {r : Except Stop Value} {fs : Frames} {frozen : Nat → Prop}
    (h : Traced env n r fs frozen) : Agree r fs frozen r fs frozen := by
  induction h with
  | @mk n k a r s fs frozen known run finished kept ih =>
    have halike : a.Alike a := by
      intro m
      cases hlookup : a.session.exports.lookup m with
      | none => exact .none
      | some v => exact .some (ih m v hlookup)
    obtain ⟨-, -, -, -, -, -, -, hagree⟩ :=
      Memory.evaluateExports (copies_evaluators k k) ⟨known, halike⟩ run finished run finished
    exact hagree.mono kept kept

theorem Side.Remembers.alike_self {a : Side} (h : a.Remembers (Traced env)) : a.Alike a := by
  intro m
  cases hlookup : a.session.exports.lookup m with
  | none => exact .none
  | some v => exact .some (h m v hlookup).agree_self

/-- **What is traced leads to what is traced.** -/
theorem Side.Remembers.traced_exportsOf {a : Side} (ha : a.Remembers (Traced env)) {k : Nat}
    (hfinished : Finished Hindrance (Evaluate.exportsOf (evaluate k) n env a.session)) :
    ∃ b : Side, b.session = (Evaluate.exportsOf (evaluate k) n env a.session).2 ∧
      a.Extends none b ∧ b.Remembers (Traced env) ∧
      Traced env n (Evaluate.exportsOf (evaluate k) n env a.session).1 b.session.frames
        b.frozen := by
  refine ha.exportsOf (Traced.lasting env) hfinished
    (fun hlookup => run_exportsOf_of_finished hlookup hfinished) fun r s hrun hrunFinished => ?_
  obtain ⟨b, _, rfl, -, hext, -, hholds, -⟩ := Memory.evaluateExports (copies_evaluators k k)
    ⟨ha, ha.alike_self⟩ hrun hrunFinished hrun hrunFinished
  exact ⟨b, rfl, hext, hholds.1, .mk ha hrun hrunFinished fun id hid => ⟨hid, rfl⟩⟩

end Copies

/-! ### Evaluations compared with each other -/

/-- Exports that were traced and agree with every trace of their module. -/
structure Sound (env : Environment) (n : ModuleId) (r : Except Stop Value) (fs : Frames)
    (frozen : Nat → Prop) : Prop where
  traced : Traced env n r fs frozen
  agree : ∀ {r' : Except Stop Value} {gs : Frames} {frozen' : Nat → Prop},
    Traced env n r' gs frozen' → Agree r fs frozen r' gs frozen'

theorem Sound.lasting (env : Environment) : ExportsProperty.Lasting (Sound env) :=
  fun h hkept => ⟨Traced.lasting env h.traced hkept, fun htraced =>
    (h.agree htraced).mono hkept fun _ hid => ⟨hid, rfl⟩⟩

/-- A side whose exports agree with every trace, and one whose exports were traced. -/
def soundMemory (env : Environment) : Memory where
  Holds a b := a.Remembers (Sound env) ∧ b.Remembers (Traced env)
  stable ha hb h := ⟨h.1.of_keeps (Sound.lasting env) ha, h.2.of_keeps (Traced.lasting env) hb⟩

/-- **The setting of evaluations that nothing hinders.** -/
def unhindered (env : Environment) : Setting env := (soundMemory env).setting env

section Unhindered

variable {env : Environment} {n : ModuleId}

theorem Side.Remembers.traced {a : Side} (h : a.Remembers (Sound env)) : a.Remembers (Traced env) :=
  fun n v hv => (h n v hv).traced

/-- Evaluating exports with a bound up to which all evaluations stay together gives a trace that
agrees with all others. -/
theorem sound_of_run {k : Nat}
    (hev : ∀ k', (unhindered env).Evaluators (evaluate k) (evaluate k')) {a : Side}
    (ha : a.Remembers (Sound env)) {r : Except Stop Value} {s : Session}
    (hrun : evaluateExports (evaluate k) n env
      { a.session with exporting := n :: a.session.exporting } = (r, s))
    (hfinished : Finished Hindrance (r, s)) : Sound env n r s.frames (a.Since s) := by
  refine ⟨.mk ha.traced hrun hfinished fun id hid => ⟨hid, rfl⟩, fun htraced => ?_⟩
  obtain @⟨_, k', b, _, t, _, _, known, run, finished, kept⟩ := htraced
  obtain ⟨-, -, -, -, -, -, -, hagree⟩ :=
    Memory.evaluateExports (hev k') ⟨ha, known⟩ hrun hfinished run finished
  exact hagree.mono (fun _ hid => ⟨hid, rfl⟩) kept

/-- **The exports of a module, on two sides**: whether they are remembered on none, one or both of
them makes no difference. -/
theorem unhindered_exportsOf {k : Nat}
    (hev : ∀ k', (unhindered env).Evaluators (evaluate k) (evaluate k')) (k' : Nat) {w : World}
    (hw : (unhindered env).Valid w) :
    Sim (unhindered env) none none w (exportsOf (evaluate k) n) (exportsOf (evaluate k') n)
      (unhindered env).Values := by
  intro hx hy
  obtain ⟨hsound, htraced⟩ := hw.holds
  obtain ⟨a, ha, hexta, hsounda, hleft⟩ := hsound.exportsOf (Sound.lasting env) hx
    (fun hlookup => run_exportsOf_of_finished hlookup hx) fun r s hrun hfinished => by
      obtain ⟨b, _, rfl, -, hext, -, hholds, -⟩ := Memory.evaluateExports (hev k)
        ⟨hsound, hsound.traced⟩ hrun hfinished hrun hfinished
      exact ⟨b, rfl, hext, hholds.1, sound_of_run hev hsound hrun hfinished⟩
  obtain ⟨b, hb, hextb, htracedb, hright⟩ := htraced.traced_exportsOf hy
  exact Memory.meet hw ha hb hexta hextb ⟨hsounda, htracedb⟩ (hleft.agree hright)

/-- **Evaluations that nothing hinders stay together.** -/
theorem unhindered_evaluators (env : Environment) (k k' : Nat) :
    (unhindered env).Evaluators (evaluate k) (evaluate k') :=
  Memory.evaluators (fun _ hev k' _ _ hw => unhindered_exportsOf hev k' hw) k k'

/-- **Two traces of a module agree.** -/
theorem Traced.sound {r : Except Stop Value} {fs : Frames} {frozen : Nat → Prop}
    (h : Traced env n r fs frozen) : Sound env n r fs frozen := by
  induction h with
  | @mk n k a r s fs frozen known run finished kept ih =>
    exact Sound.lasting env (sound_of_run (unhindered_evaluators env k) ih run finished) kept

/-- Two sides that only remember what was traced can be compared. -/
theorem Side.Remembers.valid {a b : Side} (ha : a.Remembers (Traced env))
    (hb : b.Remembers (Traced env)) : (unhindered env).Valid ⟨a, b, fun _ _ => False⟩ :=
  ⟨.empty _ _, fun n v hv => (ha n v hv).sound, hb⟩

end Unhindered

/-! ### Requests -/

section Requests

variable {env : Environment}

/-- **A request at top level**, on two sides. -/
theorem request_unhindered {r : Request} (hr : r.IsTopLevel) {a b : Side}
    (ha : a.Remembers (Traced env)) (hb : b.Remembers (Traced env)) :
    Sim (unhindered env) none none ⟨a, b, fun _ _ => False⟩ r.run r.run
      (unhindered env).Values := by
  have hev := unhindered_evaluators env (env.index.contexts + 1) (env.index.contexts + 1)
  cases r with
  | expr m e scope =>
    obtain rfl : scope = none := hr
    exact Sim.index (hev.expr e (ha.valid hb) trivial .none)
  | lookup m name scope =>
    obtain rfl : scope = none := hr
    exact Sim.index (hev.name name (ha.valid hb) trivial .none)
  | require m specifier =>
    exact Sim.index (Memory.require specifier (ha.valid hb) fun n =>
      unhindered_exportsOf (unhindered_evaluators env _) _ (ha.valid hb))
  | invoke f m scope args => exact hr.elim

/-- **A run of requests** that nothing hinders only leaves what was traced. -/
theorem traced_after {requests : List Request} (htop : ∀ r ∈ requests, r.IsTopLevel) {a : Side}
    (ha : a.Remembers (Traced env)) (hclean : (a.session.after env requests).log.Clean Hindrance) :
    ∃ b : Side, b.session = a.session.after env requests ∧ b.Remembers (Traced env) ∧
      a.session.SameContexts b.session := by
  induction requests generalizing a with
  | nil => exact ⟨a, rfl, ha, .refl _⟩
  | cons r requests ih =>
    have hfirst : Finished Hindrance (r.run env a.session) :=
      ⟨(request_ends env r _).1, hclean.of_grows (Session.grows_after _ requests)⟩
    obtain ⟨w, hleft, -, hvalid, hext, -⟩ :=
      request_unhindered (htop r List.mem_cons_self) ha ha hfirst hfirst
    have hafter : w.left.session.after env requests = a.session.after env (r :: requests) := by
      rw [hleft]
      rfl
    obtain ⟨b, hsession, hb, hcontexts⟩ := ih (fun r hr => htop r (List.mem_cons_of_mem _ hr))
      hvalid.holds.1.traced (hafter ▸ hclean)
    exact ⟨b, hsession.trans hafter, hb, hext.left.toSameContexts.trans hcontexts⟩

/-- A new session remembers nothing. -/
theorem exists_traced_after {requests : List Request} (htop : ∀ r ∈ requests, r.IsTopLevel)
    {log : Log} (hclean : ((Session.start log).after env requests).log.Clean Hindrance) :
    ∃ b : Side, b.session = (Session.start log).after env requests ∧ b.Remembers (Traced env) ∧
      b.session.resolving = [] := by
  let a : Side := ⟨Session.start log, fun _ => False, fun _ h => h.elim⟩
  obtain ⟨b, hsession, hb, hcontexts⟩ :=
    traced_after (a := a) htop (fun _ _ h => (nomatch h)) hclean
  exact ⟨b, hsession, hb, hcontexts.resolving⟩

end Requests

end SchemaDoc
