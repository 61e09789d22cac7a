import SchemaDoc.Document.Basic
import SchemaDoc.Proofs.Logic

/-!
# The rules of rendering

Rendering evaluates expressions, reports, stops, and otherwise only puts together what it gets. So a
property of computations that survives being put together, and holds of every evaluation and every
report, holds of rendering as a whole. This file says so once: a `Rule` is such a property, and
`Rule.schemaSections` gives it for the sections of all schemas. The recursion of rendering is one on
the fuel (`Rule.renderEntries`), over one level that renders with whatever renders the levels below.

The text of the entry file is needed for the section of the indexes alone, so a rule need not say
anything about it; one that does holds of every document (`Rule.renderWithin`).

Unlike a `Logic`, which has a rule for each of the few things that evaluation does to the session, a
rule of rendering takes evaluation as a whole: rendering has no other way to change the session but
to report.
-/

namespace SchemaDoc

/-- **A rule of rendering**: a property of computations, at the session that they start from, that
everything rendering is built from respects. -/
structure Rule (env : Environment) where
  Holds : {α : Type} → Eval α → Session → Prop
  pure : ∀ {α : Type} {s : Session} (a : α), Holds (pure a) s
  stop : ∀ {α : Type} {s : Session} (reason : Stop), Holds (throw reason : Eval α) s
  bind : ∀ {α β : Type} {x : Eval α} {f : α → Eval β} {s : Session}, Holds x s →
    (∀ a s, Holds (f a) s) → Holds (x >>= f) s
  /-- The entry file, for a purpose other than its text. -/
  entry : ∀ {α : Type} {f : Program → Eval α} {s : Session},
    (∀ program : Program, f program.textless = f program) → (∀ program s, Holds (f program) s) →
    Holds (Document.entryProgram >>= f) s
  config : ∀ {α : Type} {f : Config → Eval α} {s : Session}, Holds (f env.config) s →
    Holds (Eval.config >>= f) s
  warn : ∀ {s : Session} (message : String), Holds (Eval.warn message) s
  info : ∀ {s : Session} (message : String), Holds (Eval.info message) s
  request : ∀ {s : Session} (r : Request), Holds r.run s

namespace Rule

open Document

variable {env : Environment} (R : Rule env) {s : Session}

/-! ### Shapes of values -/

theorem resolve (e : Expr) : R.Holds (resolve e) s := R.request (.expr 0 e none)

theorem unknownType (key shape : String) : R.Holds (unknownType key shape) s :=
  R.bind (R.warn _) fun _ _ => R.pure _

theorem unknownShape (key shape : String) (arrays : Nat) :
    R.Holds (do return Shape.scalar arrays (← Document.unknownType key shape)) s :=
  R.bind (R.unknownType key shape) fun _ _ => R.pure _

mutual
theorem valueShape (config : Config) (key : String) (arrays : Nat) : (v : Value) →
    R.Holds (valueShape config key arrays v) s
  | .list [] => R.pure _
  | .list (first :: rest) => by
    unfold Document.valueShape
    split
    · exact valueShape config key (arrays + 1) first
    · exact R.pure _
  | .map fields => by
    unfold Document.valueShape
    split
    next marker hmarker =>
      exact R.bind (markerShape? config key arrays fields marker hmarker) fun _ _ => R.pure _
    next =>
      dsimp only
      split <;> exact R.pure _
  | .num _ | .bool _ | .null | .bigint _ | .typeLabel _ | .str _ => R.pure _
  | .pattern _ _ | .function _ _ _ | .native _ | .unknown => R.unknownShape _ _ _

theorem markerShape? (config : Config) (key : String) (arrays : Nat) :
    (fields : List (String × Value)) →
      ∀ x, Document.markerShape? config key arrays fields = some x → R.Holds x s
  | [], _, h => nomatch h
  | (k, v) :: fields, x, h => by
    unfold Document.markerShape? at h
    split at h
    · obtain rfl := Option.some.inj h
      exact valueShape config key arrays v
    · exact markerShape? config key arrays fields x h
end

/-! ### Shapes of definitions -/

theorem inlineFields (e : Expr) (schema : String) : R.Holds (inlineFields e schema) s := by
  refine R.entry (fun _ => rfl) fun program s => R.config ?_
  split
  · exact R.pure _
  · exact R.stop _

theorem slots (key : String) (done : List (String × Slot)) (entries : List Entry) :
    R.Holds (slots key done entries) s := by
  induction entries generalizing done s with
  | nil => exact R.pure _
  | cons entry entries ih =>
    simp only [Document.slots]
    split
    · exact ih _
    · refine R.bind (R.resolve _) fun value s => ?_
      split
      · exact ih _
      · exact R.bind (R.warn _) fun _ _ => ih _
      · exact ih _
    · exact ih _

theorem markerLabel (key : String) (marker : Expr) : R.Holds (markerLabel key marker) s := by
  unfold Document.markerLabel
  split
  · refine R.bind (R.resolve _) fun value s => ?_
    split <;> exact R.pure _
  · exact R.pure _
  · exact R.pure _
  · refine R.bind (R.resolve _) fun value s => ?_
    split
    · exact R.pure _
    · exact R.unknownType _ _

theorem arrayMarkerShape (key : String) (arrays : Nat) (marker : Expr) :
    R.Holds (arrayMarkerShape key arrays marker) s := by
  unfold Document.arrayMarkerShape
  dsimp only
  split
  · exact R.pure _
  · exact R.pure _
  · exact R.bind (R.markerLabel key _) fun _ _ => R.pure _

theorem plainMarkerShape (key : String) (arrays : Nat) (marker : Expr) :
    R.Holds (plainMarkerShape key arrays marker) s := by
  refine R.bind (R.inlineFields marker key) fun entries s => ?_
  split
  · exact R.pure _
  · exact R.bind (R.markerLabel key marker) fun _ _ => R.pure _

theorem slotShape (key : String) (arrays : Nat) (own : Children) (all : List (String × Slot)) :
    R.Holds (slotShape key arrays own all) s := by
  refine R.config ?_
  dsimp only
  split
  · split <;> exact R.pure _
  · split <;> exact R.pure _
  · exact R.bind (R.arrayMarkerShape key arrays _) fun _ _ => R.pure _
  · exact R.bind (R.plainMarkerShape key arrays _) fun _ _ => R.pure _
  · exact R.bind (R.valueShape env.config key arrays _) fun _ _ => R.pure _

theorem objectShape (key : String) (arrays : Nat) (loc : Loc) (entries : List Entry) :
    R.Holds (objectShape key arrays loc entries) s :=
  R.bind (R.slots key [] entries) fun all _ =>
    R.bind (R.slotShape key arrays _ all) fun _ _ => R.pure _

theorem nodeShape (key : String) (arrays : Nat) (node : Expr) :
    R.Holds (nodeShape key arrays node) s := by
  unfold Document.nodeShape
  split
  · exact R.pure _
  · refine R.bind (R.resolve _) fun value s => ?_
    split
    · exact R.config (R.valueShape env.config key arrays _)
    · exact R.config (R.valueShape env.config key arrays _)
    · exact R.pure _
    · exact R.pure _
  · exact R.pure _
  · exact R.pure _
  · exact R.objectShape key arrays _ _
  · refine R.bind (R.inlineFields _ key) fun entries s => ?_
    split
    · exact R.pure _
    · exact R.config (R.bind (R.resolve _) fun value _ => R.valueShape env.config key arrays value)

theorem shapeOf (key : String) (definition : Expr) : R.Holds (shapeOf key definition) s := by
  unfold Document.shapeOf
  split
  · exact R.pure _
  · exact R.nodeShape key _ _

/-! ### Fields -/

theorem optionTexts (options : List (String × Slot)) (names : List String) :
    R.Holds (optionTexts options names) s := by
  induction names generalizing s with
  | nil => exact R.pure _
  | cons name names ih =>
    simp only [Document.optionTexts]
    split
    next => exact ih
    next slot _ =>
      cases slot with
      | node e => exact R.bind (R.resolve e) fun _ _ => R.bind ih fun _ _ => R.pure _
      | value v => exact R.bind (R.pure v) fun _ _ => R.bind ih fun _ _ => R.pure _

theorem bullet (key : String) (shape : Shape) (depth : Nat) :
    R.Holds (bullet key shape depth) s :=
  R.config (R.bind (R.optionTexts _ _) fun _ _ => R.pure _)

theorem valueFields (fuel depth : Nat) (fields : List (String × Value)) :
    R.Holds (valueFields fuel depth fields) s := by
  fun_induction Document.valueFields fuel depth fields generalizing s with
  | case1 => exact R.pure _
  | case2 => exact R.stop _
  | case3 fuel depth key v fields ihrest ihinner =>
    refine R.config (R.bind (R.valueShape env.config key 0 v) fun shape s => ?_)
    refine R.bind (R.bullet key shape depth) fun _ s => ?_
    dsimp only
    split
    next inner _ => exact R.bind (ihinner inner) fun _ _ => R.bind ihrest fun _ _ => R.pure _
    next => exact R.bind (R.pure []) fun _ _ => R.bind ihrest fun _ _ => R.pure _

/-- A way to render entries that keeps to the rule. -/
def Renders (r : Renderer) : Prop :=
  ∀ splicing depth line entries s, R.Holds (r splicing depth line entries) s

section Level

variable {R} {r : Renderer} (hr : R.Renders r)

include hr

theorem Renders.childFields (splicing : List String) (depth : Nat) (children : Children) :
    R.Holds (childFields r splicing depth children) s := by
  cases children with
  | none => exact R.pure _
  | entries entries line => exact hr splicing depth line entries s
  | values fields => exact R.valueFields _ depth fields

theorem Renders.field (splicing : List String) (depth : Nat) (line : Option Nat) (key : String)
    (entry : Entry) : R.Holds (field r splicing depth line key entry) s := by
  refine R.bind (R.shapeOf key entry.value) fun shape s => ?_
  refine R.bind (R.bullet key shape depth) fun _ s => ?_
  exact R.bind (hr.childFields splicing (depth + 1) shape.children) fun _ _ => R.pure _

theorem Renders.spread (splicing : List String) (depth : Nat) (e : Expr) :
    R.Holds (spread r splicing depth e) s := by
  refine R.entry (fun _ => rfl) fun program s => ?_
  split
  · exact hr _ depth none _ s
  · refine R.bind (R.resolve e) fun value s => ?_
    split
    · exact R.valueFields _ depth _
    · exact R.bind (R.warn _) fun _ _ => R.pure _

/-- **One level.** -/
theorem Renders.entryFields (splicing : List String) (depth : Nat) (line : Option Nat)
    (entries : List Entry) : R.Holds (entryFields r splicing depth line entries) s := by
  induction entries generalizing s with
  | nil => exact R.pure _
  | cons entry entries ih =>
    simp only [Document.entryFields]
    split
    next key _ =>
      exact R.bind (hr.field splicing depth line key entry) fun _ _ =>
        R.bind ih fun _ _ => R.pure _
    next =>
      exact R.bind (hr.spread splicing depth entry.value) fun _ _ => R.bind ih fun _ _ => R.pure _
    next => exact ih

end Level

/-- **Every level.** -/
theorem renderEntries (fuel : Nat) : R.Renders (renderEntries fuel) := by
  induction fuel with
  | zero => exact fun _ _ _ _ _ => R.stop _
  | succ fuel ih =>
    exact fun splicing depth line entries _ => ih.entryFields splicing depth line entries

/-! ### Documents -/

theorem schemaBlock (fuel : Nat) (program : Program) (d : SchemaDecl) :
    R.Holds (schemaBlock fuel program d) s :=
  R.bind (R.renderEntries fuel [] 0 none d.entries s) fun _ _ => R.pure _

theorem subSections (fuel : Nat) (program : Program) (ds : List SchemaDecl) :
    R.Holds (subSections fuel program ds) s := by
  induction ds generalizing s with
  | nil => exact R.pure _
  | cons d ds ih =>
    exact R.bind (R.schemaBlock fuel program d) fun _ _ => R.bind ih fun _ _ => R.pure _

theorem schemaSections (fuel : Nat) (program : Program) (s : Session) :
    R.Holds (schemaSections fuel program) s := by
  refine R.config ?_
  split
  · exact R.stop _
  · split
    · exact R.stop _
    · refine R.bind (R.info _) fun _ _ => R.bind (R.schemaBlock fuel program _) fun _ _ => ?_
      exact R.bind (R.subSections fuel program _) fun _ _ => R.pure _

/-- **Every document**, if the rule also holds of the entry file as a whole. -/
theorem renderWithin (hentry : ∀ s, R.Holds entryProgram s) (fuel : Nat) (s : Session) :
    R.Holds (renderWithin fuel) s :=
  R.bind (hentry s) fun program s => R.bind (R.schemaSections fuel program s) fun _ _ => R.pure _

end Rule

end SchemaDoc
