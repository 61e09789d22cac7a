import SchemaDoc.Program.OfTree
import SchemaDoc.Proofs.Occurrence
import SchemaDoc.Proofs.Reattachment
import SchemaDoc.Proofs.Spans

/-!
# What a tree becomes

The expressions that the program of a tree is made of follow those of the tree: they come in the same
order, and each of them is an expression of the tree where it stands (`Layout.Follows`). Some are left
out, such as what is computed in the middle of a body, and a spread argument leaves only its place.
`Layout.exprAt_follows` says so for one level of an expression; the members of an object literal are
looked at one by one where they are needed, because a member may become a function of its own.

Attaching comments to entries changes nothing else about them (`Layout.attach_bare`).
-/

namespace SchemaDoc

open Script (Span)

/-! ### Places -/

/-- A place that does not end before it starts. -/
structure Loc.Valid (loc : Loc) : Prop where
  lo_le : loc.lo ≤ loc.hi
  line_le : loc.startLine ≤ loc.endLine

/-- A later byte is on a later line or on the same one. -/
theorem Text.lineAt_mono {starts : List Nat} {a b : Nat} (h : a ≤ b) :
    Text.lineAt starts a ≤ Text.lineAt starts b := by
  refine Nat.add_le_add_left (List.countP_mono_left fun start _ hstart => ?_) 1
  simp only [decide_eq_true_eq] at hstart ⊢
  exact Nat.le_trans hstart h

/-- A stretch that does not end before it starts is a valid place. -/
theorem Layout.loc_valid (l : Layout) {s : Span} (h : s.lo ≤ s.hi) : (l.loc s).Valid where
  lo_le := h
  line_le := Text.lineAt_mono (Nat.le_max_right _ _)

/-! ### Expressions in the order of a tree -/

/-- Expressions of a program that follow expressions of a tree. -/
inductive Layout.Follows (l : Layout) : List Script.Expr → List Expr → Prop
  | nil : l.Follows [] []
  /-- An expression is there, where it stands in the tree. -/
  | keep {p : Script.Expr} {ps : List Script.Expr} {es : List Expr} (h : l.Follows ps es) :
    l.Follows (p :: ps) (l.expr p :: es)
  /-- An expression is left out. -/
  | drop {p : Script.Expr} {ps : List Script.Expr} {es : List Expr} (h : l.Follows ps es) :
    l.Follows (p :: ps) es
  /-- An expression leaves its place. -/
  | leave {p : Script.Expr} {ps : List Script.Expr} {es : List Expr} {loc : Loc} {label : String}
    (hloc : loc.Valid) (h : l.Follows ps es) : l.Follows (p :: ps) (.unmodelled loc label :: es)

namespace Layout.Follows

variable {l : Layout} {ps qs : List Script.Expr} {es fs : List Expr}

/-- All expressions may be left out. -/
theorem none : (ps : List Script.Expr) → l.Follows ps []
  | [] => .nil
  | _ :: ps => .drop (none ps)

theorem append (h : l.Follows ps es) (h' : l.Follows qs fs) : l.Follows (ps ++ qs) (es ++ fs) := by
  induction h with
  | nil => exact h'
  | keep _ ih => exact .keep ih
  | drop _ ih => exact .drop ih
  | leave hloc _ ih => exact .leave hloc ih

theorem one (p : Script.Expr) : l.Follows [p] [l.expr p] := .keep .nil

/-- What follows a tree is in it, or it is not modelled. -/
theorem mem {e : Expr} (h : l.Follows ps es) (he : e ∈ es) :
    (∃ p ∈ ps, e = l.expr p) ∨ ∃ loc label, loc.Valid ∧ e = .unmodelled loc label := by
  induction h with
  | nil => cases he
  | @keep p _ _ _ ih =>
    rcases List.mem_cons.mp he with rfl | he
    · exact .inl ⟨p, .head _, rfl⟩
    · exact (ih he).imp_left fun ⟨q, hq, h⟩ => ⟨q, .tail _ hq, h⟩
  | drop _ ih => exact (ih he).imp_left fun ⟨q, hq, h⟩ => ⟨q, .tail _ hq, h⟩
  | @leave _ _ _ loc label hloc _ ih =>
    rcases List.mem_cons.mp he with rfl | he
    · exact .inr ⟨loc, label, hloc, rfl⟩
    · exact (ih he).imp_left fun ⟨q, hq, h⟩ => ⟨q, .tail _ hq, h⟩

end Layout.Follows

namespace Layout

variable (l : Layout)

theorem exprs_follows : (es : List Script.Expr) → l.Follows es (l.exprs es)
  | [] => .nil
  | _ :: es => .keep (exprs_follows es)

theorem arguments_follows {args : List Script.Element} (h : ∀ a ∈ args, a.span.lo ≤ a.span.hi) :
    l.Follows (args.map Script.Element.value) (l.arguments args) := by
  induction args with
  | nil => exact .nil
  | cons a args ih =>
    obtain ⟨ha, hargs⟩ := List.forall_mem_cons.mp h
    cases a with
    | plain e => exact .keep (ih hargs)
    | spread lo e => exact .leave (l.loc_valid ha) (ih hargs)

theorem option_follows (o : Option Script.Expr) : l.Follows o.toList (l.expr? o).toList := by
  cases o with
  | none => exact .nil
  | some e => exact .one e

theorem properties_follows (ps : List Script.PatternProperty) :
    l.Follows (ps.flatMap Script.PatternProperty.parts)
      ((l.properties ps).filterMap PatternProp.default) := by
  induction ps with
  | nil => exact .nil
  | cons p ps ih =>
    cases p with
    | bind key name default =>
      rw [List.flatMap_cons]
      cases default with
      | none => exact ih
      | some e => exact .keep ih
    | other refs => exact ih

theorem binding_follows (p : Script.Pattern) : l.Follows p.parts (l.binding p).defaults := by
  cases p with
  | object ps => exact l.properties_follows ps
  | ident name => exact .nil
  | other refs => exact .nil

theorem params_follows (ps : List Script.Param) :
    l.Follows (ps.flatMap Script.Param.parts) ((l.params ps).flatMap Param.parts) := by
  induction ps with
  | nil => exact .nil
  | cons p ps ih =>
    obtain ⟨pattern, types, default, rest⟩ := p
    exact ((l.binding_follows pattern).append (l.option_follows default)).append ih

theorem declarators_follows (ds : List Script.Declarator) :
    l.Follows (ds.flatMap Script.Declarator.parts) ((l.declarators ds).flatMap Declarator.parts) := by
  induction ds with
  | nil => exact .nil
  | cons d ds ih =>
    obtain ⟨pattern, types, init⟩ := d
    exact ((l.binding_follows pattern).append (l.option_follows init)).append ih

theorem bodyStatements_follows (ss : List Script.Statement) :
    l.Follows (ss.flatMap Script.Statement.parts)
      ((l.bodyStatements ss).flatMap BodyStatement.parts) := by
  induction ss with
  | nil => exact .nil
  | cons s ss ih =>
    cases s with
    | declare ds => exact (l.declarators_follows ds).append ih
    | expression e => exact .drop ih
    | returns e => exact (l.option_follows e).append ih
    | other refs => exact ih

theorem body_follows (b : Script.Body) : l.Follows b.parts (l.body b).parts := by
  cases b with
  | expr e => exact .one e
  | block ss => exact l.bodyStatements_follows ss

/-- The function that parameters and a body become. -/
theorem function_follows (name : Option String) (ps : List Script.Param) (b : Script.Body) :
    l.Follows (ps.flatMap Script.Param.parts ++ b.parts)
      (FunctionLit.mk name (l.params ps) (l.body b)).parts :=
  (l.params_follows ps).append (l.body_follows b)

/-- Whether an expression has no entries and is no wrapper, which leaves no trace. -/
def isDirect : Script.Expr → Bool
  | .object _ _ | .array _ _ | .wrapped _ _ _ _ => false
  | _ => true

/-- **What an expression is made of follows what it is made of in the tree.** -/
theorem exprAt_follows {e : Script.Expr} {loc : Loc} (he : e.Sound) (hdirect : isDirect e = true) :
    l.Follows e.parts (l.exprAt loc e).parts := by
  cases e with
  | object _ _ | array _ _ | wrapped _ _ _ _ => cases hdirect
  | string _ _ | literal _ _ | regex _ _ _ | ident _ _ | other _ _ _ => exact .nil
  | template _ _ es => exact l.exprs_follows es
  | call _ _ callee args _ =>
    refine .keep (l.arguments_follows fun a ha => Script.Element.span_le (he.fits.2 a ha) ?_)
    exact he.parts _ (.tail _ (List.mem_map_of_mem ha))
  | member _ owner property =>
    simp only [exprAt]
    split
    · exact .one owner
    · exact .none _
  | function _ name ps b _ => exact l.function_follows name ps b
  | arrow _ ps b _ => exact l.function_follows none ps b
  | assign _ target value =>
    simp only [exprAt]
    split
    · exact .keep (.one value)
    · exact .none _
  | destructure _ _ _ => exact .none _
  | unary _ _ arg => exact .one arg
  | binary _ _ left right => exact .keep (.one right)
  | conditional _ test yes no => exact .keep (.keep (.one no))

/-! ### Entries -/

/-- The entry that an element of an array becomes. -/
def elementEntry (a : Script.Element) : Entry :=
  .mk (match a with | .plain _ => .element | .spread _ _ => .spread) (l.expr a.value) (l.loc a.span)
    .none

theorem elements_eq (as : List Script.Element) : l.elements as = as.map l.elementEntry := by
  induction as with
  | nil => rfl
  | cons a as ih =>
    cases a with
    | plain e => exact congrArg (l.elementEntry (.plain e) :: ·) ih
    | spread lo e => exact congrArg (l.elementEntry (.spread lo e) :: ·) ih

theorem members_eq (ms : List Script.Member) : l.members ms = ms.map l.entry := by
  induction ms with
  | nil => rfl
  | cons m ms ih => exact congrArg (l.entry m :: ·) ih

@[simp] theorem loc_entry (m : Script.Member) : (l.entry m).loc = l.loc m.span := by
  cases m <;> rfl

@[simp] theorem comments_entry (m : Script.Member) : (l.entry m).comments = .none := by
  cases m <;> rfl

theorem attachLeading_bare (lo : Nat) (entries : List Entry) :
    (l.attachLeading lo entries).map Entry.bare = entries.map Entry.bare := by
  induction entries generalizing lo with
  | nil => rfl
  | cons e entries ih => exact congrArg (e.bare :: ·) (ih e.loc.hi)

theorem attachTrailing_bare (hi : Nat) (entries : List Entry) :
    (l.attachTrailing hi entries).map Entry.bare = entries.map Entry.bare := by
  induction entries with
  | nil => rfl
  | cons e entries ih =>
    cases entries with
    | nil => rfl
    | cons e' entries => exact congrArg (e.bare :: ·) ih

/-- **Attaching comments leaves everything else as it is.** -/
theorem attach_bare (loc : Loc) (entries : List Entry) :
    (l.attach loc entries).map Entry.bare = entries.map Entry.bare := by
  rw [attach, attachTrailing_bare, attachLeading_bare]

/-- What holds of entries without their comments still holds of them after comments are attached. -/
theorem forall_mem_attach {P : Entry → Prop} {loc : Loc} {entries : List Entry}
    (h : ∀ e ∈ entries, P e.bare) : ∀ e ∈ l.attach loc entries, P e.bare := by
  rw [← List.forall_mem_map, attach_bare, List.forall_mem_map]
  exact h

/-- An expression stands where it is put. -/
@[simp] theorem loc_exprAt (loc : Loc) (e : Script.Expr) : (l.exprAt loc e).loc = loc := by
  induction e using Script.Expr.unwrapped.induct with
  | case1 span form inner types ih => exact ih
  | case2 e hwrapped =>
    cases e with
    | wrapped span form inner types => exact absurd rfl (hwrapped span form inner types)
    | member _ _ _ | assign _ _ _ =>
      simp only [exprAt]
      split <;> rfl
    | _ => rfl

/-! ### Statements -/

theorem statementKind_follows (k : Script.ItemKind) :
    l.Follows k.parts (l.statementKind k).parts := by
  cases k with
  | statement s =>
    cases s with
    | declare ds => exact l.declarators_follows ds
    | expression e => exact .one e
    | returns e => exact .none _
    | other refs => exact .nil
  | exported ds => exact l.declarators_follows ds
  | exportDefault e => exact .one e
  | imports _ _ | exportNames _ | other _ => exact .nil

theorem loc_statements (lo : Nat) (items : List Script.Item) :
    (l.statements lo items).map Statement.loc = items.map fun i => l.loc i.span := by
  induction items generalizing lo with
  | nil => rfl
  | cons i items ih => exact congrArg (l.loc i.span :: ·) (ih i.span.hi)

theorem kind_statements (lo : Nat) (items : List Script.Item) :
    (l.statements lo items).map Statement.kind = items.map fun i => l.statementKind i.kind := by
  induction items generalizing lo with
  | nil => rfl
  | cons i items ih => exact congrArg (l.statementKind i.kind :: ·) (ih i.span.hi)

end Layout

end SchemaDoc
