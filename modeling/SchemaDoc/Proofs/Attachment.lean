import SchemaDoc.Proofs.WellFormed
import Mathlib.Data.List.Perm.Basic

/-!
# Every comment is attached at most once

Comments are given to statements and entries by position alone, and every literal looks for its own
ones among all comments of the file. They still cannot meet: each node only takes comments from
gaps, and gaps and what stands between them tile the node. The leading comments of an entry stand
between it and the entry before it, those in its value inside it, and trailing comments behind the
last entry (`Layout.attach_held`). So the comments in an expression all start inside its place and
differ from each other (`Held`), by induction on the tree, and comments of expressions that stand side
by side differ because these do not overlap (`Layout.Follows.held`).

The induction needs that stretches nest and that siblings do not overlap (`Script.File.Nests`). That
is so in almost everything that a grammar this lenient reads, and `Script.parseText_nests_iff` says
where to look for the rest. Of the three arguments of `async(a, x = [b] => c)`, the arrow function
starts where the assignment before it does, and the array is in both; a comment in that array is
attached twice. And a missing operand stands right before the next token, as in `f = () => -   ;`,
behind the end of the arrow function that it is in.
-/

namespace SchemaDoc

open Script (Span Laid)

/-! ### Parts are smaller -/

theorem sizeOf_lt_of_mem_toList {o : Option Expr} {e : Expr} (h : e ∈ o.toList) :
    sizeOf e < sizeOf o := by
  rw [Option.mem_toList] at h
  cases h
  simp only [Option.some.sizeOf_spec]
  omega

theorem Binding.sizeOf_lt {b : Binding} {e : Expr} (h : e ∈ b.defaults) : sizeOf e < sizeOf b := by
  cases b with
  | object ps =>
    obtain ⟨⟨key, name, default⟩, hp, ⟨⟩⟩ := List.mem_filterMap.mp h
    have hmem := List.sizeOf_lt_of_mem hp
    simp only [PatternProp.mk.sizeOf_spec, Option.some.sizeOf_spec] at hmem
    simp only [Binding.object.sizeOf_spec]
    omega
  | ident _ | unsupported => cases h

theorem Param.sizeOf_lt {p : Param} {e : Expr} (h : e ∈ p.parts) : sizeOf e < sizeOf p := by
  obtain ⟨binding, default, rest⟩ := p
  have hparts : e ∈ binding.defaults ∨ e ∈ default.toList := List.mem_append.mp h
  grind [→ Binding.sizeOf_lt, → sizeOf_lt_of_mem_toList]

theorem Declarator.sizeOf_lt {d : Declarator} {e : Expr} (h : e ∈ d.parts) :
    sizeOf e < sizeOf d := by
  obtain ⟨binding, init⟩ := d
  have hparts : e ∈ binding.defaults ∨ e ∈ init.toList := List.mem_append.mp h
  grind [→ Binding.sizeOf_lt, → sizeOf_lt_of_mem_toList]

theorem BodyStatement.sizeOf_lt {s : BodyStatement} {e : Expr} (h : e ∈ s.parts) :
    sizeOf e < sizeOf s := by
  cases s with
  | declare ds =>
    obtain ⟨d, hd, he⟩ := List.mem_flatMap.mp h
    grind [→ Declarator.sizeOf_lt, → List.sizeOf_lt_of_mem]
  | returns value => grind [BodyStatement.parts, → sizeOf_lt_of_mem_toList]
  | other => cases h

theorem FunctionBody.sizeOf_lt {b : FunctionBody} {e : Expr} (h : e ∈ b.parts) :
    sizeOf e < sizeOf b := by
  cases b with
  | expr value => grind [FunctionBody.parts]
  | block ss =>
    obtain ⟨s, hs, he⟩ := List.mem_flatMap.mp h
    grind [→ BodyStatement.sizeOf_lt, → List.sizeOf_lt_of_mem]

theorem FunctionLit.sizeOf_lt {f : FunctionLit} {e : Expr} (h : e ∈ f.parts) :
    sizeOf e < sizeOf f := by
  obtain ⟨name, params, body⟩ := f
  rcases List.mem_append.mp h with h | h
  · obtain ⟨p, hp, he⟩ := List.mem_flatMap.mp h
    grind [FunctionLit.params, → Param.sizeOf_lt, → List.sizeOf_lt_of_mem]
  · grind [FunctionLit.body, → FunctionBody.sizeOf_lt]

/-- **What an expression is made of is smaller than the expression.** -/
theorem Expr.sizeOf_lt_of_mem_parts {e part : Expr} (h : part ∈ e.parts) :
    sizeOf part < sizeOf e := by
  cases e with
  | object loc entries | array loc entries =>
    obtain ⟨⟨kind, value, loc, comments⟩, hentry, rfl⟩ := List.mem_map.mp h
    grind [Entry.value, → List.sizeOf_lt_of_mem]
  | function loc f => grind [Expr.parts, → FunctionLit.sizeOf_lt]
  | _ => grind [Expr.parts, → List.sizeOf_lt_of_mem]

/-! ### All comments of a program -/

/-- The entries of an expression: only object and array literals have any. -/
def Expr.entries : Expr → List Entry
  | .object _ entries => entries
  | .array _ entries => entries
  | _ => []

/-- The lists that the comments of a node are in. -/
def Comments.lists (c : Comments) : List (List Comment) := [c.leading, c.trailing]

/-- The lists of comments in an expression: those of its entries, and those of the expressions that
it is made of. -/
def Expr.commentLists (e : Expr) : List (List Comment) :=
  e.entries.flatMap (·.comments.lists) ++ e.parts.attach.flatMap fun part => part.1.commentLists
termination_by sizeOf e
decreasing_by exact sizeOf_lt_of_mem_parts part.2

theorem Expr.commentLists_eq (e : Expr) : e.commentLists =
    e.entries.flatMap (·.comments.lists) ++ e.parts.flatMap Expr.commentLists := by
  rw [commentLists, List.flatMap_subtype (g := Expr.commentLists) fun _ _ => rfl,
    List.unattach_attach]

/-- The lists of comments of a statement and of all that is in it. -/
def Statement.commentLists (s : Statement) : List (List Comment) :=
  s.comments.lists ++ s.kind.parts.flatMap Expr.commentLists

/-- **The lists of comments of a program**: of its statements, and of the entries of all literals in
it, however deep. -/
def Program.commentLists (p : Program) : List (List Comment) :=
  p.body.flatMap Statement.commentLists

/-! ### Trees whose stretches nest -/

namespace Script

/-- One stretch ends before the other one starts. -/
def Span.Apart (a b : Span) : Prop := a.hi ≤ b.lo ∨ b.hi ≤ a.lo

/-- Expressions that lie inside a stretch and do not overlap. -/
def Nested (outer : Span) (es : List Expr) : Prop :=
  (∀ e ∈ es, outer.lo ≤ e.span.lo ∧ e.span.hi ≤ outer.hi) ∧
    es.Pairwise fun a b => a.span.Apart b.span

/-- What an expression is made of nests inside it, and what its members are made of inside them. -/
def Expr.NestsHere (e : Expr) : Prop :=
  Nested e.span e.parts ∧ ∀ m ∈ e.members, Nested m.span m.parts

/-- Stretches nest everywhere in an expression, and none of them overlaps the one beside it. -/
inductive Expr.Nests : Expr → Prop
  | mk {e : Expr} (here : e.NestsHere) (parts : ∀ p ∈ e.parts, p.Nests) : e.Nests

/-- Stretches nest everywhere in a file. -/
def File.Nests (f : File) : Prop :=
  ∀ i ∈ f.items, Nested i.span i.kind.parts ∧ ∀ e ∈ i.kind.parts, e.Nests

/-! ### Which parsed files nest -/

/-- Expressions that are not looked into up to their end, but end inside a stretch. -/
def Span.Closes (outer : Span) (es : List Expr) : Prop :=
  ∀ e ∈ es, e.isWhole = false → e.span.hi ≤ outer.hi

instance (outer : Span) (es : List Expr) : Decidable (outer.Closes es) :=
  inferInstanceAs (Decidable (∀ e ∈ es, _ → _))

theorem Nested.closes {outer : Span} {es : List Expr} (h : Nested outer es) : outer.Closes es :=
  fun e he _ => (h.1 e he).2

theorem Span.Holds.nested {outer : Span} {es : List Expr} (h : outer.Holds es)
    (hcloses : outer.Closes es) : Nested outer es := by
  refine ⟨fun e he => ⟨h.lo_le e he, ?_⟩, h.ordered.imp .inl⟩
  cases hwhole : e.isWhole with
  | true => exact h.hi_le e he hwhole
  | false => exact hcloses e he hwhole

/-- No expression in a tree sticks out of the one that it is a part of by an end that is not looked
into, and calls of `async` nest. -/
inductive Expr.Contained : Expr → Prop
  | mk {e : Expr} (uncalled : e.isAsyncCall = false) (here : e.span.Closes e.parts)
      (members : ∀ m ∈ e.members, m.span.Closes m.parts) (parts : ∀ p ∈ e.parts, p.Contained) :
      e.Contained
  | async {e : Expr} (called : e.isAsyncCall = true) (nests : e.Nests) : e.Contained

theorem Expr.Nests.contained {e : Expr} (h : e.Nests) : e.Contained := by
  induction h with
  | @mk e here parts ih =>
    cases hcalled : e.isAsyncCall with
    | true => exact .async hcalled ⟨here, parts⟩
    | false => exact .mk hcalled here.1.closes (fun m hm => (here.2 m hm).closes) ih

theorem Expr.Tidy.nests {e : Expr} (h : e.Tidy) : e.Contained → e.Nests := by
  induction h with
  | mk _ holds members _ ih =>
    rintro (⟨-, here, hmembers, parts⟩ | ⟨-, nests⟩)
    · refine ⟨⟨holds.nested here, fun m hm => (members m hm).nested (hmembers m hm)⟩, ?_⟩
      exact fun p hp => ih p hp (parts p hp)
    · exact nests
  | async called _ =>
    rintro (⟨uncalled, -⟩ | ⟨-, nests⟩)
    · exact absurd (called.symm.trans uncalled) nofun
    · exact nests

/-- No expression in a file sticks out of the item or the expression that it is a part of by an end
that is not looked into, and calls of `async` nest. -/
def File.Contained (f : File) : Prop :=
  ∀ i ∈ f.items, i.span.Closes i.kind.parts ∧ ∀ e ∈ i.kind.parts, e.Contained

/-- **A parsed file nests unless something in it sticks out by an end that is not looked into, or a
call of `async` does not nest.** All else is in order, whatever the text is. -/
theorem parseText_nests_iff {language : Language} {text : List Char} {parsed : Parsed}
    (h : parseText language text = .ok parsed) : parsed.file.Nests ↔ parsed.file.Contained := by
  constructor
  · intro hnests i hi
    exact ⟨(hnests i hi).1.closes, fun e he => ((hnests i hi).2 e he).contained⟩
  · intro hcontained i hi
    obtain ⟨hcloses, hparts⟩ := hcontained i hi
    have htidy := (parseText_tidy h).2 i hi
    exact ⟨htidy.holds.nested hcloses, fun e he => (htidy.parts e he).nests (hparts e he)⟩

/-- Looks for expressions that stick out and for calls of `async`, down to a depth. -/
def Expr.containedTo : Nat → Expr → Bool
  | 0, _ => false
  | depth + 1, e => !e.isAsyncCall && decide (e.span.Closes e.parts) &&
    decide (∀ m ∈ e.members, m.span.Closes m.parts) && e.parts.all (containedTo depth)

theorem Expr.contained_of_containedTo {depth : Nat} {e : Expr} (h : e.containedTo depth = true) :
    e.Contained := by
  induction depth generalizing e with
  | zero => cases h
  | succ depth ih =>
    simp only [containedTo, Bool.and_eq_true, Bool.not_eq_true', decide_eq_true_eq,
      List.all_eq_true] at h
    obtain ⟨⟨⟨huncalled, hhere⟩, hmembers⟩, hparts⟩ := h
    exact .mk huncalled hhere hmembers fun p hp => ih (hparts p hp)

/-- Looks for expressions of a file that stick out and for calls of `async`, down to a depth. -/
def File.containedTo (depth : Nat) (f : File) : Bool :=
  f.items.all fun i =>
    decide (i.span.Closes i.kind.parts) && i.kind.parts.all (Expr.containedTo depth)

theorem File.contained_of_containedTo {depth : Nat} {f : File} (h : f.containedTo depth = true) :
    f.Contained := by
  intro i hi
  have hitem := List.all_eq_true.mp h i hi
  rw [Bool.and_eq_true, decide_eq_true_eq, List.all_eq_true] at hitem
  exact ⟨hitem.1, fun e he => Expr.contained_of_containedTo (hitem.2 e he)⟩

end Script

/-! ### Comments in a stretch -/

/-- Comments in the order of the text. -/
def InOrder (cs : List Comment) : Prop := cs.Pairwise fun a b => a.pos < b.pos

/-- Lists of comments that are in order, start between two offsets, and have no comment in common.
-/
structure Held (lo hi : Nat) (lists : List (List Comment)) : Prop where
  sorted : ∀ cs ∈ lists, InOrder cs
  inside : ∀ c ∈ lists.flatten, lo ≤ c.pos ∧ c.pos < hi
  once : lists.flatten.Pairwise fun a b => a.pos ≠ b.pos

namespace Held

variable {lo lo' mid hi hi' : Nat} {xs ys : List (List Comment)}

theorem nil : Held lo hi [] := ⟨nofun, nofun, .nil⟩

theorem empty : Held lo hi [[]] := ⟨List.forall_mem_singleton.mpr .nil, nofun, .nil⟩

theorem mono (h : Held lo hi xs) (hlo : lo' ≤ lo) (hhi : hi ≤ hi') : Held lo' hi' xs where
  sorted := h.sorted
  inside c hc :=
    have hinside := h.inside c hc
    ⟨Nat.le_trans hlo hinside.1, Nat.lt_of_lt_of_le hinside.2 hhi⟩
  once := h.once

/-- Lists that have no comment in common. -/
theorem append (hx : Held lo hi xs) (hy : Held lo hi ys)
    (hapart : ∀ a ∈ xs.flatten, ∀ b ∈ ys.flatten, a.pos ≠ b.pos) : Held lo hi (xs ++ ys) where
  sorted := List.forall_mem_append.mpr ⟨hx.sorted, hy.sorted⟩
  inside := by
    rw [List.flatten_append]
    exact List.forall_mem_append.mpr ⟨hx.inside, hy.inside⟩
  once := by
    rw [List.flatten_append, List.pairwise_append]
    exact ⟨hx.once, hy.once, hapart⟩

/-- Lists from one stretch and from the stretch behind it. -/
theorem behind (hx : Held lo mid xs) (hy : Held mid hi ys) (hlo : lo ≤ mid) (hhi : mid ≤ hi) :
    Held lo hi (xs ++ ys) := by
  refine (hx.mono (Nat.le_refl _) hhi).append (hy.mono hlo (Nat.le_refl _)) fun a ha b hb => ?_
  have hab := (hx.inside a ha).2
  have hb' := (hy.inside b hb).1
  omega

/-- The order of the lists does not matter. -/
theorem perm (h : Held lo hi xs) (hperm : xs.Perm ys) : Held lo hi ys where
  sorted cs hcs := h.sorted cs (hperm.mem_iff.mpr hcs)
  inside c hc := h.inside c (hperm.flatten.mem_iff.mpr hc)
  once := (hperm.flatten.pairwise_iff fun hab => Ne.symm hab).mp h.once

/-- The comments between two offsets. -/
theorem between {l : Layout} (hl : InOrder l.comments) : Held lo hi [l.between lo hi] where
  sorted := List.forall_mem_singleton.mpr (hl.filter _)
  inside c hc := by
    rw [List.flatten_singleton] at hc
    have hrange := (List.mem_filter.mp hc).2
    rwa [Bool.and_eq_true, decide_eq_true_eq, decide_eq_true_eq] at hrange
  once := by
    rw [List.flatten_singleton]
    exact (hl.filter _).imp fun hab => Nat.ne_of_lt hab

/-- Some of the comments of a list. -/
theorem filter {cs : List Comment} (h : Held lo hi [cs]) (p : Comment → Bool) :
    Held lo hi [cs.filter p] where
  sorted := List.forall_mem_singleton.mpr ((h.sorted cs (.head _)).filter p)
  inside c hc := by
    rw [List.flatten_singleton] at hc
    exact h.inside c (by simpa using List.mem_of_mem_filter hc)
  once := by
    have honce := h.once
    rw [List.flatten_singleton] at honce ⊢
    exact honce.filter p

end Held

namespace Layout

/-! ### Comments in order -/

theorem mem_insertComment {c d : Comment} {cs : List Comment} (h : d ∈ insertComment c cs) :
    d = c ∨ d ∈ cs := by
  fun_induction insertComment c cs <;> grind

theorem insertComment_inOrder {c : Comment} {cs : List Comment} (h : InOrder cs) :
    InOrder (insertComment c cs) := by
  induction cs with
  | nil => exact List.pairwise_singleton _ _
  | cons d ds ih =>
    obtain ⟨hd, hds⟩ := List.pairwise_cons.mp h
    rw [insertComment]
    split
    · next hlt => 
      refine List.pairwise_cons.mpr ⟨List.forall_mem_cons.mpr ⟨hlt, fun b hb => ?_⟩, h⟩
      exact Nat.lt_trans hlt (hd b hb)
    · next hnot =>
      split
      · next heq =>
        refine List.pairwise_cons.mpr ⟨fun b hb => ?_, hds⟩
        rw [heq]
        exact hd b hb
      · next hne =>
        refine List.pairwise_cons.mpr ⟨fun b hb => ?_, ih hds⟩
        rcases mem_insertComment hb with rfl | hb
        · omega
        · exact hd b hb

/-- The comments of a layout are in the order of the text. -/
theorem of_inOrder (text : List Char) (raw : List Script.RawComment) :
    InOrder (Layout.of text raw).comments := by
  simp only [Layout.of, inOrder]
  induction raw with
  | nil => exact .nil
  | cons c raw ih => exact insertComment_inOrder ih

/-! ### Literals -/

variable {l : Layout} (hl : InOrder l.comments)

include hl

/-- The lists of comments of an entry and of its value. -/
def entryLists (e : Entry) : List (List Comment) := e.comments.lists ++ e.value.commentLists

omit hl in
/-- The leading comments of an entry stand before it, those in its value inside it, and the trailing
ones behind it. -/
theorem entryLists_held {e : Entry} {lo hi : Nat} {comments : Comments}
    (hleading : Held lo e.loc.lo [comments.leading])
    (hvalue : Held e.loc.lo e.loc.hi e.value.commentLists)
    (htrailing : Held e.loc.hi hi [comments.trailing]) (hlo : lo ≤ e.loc.lo)
    (hspan : e.loc.lo ≤ e.loc.hi) (hhi : e.loc.hi ≤ hi) :
    Held lo hi (entryLists (e.withComments comments)) := by
  have hwhole : Held lo hi ([comments.leading] ++ (e.value.commentLists ++ [comments.trailing])) :=
    hleading.behind (hvalue.behind htrailing hspan hhi) hlo (Nat.le_trans hspan hhi)
  have hperm : (e.value.commentLists ++ [comments.trailing]).Perm
      ([comments.trailing] ++ e.value.commentLists) := List.perm_append_comm
  exact hwhole.perm (hperm.cons comments.leading)

/-- **The comments of a literal tile it.** Gaps between entries go to the entry behind them, and what
is behind the last entry to that one. -/
theorem attach_held {lo hi : Nat} {entries : List Entry}
    (hnone : ∀ e ∈ entries, e.comments = .none)
    (hordered : entries.Pairwise fun a b => a.loc.hi ≤ b.loc.lo)
    (hinside : ∀ e ∈ entries, lo ≤ e.loc.lo ∧ e.loc.hi ≤ hi)
    (hvalues : ∀ e ∈ entries, e.loc.lo ≤ e.loc.hi ∧ Held e.loc.lo e.loc.hi e.value.commentLists) :
    Held lo hi ((l.attachTrailing hi (l.attachLeading lo entries)).flatMap entryLists) := by
  induction entries generalizing lo with
  | nil => exact .nil
  | cons e entries ih =>
    obtain ⟨hcomments, hnones⟩ := List.forall_mem_cons.mp hnone
    obtain ⟨hbefore, hordered⟩ := List.pairwise_cons.mp hordered
    obtain ⟨⟨hlo, hhi⟩, hinsides⟩ := List.forall_mem_cons.mp hinside
    obtain ⟨⟨hspan, hvalue⟩, hvalues⟩ := List.forall_mem_cons.mp hvalues
    have hleading : Held lo e.loc.lo [l.between lo e.loc.lo] := .between hl
    cases entries with
    | nil =>
      have htrailing : Held e.loc.hi hi [l.between e.loc.hi hi] := .between hl
      have hattached : l.attachTrailing hi (l.attachLeading lo [e]) =
        [e.withComments ⟨l.between lo e.loc.lo,
          (l.between e.loc.hi hi).filter (·.line == e.loc.endLine)⟩] := rfl
      rw [hattached, List.flatMap_singleton]
      exact entryLists_held hleading hvalue (htrailing.filter _) hlo hspan hhi
    | cons next entries =>
      have hattached : l.attachTrailing hi (l.attachLeading lo (e :: next :: entries)) =
        e.withComments ⟨l.between lo e.loc.lo, e.comments.trailing⟩ ::
          l.attachTrailing hi (l.attachLeading e.loc.hi (next :: entries)) := rfl
      have htrailing : Held e.loc.hi e.loc.hi [e.comments.trailing] := by
        rw [hcomments]
        exact .empty
      have hrest : Held e.loc.hi hi _ :=
        ih hnones hordered (fun e' he' => ⟨hbefore e' he', (hinsides e' he').2⟩) hvalues
      rw [hattached, List.flatMap_cons]
      refine Held.behind ?_ hrest (Nat.le_trans hlo hspan) hhi
      exact entryLists_held hleading hvalue htrailing hlo hspan (Nat.le_refl _)

/-- What is in the entries of a literal stays inside it. -/
theorem literal_held {outer : Span} {entries : List Entry}
    (hnone : ∀ e ∈ entries, e.comments = .none) (hfit : EntriesFit (l.loc outer) entries)
    (hvalues : ∀ e ∈ entries, Held e.loc.lo e.loc.hi e.value.commentLists) :
    Held outer.lo outer.hi
      ((l.attach (l.loc outer) entries).flatMap (·.comments.lists) ++
        ((l.attach (l.loc outer) entries).map Entry.value).flatMap Expr.commentLists) := by
  have htiled : Held outer.lo outer.hi ((l.attach (l.loc outer) entries).flatMap entryLists) :=
    attach_held hl hnone hfit.ordered
      (fun e he => ⟨(hfit.inside e he).lo_le, (hfit.inside e he).hi_le⟩)
      fun e he => ⟨(hfit.valid e he).lo_le, hvalues e he⟩
  rw [List.flatMap_map]
  exact htiled.perm (List.flatMap_append_perm _ _ _).symm

omit hl in
theorem unmodelled_commentLists (loc : Loc) (label : String) :
    (Expr.unmodelled loc label).commentLists = [] := by
  rw [Expr.commentLists_eq]
  rfl

omit hl in
theorem Follows.exists_of_mem_comments {ps : List Script.Expr} {es : List Expr} {c : Comment}
    (h : l.Follows ps es) (hc : c ∈ (es.flatMap Expr.commentLists).flatten) :
    ∃ p ∈ ps, c ∈ (l.expr p).commentLists.flatten := by
  obtain ⟨cs, hcs, hc⟩ := List.mem_flatten.mp hc
  obtain ⟨e, he, hcs⟩ := List.mem_flatMap.mp hcs
  rcases h.mem he with ⟨p, hp, rfl⟩ | ⟨loc, label, -, rfl⟩
  · exact ⟨p, hp, List.mem_flatten.mpr ⟨cs, hcs, hc⟩⟩
  · rw [unmodelled_commentLists] at hcs
    cases hcs

omit hl in
/-- What follows a tree has the comments of the tree. -/
theorem Follows.held {ps : List Script.Expr} {es : List Expr} {outer : Span} (h : l.Follows ps es)
    (hnested : Script.Nested outer ps)
    (hparts : ∀ p ∈ ps, Held p.span.lo p.span.hi (l.expr p).commentLists) :
    Held outer.lo outer.hi (es.flatMap Expr.commentLists) := by
  induction h with
  | nil => exact .nil
  | @keep p ps es h ih =>
    obtain ⟨hp, hps⟩ := List.forall_mem_cons.mp hparts
    obtain ⟨hinside, hinsides⟩ := List.forall_mem_cons.mp hnested.1
    obtain ⟨hapart, haparts⟩ := List.pairwise_cons.mp hnested.2
    rw [List.flatMap_cons]
    refine (hp.mono hinside.1 hinside.2).append (ih ⟨hinsides, haparts⟩ hps) fun a ha b hb => ?_
    obtain ⟨q, hq, hb⟩ := h.exists_of_mem_comments hb
    have hpa := hp.inside a ha
    have hqb := (hps q hq).inside b hb
    rcases hapart q hq with hpq | hqp <;> omega
  | drop _ ih =>
    exact ih ⟨fun q hq => hnested.1 q (.tail _ hq), hnested.2.tail⟩ fun q hq => hparts q (.tail _ hq)
  | leave _ _ ih =>
    rw [List.flatMap_cons, unmodelled_commentLists]
    exact ih ⟨fun q hq => hnested.1 q (.tail _ hq), hnested.2.tail⟩ fun q hq => hparts q (.tail _ hq)

/-! ### Expressions -/

omit hl in
/-- An expression without entries has the comments of its parts. -/
theorem direct_held {e : Script.Expr} {loc : Loc} (he : e.Sound) (hdirect : isDirect e = true)
    (hnested : Script.Nested e.span e.parts)
    (hparts : ∀ p ∈ e.parts, Held p.span.lo p.span.hi (l.expr p).commentLists) :
    Held e.span.lo e.span.hi (l.exprAt loc e).commentLists := by
  have hentries : (l.exprAt loc e).entries = [] := by
    cases e with
    | object _ _ | array _ _ | wrapped _ _ _ _ => cases hdirect
    | member _ _ _ | assign _ _ _ =>
      simp only [exprAt]
      split <;> rfl
    | _ => rfl
  rw [Expr.commentLists_eq, hentries]
  exact (l.exprAt_follows he hdirect).held hnested hparts

omit hl in
/-- The comments in a member of an object literal. -/
theorem entry_value_held {m : Script.Member} (hfits : m.Fits)
    (hnested : Script.Nested m.span m.parts)
    (hparts : ∀ p ∈ m.parts, Held p.span.lo p.span.hi (l.expr p).commentLists) :
    Held m.span.lo m.span.hi (l.entry m).value.commentLists := by
  cases m with
  | keyed span key value | spread span value =>
    exact (hparts value (.head _)).mono hfits.2.1 hfits.2.2
  | shorthand _ _ | defaulted _ _ _ | accessor _ _ _ _ =>
    rw [Expr.commentLists_eq]
    exact .nil
  | method span key ps b types =>
    rw [Expr.commentLists_eq]
    exact (l.function_follows _ ps b).held hnested hparts

/-- **The comments in an expression are in its place, and each of them is there once.** -/
theorem exprAt_held {e : Script.Expr} (he : e.Sound) : e.Nests → ∀ span : Span,
    span.lo ≤ e.span.lo → e.span.hi ≤ span.hi →
      Held span.lo span.hi (l.exprAt (l.loc span) e).commentLists := by
  induction he with
  | @mk e fits parts ih =>
    rintro ⟨hhere, hnests⟩ span hlo hhi
    have hown : ∀ p ∈ e.parts, Held p.span.lo p.span.hi (l.expr p).commentLists := fun p hp =>
      ih p hp (hnests p hp) p.span (Nat.le_refl _) (Nat.le_refl _)
    cases hdirect : isDirect e with
    | true => exact (direct_held ⟨fits, parts⟩ hdirect hhere.1 hown).mono hlo hhi
    | false =>
      cases e with
      | object inner ms =>
        rw [Expr.commentLists_eq, exprAt, members_eq]
        refine literal_held hl ?_ (members_fit fits ⟨hlo, hhi⟩) ?_
        · exact List.forall_mem_map.mpr fun m _ => l.comments_entry m
        · refine List.forall_mem_map.mpr fun m hm => ?_
          rw [loc_entry]
          refine entry_value_held (fits.2.2 m hm) (hhere.2 m hm) fun p hp => ?_
          exact hown p (List.mem_flatMap.mpr ⟨m, hm, hp⟩)
      | array inner as =>
        rw [Expr.commentLists_eq, exprAt, elements_eq]
        have hsound : ∀ a ∈ as, a.value.Sound := fun a ha => parts _ (List.mem_map_of_mem ha)
        refine literal_held hl ?_ (elements_fit fits ⟨hlo, hhi⟩ hsound) ?_
        · exact List.forall_mem_map.mpr fun a _ => rfl
        · refine List.forall_mem_map.mpr fun a ha => ?_
          exact (hown a.value (List.mem_map_of_mem ha)).mono (fits.2.2 a ha) (Nat.le_refl _)
      | wrapped outer form inner types =>
        obtain ⟨hinside, -⟩ := List.forall_mem_cons.mp hhere.1.1
        refine ih inner (.head _) (hnests _ (.head _)) span ?_ ?_
        · exact Nat.le_trans hlo hinside.1
        · exact Nat.le_trans hinside.2 hhi
      | _ => cases hdirect

/-! ### Statements -/

/-- The comments of statements are between them or inside them. -/
theorem statements_held {items : List Script.Item} {lo hi : Nat}
    (hlaid : Laid Script.Item.span lo hi items)
    (hitems : ∀ i ∈ items, Script.AllSound i.kind.parts ∧ i.span.lo ≤ i.span.hi)
    (hnests : Script.File.Nests ⟨items⟩) :
    Held lo hi ((l.statements lo items).flatMap Statement.commentLists) := by
  induction items generalizing lo with
  | nil => exact .nil
  | cons i items ih =>
    obtain ⟨⟨hsound, hspan⟩, hitems⟩ := List.forall_mem_cons.mp hitems
    obtain ⟨⟨hnested, hparts⟩, hnests⟩ := List.forall_mem_cons.mp hnests
    obtain ⟨hbefore, hordered⟩ := List.pairwise_cons.mp hlaid.ordered
    obtain ⟨⟨hlo, hhi⟩, hinside⟩ := List.forall_mem_cons.mp hlaid.inside
    have hleading : Held lo i.span.lo [l.between lo i.span.lo] := .between hl
    have htrailing : Held i.span.lo i.span.lo [[]] := .empty
    have hcomments : Held lo i.span.lo ([l.between lo i.span.lo] ++ [[]]) :=
      hleading.behind htrailing hlo (Nat.le_refl _)
    have hkind : Held i.span.lo i.span.hi
        ((l.statementKind i.kind).parts.flatMap Expr.commentLists) := by
      refine (l.statementKind_follows i.kind).held hnested fun p hp => ?_
      exact exprAt_held hl (hsound p hp) (hparts p hp) p.span (Nat.le_refl _) (Nat.le_refl _)
    have hrest : Held i.span.hi hi ((l.statements i.span.hi items).flatMap Statement.commentLists) :=
      ih ⟨hordered, fun j hj => ⟨hbefore j hj, (hinside j hj).2⟩⟩ hitems hnests
    exact (hcomments.behind hkind hlo hspan).behind hrest (Nat.le_trans hlo hspan) hhi

end Layout

/-- **Every comment is attached at most once**, if the stretches of the tree nest: no two comments in
the lists of a program start at the same place, and each list is in the order of the text. -/
theorem ParsedSource.comments_attached_once {source : String} {path : Path} {parsed : ParsedSource}
    (h : ParsedSource.ofText source path = .ok parsed)
    (hnests : ∀ tree, Script.parseText (languageOf path) (Text.dropByteOrderMark source.toList) =
      .ok tree → tree.file.Nests) :
    (parsed.program.commentLists.flatten.map Comment.pos).Nodup ∧
      ∀ cs ∈ parsed.program.commentLists, InOrder cs := by
  simp only [ofText] at h
  split at h
  · next tree htree =>
    cases h
    obtain ⟨⟨hi, hlaid⟩, hitems⟩ := Script.parseText_sound htree
    have hheld := Layout.statements_held
      (Layout.of_inOrder (Text.dropByteOrderMark source.toList) tree.comments) hlaid hitems
      (hnests tree htree)
    exact ⟨List.pairwise_map.mpr hheld.once, hheld.sorted⟩
  · cases h
  · cases h

/-- Comments before a statement, before entries, behind the last entry, and in a literal inside. -/
theorem ParsedSource.comments_of_nested_literals_attached_once :
    let source := "// 0\nlet a = \x7b // 1\n  b: [c /* 2 */], /* 3 */ d() \x7b\x7d // 4\n\x7d;\n"
    ∃ parsed, ParsedSource.ofText source "a.js" = .ok parsed ∧
      parsed.program.commentLists.flatten.map Comment.text = [" 0", " 1", " 3 ", " 4", " 2 "] ∧
      (parsed.program.commentLists.flatten.map Comment.pos).Nodup ∧
      ∀ cs ∈ parsed.program.commentLists, InOrder cs := by
  intro source
  have htree : ((Script.parseText (languageOf "a.js")
      (Text.dropByteOrderMark source.toList)).toOption.any fun tree => tree.file.containedTo 4) =
        true := by decide +kernel
  have hfacts : ((ParsedSource.ofText source "a.js").toOption.any fun parsed =>
      decide (parsed.program.commentLists.flatten.map Comment.text =
        [" 0", " 1", " 3 ", " 4", " 2 "])) = true := by decide +kernel
  cases hparsed : ParsedSource.ofText source "a.js" with
  | error failure =>
    rw [hparsed] at hfacts
    exact absurd hfacts Bool.false_ne_true
  | ok parsed =>
    rw [hparsed] at hfacts
    refine ⟨parsed, rfl, of_decide_eq_true hfacts, comments_attached_once hparsed fun tree h => ?_⟩
    rw [h] at htree
    exact (Script.parseText_nests_iff h).mpr (Script.File.contained_of_containedTo htree)

end SchemaDoc
