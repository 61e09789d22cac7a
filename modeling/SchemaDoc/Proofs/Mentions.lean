import Mathlib.Logic.Relation
import SchemaDoc.Proofs.Occurrence
import SchemaDoc.Proofs.Termination

/-!
# Mentions

Which names of a program its names lead to. A name is taken from a declared variable, and it mentions
the names that stand in there as expressions, however deep: in the body of a function, or in what a
property of a pattern is if it is missing (`Program.Mentions`). Whether evaluation ever comes to such
a place does not matter.

Mentions have no cycle if names can be ranked so that they only mention names of a lower rank
(`Program.acyclic_of_rank`), and that can be computed for a program that nests no deeper than some
bound (`Program.rankedTo`).
-/

namespace SchemaDoc

open Evaluate (origin? originIn? Origin)

/-- A declared variable has an expression: it is one of its own, or stands in one that it has. -/
inductive Declarator.Has (d : Declarator) : Expr → Prop
  | top {e : Expr} (he : e ∈ d.parts) : d.Has e
  | inside {e part : Expr} (he : d.Has e) (hpart : part ∈ e.parts) : d.Has part

namespace Program

variable {p : Program} {name : String} {d : Declarator}

/-- **A name mentions another one**: the other one stands in the declared variable that the program
takes the name from. -/
def Mentions (p : Program) (name other : String) : Prop :=
  ∃ d loc, origin? p name = some (.declarator d) ∧ d.Has (.ident loc other)

/-- No name leads back to itself. -/
def Acyclic (p : Program) : Prop := ∀ name, ¬Relation.TransGen p.Mentions name name

/-- **A program on its own**: it imports nothing, and calls `require` nowhere. -/
structure SelfContained (p : Program) : Prop where
  imports : ∀ s ∈ p.body, ∀ source bindings, s.kind ≠ .imports source bindings
  requires : ∀ loc callee args, p.Has (.call loc false callee args) → callee.ident? ≠ some "require"

/-! ### Where names come from -/

theorem exists_of_origin? (h : origin? p name = some (.declarator d)) :
    ∃ s ∈ p.body, ∃ exported ds, s.kind = .declare exported ds ∧ d ∈ ds ∧
      d.binding.binds name = true := by
  obtain ⟨s, hs, hin⟩ := List.exists_of_findSome?_eq_some h
  unfold originIn? at hin
  split at hin
  next exported ds hkind =>
    obtain ⟨d', hfound, heq⟩ := Option.map_eq_some_iff.mp hin
    cases heq
    have hbinds := List.find?_some (p := fun d : Declarator => d.binding.binds name) hfound
    exact ⟨s, hs, exported, ds, hkind, List.mem_of_find?_eq_some hfound, hbinds⟩
  next =>
    obtain ⟨binding, -, heq⟩ := Option.map_eq_some_iff.mp hin
    cases heq
  next => cases hin

/-- All names of a program on its own are declared in it. -/
theorem SelfContained.exists_declarator (h : p.SelfContained) {origin : Origin}
    (horigin : origin? p name = some origin) : ∃ d, origin = .declarator d := by
  cases origin with
  | declarator d => exact ⟨d, rfl⟩
  | imported source binding =>
    obtain ⟨s, hs, hin⟩ := List.exists_of_findSome?_eq_some horigin
    unfold originIn? at hin
    split at hin
    next =>
      obtain ⟨d, -, heq⟩ := Option.map_eq_some_iff.mp hin
      cases heq
    next source bindings hkind => exact absurd hkind (h.imports s hs source bindings)
    next => cases hin

theorem has_of_origin? (horigin : origin? p name = some (.declarator d)) {e : Expr} (h : d.Has e) :
    p.Has e := by
  induction h with
  | @top e he =>
    obtain ⟨s, hs, exported, ds, hkind, hd, -⟩ := exists_of_origin? horigin
    refine .top hs ?_
    rw [hkind]
    exact List.mem_flatMap.mpr ⟨d, hd, he⟩
  | inside _ hpart ih => exact ih.inside hpart

/-! ### Ranks -/

/-- Names that only mention names of a lower rank do not lead back to themselves. -/
theorem acyclic_of_rank (rank : String → Nat)
    (h : ∀ name other, p.Mentions name other → rank other < rank name) : p.Acyclic := by
  intro name hcycle
  have hlower : ∀ other, Relation.TransGen p.Mentions name other → rank other < rank name := by
    intro other hreach
    induction hreach with
    | single hmentions => exact h _ _ hmentions
    | tail _ hmentions ih => exact Nat.lt_trans (h _ _ hmentions) ih
  exact Nat.lt_irrefl _ (hlower name hcycle)

end Program

/-! ### Looking through a program -/

/-- Tests an expression and all that it is made of, down to a depth. -/
def Expr.allTo (test : Expr → Bool) : Nat → Expr → Bool
  | 0, _ => false
  | depth + 1, e => test e && e.parts.all (allTo test depth)

theorem Expr.of_allTo {test : Expr → Bool} {depth : Nat} {e : Expr} (h : e.allTo test depth = true) :
    test e = true ∧ ∀ part ∈ e.parts, part.allTo test (depth - 1) = true := by
  cases depth with
  | zero => cases h
  | succ depth =>
    rw [allTo, Bool.and_eq_true, List.all_eq_true] at h
    exact h

theorem Declarator.Has.of_allTo {test : Expr → Bool} {depth : Nat} {d : Declarator} {e : Expr}
    (he : d.Has e) (h : d.parts.all (Expr.allTo test depth) = true) : test e = true := by
  suffices hdepth : ∃ depth, e.allTo test depth = true from
    hdepth.elim fun _ hdepth => (Expr.of_allTo hdepth).1
  induction he with
  | top he => exact ⟨depth, List.all_eq_true.mp h _ he⟩
  | inside _ hpart ih => exact ih.imp' _ fun _ hdepth => (Expr.of_allTo hdepth).2 _ hpart

theorem Program.Has.of_allTo {test : Expr → Bool} {depth : Nat} {p : Program} {e : Expr}
    (he : p.Has e) (h : p.body.all (fun s => s.kind.parts.all (Expr.allTo test depth)) = true) :
    test e = true := by
  suffices hdepth : ∃ depth, e.allTo test depth = true from
    hdepth.elim fun _ hdepth => (Expr.of_allTo hdepth).1
  induction he with
  | top hs he => exact ⟨depth, List.all_eq_true.mp (List.all_eq_true.mp h _ hs) _ he⟩
  | inside _ hpart ih => exact ih.imp' _ fun _ hdepth => (Expr.of_allTo hdepth).2 _ hpart

namespace Program

/-- Whether an expression is no call of `require`. -/
def requiresNothing : Expr → Bool
  | .call _ false callee _ => callee.ident? != some "require"
  | _ => true

/-- Looks for imports and calls of `require`, down to a depth. -/
def selfContainedTo (depth : Nat) (p : Program) : Bool :=
  p.body.all (fun s => match s.kind with | .imports _ _ => false | _ => true) &&
    p.body.all fun s => s.kind.parts.all (Expr.allTo requiresNothing depth)

theorem selfContained_of_selfContainedTo {depth : Nat} {p : Program}
    (h : p.selfContainedTo depth = true) : p.SelfContained := by
  rw [selfContainedTo, Bool.and_eq_true] at h
  refine ⟨fun s hs source bindings hkind => ?_, fun loc callee args hhas => ?_⟩
  · have himports := List.all_eq_true.mp h.1 s hs
    rw [hkind] at himports
    cases himports
  · simpa [requiresNothing] using hhas.of_allTo h.2

/-- Whether an expression is no name, or one of a rank below. -/
def ranksBelow (rank : String → Nat) (bound : Nat) : Expr → Bool
  | .ident _ name => rank name < bound
  | _ => true

/-- Looks for names that do not have a lower rank than a name that mentions them, down to a depth. -/
def rankedTo (rank : String → Nat) (depth : Nat) (p : Program) : Bool :=
  p.body.all fun s =>
    match s.kind with
    | .declare _ ds => ds.all fun d => d.binding.names.all fun name =>
        d.parts.all (Expr.allTo (ranksBelow rank (rank name)) depth)
    | _ => true

theorem acyclic_of_rankedTo {rank : String → Nat} {depth : Nat} {p : Program}
    (h : p.rankedTo rank depth = true) : p.Acyclic := by
  refine acyclic_of_rank rank fun name other ⟨d, loc, horigin, hhas⟩ => ?_
  obtain ⟨s, hs, exported, ds, hkind, hd, hbinds⟩ := exists_of_origin? horigin
  have hstatement := List.all_eq_true.mp h s hs
  simp only [hkind, List.all_eq_true] at hstatement
  have hname : name ∈ d.binding.names := Binding.mem_names_of_binds hbinds
  have hall := List.all_eq_true.mpr (hstatement d hd name hname)
  simpa [ranksBelow] using hhas.of_allTo hall

end Program

end SchemaDoc
