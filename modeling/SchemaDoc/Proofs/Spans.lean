import SchemaDoc.Script.Cover

/-!
# Syntax trees that fit together

The stretches of a tree fit together if every node lies inside the node around it and what stands
side by side does not overlap. Of that, this file states what a program can show of a tree
(`Expr.Fits`): the members of an object literal and the elements of an array are in the order of the
text and inside the literal, each with its value inside it; a wrapper is around the literal that it
wraps; and no stretch ends before it starts. A template has one more chunk than expressions.

A tree is sound if all of its expressions fit (`Expr.Sound`). What is not looked into is no part of a
tree. It is tidy if moreover the parts of every expression follow each other, start inside it, and end
inside it unless they end with something that is not looked into (`Expr.Tidy`). Only the arguments of
`async` may be in disorder: they are read a second time where they could be parameters.

Reading an expression again as a pattern leaves some of the expressions inside it
(`Expr.slotParts`).
-/

namespace SchemaDoc.Script

/-! ### The parts of a tree -/

/-- The expressions of a property of a pattern. -/
def PatternProperty.parts : PatternProperty → List Expr
  | .bind _ _ default => default.toList
  | .other _ => []

/-- The expressions of a pattern. -/
def Pattern.parts : Pattern → List Expr
  | .object properties => properties.flatMap PatternProperty.parts
  | _ => []

/-- The expressions of a parameter. -/
def Param.parts : Param → List Expr
  | .mk pattern _ default _ => pattern.parts ++ default.toList

/-- The expressions of a declared variable. -/
def Declarator.parts : Declarator → List Expr
  | .mk pattern _ init => pattern.parts ++ init.toList

/-- The expressions of a statement. -/
def Statement.parts : Statement → List Expr
  | .declare declarators => declarators.flatMap Declarator.parts
  | .expression value => [value]
  | .returns value => value.toList
  | .other _ => []

/-- The expressions of a body. -/
def Body.parts : Body → List Expr
  | .expr value => [value]
  | .block statements => statements.flatMap Statement.parts

/-- The expressions of a member of an object literal. -/
def Member.parts : Member → List Expr
  | .keyed _ _ value => [value]
  | .shorthand _ _ => []
  | .defaulted _ _ default => [default]
  | .method _ _ params body _ => params.flatMap Param.parts ++ body.parts
  | .accessor _ _ _ _ => []
  | .spread _ value => [value]

/-- The expressions that an expression is made of, one level below it. The key of a property is not
looked into. -/
def Expr.parts : Expr → List Expr
  | .template _ _ exprs => exprs
  | .object _ members => members.flatMap Member.parts
  | .array _ elements => elements.map Element.value
  | .call _ _ callee args _ => callee :: args.map Element.value
  | .member _ owner _ => [owner]
  | .function _ _ params body _ => params.flatMap Param.parts ++ body.parts
  | .arrow _ params body _ => params.flatMap Param.parts ++ body.parts
  | .assign _ target value => [target, value]
  | .destructure _ target value => target.parts ++ [value]
  | .unary _ _ arg => [arg]
  | .binary _ _ left right => [left, right]
  | .conditional _ test yes no => [test, yes, no]
  | .wrapped _ _ inner _ => [inner]
  | .string _ _ | .literal _ _ | .regex _ _ _ | .ident _ _ | .other _ _ _ => []

/-- The expressions of a top-level item. -/
def ItemKind.parts : ItemKind → List Expr
  | .statement s => s.parts
  | .exported declarators => declarators.flatMap Declarator.parts
  | .exportDefault value => [value]
  | .imports _ _ | .exportNames _ | .other _ => []

/-! ### Stretches side by side -/

/-- Things in the order of the text that do not overlap, between two offsets. -/
structure Laid {α : Type} (span : α → Span) (lo hi : Nat) (as : List α) : Prop where
  ordered : as.Pairwise fun a b => (span a).hi ≤ (span b).lo
  inside : ∀ a ∈ as, lo ≤ (span a).lo ∧ (span a).hi ≤ hi

namespace Laid

variable {α : Type} {span : α → Span} {lo lo' hi hi' : Nat} {as : List α} {a : α}

theorem nil : Laid span lo hi [] := ⟨.nil, nofun⟩

theorem mono (h : Laid span lo hi as) (hlo : lo' ≤ lo) (hhi : hi ≤ hi') : Laid span lo' hi' as :=
  ⟨h.ordered, fun a ha =>
    ⟨Nat.le_trans hlo (h.inside a ha).1, Nat.le_trans (h.inside a ha).2 hhi⟩⟩

/-- One more thing behind the others. -/
theorem concat (h : Laid span lo hi as) (hlo : lo ≤ (span a).lo) (hgap : hi ≤ (span a).lo)
    (ha : (span a).lo ≤ (span a).hi) (hhi : (span a).hi ≤ hi') : Laid span lo hi' (as ++ [a]) := by
  constructor
  · rw [List.pairwise_append]
    refine ⟨h.ordered, List.pairwise_singleton _ _, ?_⟩
    intro b hb a' ha'
    obtain rfl := List.mem_singleton.mp ha'
    exact Nat.le_trans (h.inside b hb).2 hgap
  · intro b hb
    rcases List.mem_append.mp hb with hb | hb
    · have hinside := h.inside b hb
      exact ⟨hinside.1, by omega⟩
    · obtain rfl := List.mem_singleton.mp hb
      exact ⟨hlo, hhi⟩

end Laid

/-! ### Sound trees -/

/-- The stretch of an element, from its dots on. -/
def Element.span (e : Element) : Span := ⟨e.lo, e.value.span.hi⟩

/-- The value of an element stands behind its dots. -/
def Element.Fits (e : Element) : Prop := e.lo ≤ e.value.span.lo

/-- The value of a member stands inside it. -/
def Member.Fits (m : Member) : Prop :=
  m.span.lo ≤ m.span.hi ∧
    match m with
    | .keyed span _ value => span.lo ≤ value.span.lo ∧ value.span.hi ≤ span.hi
    | .spread span value => span.lo ≤ value.span.lo ∧ value.span.hi ≤ span.hi
    | _ => True

/-- Whether an expression is an object or an array literal, perhaps in parentheses. -/
def Expr.isCollection : Expr → Bool
  | .object _ _ => true
  | .array _ _ => true
  | .wrapped _ _ inner _ => inner.isCollection
  | _ => false

/-- An expression fits together with what it is made of. -/
def Expr.Fits (e : Expr) : Prop :=
  e.span.lo ≤ e.span.hi ∧
    match e with
    | .template _ chunks exprs => chunks.length = exprs.length + 1
    | .object span members => Laid Member.span span.lo span.hi members ∧ ∀ m ∈ members, m.Fits
    | .array span elements => Laid Element.span span.lo span.hi elements ∧ ∀ a ∈ elements, a.Fits
    | .call _ _ _ args _ => ∀ a ∈ args, a.Fits
    | .wrapped span _ inner _ =>
      inner.isCollection → span.lo ≤ inner.span.lo ∧ inner.span.hi ≤ span.hi
    | _ => True

/-- All expressions of a tree fit. -/
inductive Expr.Sound : Expr → Prop
  | mk {e : Expr} (fits : e.Fits) (parts : ∀ p ∈ e.parts, p.Sound) : e.Sound

theorem Expr.Sound.fits {e : Expr} (h : e.Sound) : e.Fits := by
  cases h with
  | mk fits _ => exact fits

theorem Expr.Sound.parts {e : Expr} (h : e.Sound) : ∀ p ∈ e.parts, p.Sound := by
  cases h with
  | mk _ parts => exact parts

theorem Expr.Sound.span_le {e : Expr} (h : e.Sound) : e.span.lo ≤ e.span.hi := h.fits.1

grind_pattern Expr.Sound.span_le => Expr.Sound e, Expr.span e

theorem Element.span_le {a : Element} (h : a.Fits) (hvalue : a.value.Sound) :
    a.span.lo ≤ a.span.hi := Nat.le_trans h hvalue.span_le

/-- Expressions that are all sound. -/
def AllSound (es : List Expr) : Prop := ∀ e ∈ es, e.Sound

/-! ### Tidy trees -/

/-- The members of an object literal. -/
def Expr.members : Expr → List Member
  | .object _ members => members
  | _ => []

/-- Whether an expression is looked into up to its end. -/
def Expr.isWhole : Expr → Bool
  | .unary _ _ arg => arg.isWhole
  | .binary _ _ _ right => right.isWhole
  | .conditional _ _ _ no => no.isWhole
  | .other _ _ _ => false
  | _ => true

theorem Expr.isWhole_of_isCollection {e : Expr} (h : e.isCollection = true) : e.isWhole = true := by
  cases e with
  | object _ _ | array _ _ | wrapped _ _ _ _ => rfl
  | _ => cases h

/-- Whether an expression is a call of `async`. -/
def Expr.isAsyncCall : Expr → Bool
  | .call _ _ (.ident _ name) _ _ => name == "async"
  | _ => false

/-- Expressions in the order of the text that start inside a stretch. Those that are looked into up to
their end also end inside it. -/
structure Span.Holds (outer : Span) (es : List Expr) : Prop where
  ordered : es.Pairwise fun a b => a.span.hi ≤ b.span.lo
  lo_le : ∀ e ∈ es, outer.lo ≤ e.span.lo
  hi_le : ∀ e ∈ es, e.isWhole = true → e.span.hi ≤ outer.hi

/-- A sound tree that holds its parts in their order, but for calls of `async`. -/
inductive Expr.Tidy : Expr → Prop
  | mk {e : Expr} (fits : e.Fits) (holds : e.span.Holds e.parts)
      (members : ∀ m ∈ e.members, m.span.Holds m.parts) (parts : ∀ p ∈ e.parts, p.Tidy) : e.Tidy
  | async {e : Expr} (called : e.isAsyncCall = true) (sound : e.Sound) : e.Tidy

theorem Expr.Tidy.sound {e : Expr} (h : e.Tidy) : e.Sound := by
  induction h with
  | mk fits _ _ _ ih => exact ⟨fits, ih⟩
  | async _ sound => exact sound

/-! ### Expressions as patterns -/

/-- The expressions of a slot. -/
def Slot.parts (s : Slot) : List Expr := s.pattern.parts ++ s.default.toList

/-- The expressions of the pattern that an expression is read again as. -/
def Expr.slotParts (use : PatternUse) (e : Expr) : List Expr :=
  match e.slot use with
  | .ok s => s.parts
  | .error _ => []

/-- The expressions of the property that a member is read again as. -/
def Member.slotParts (use : PatternUse) (m : Member) : List Expr :=
  match m.slot use with
  | .ok p => p.parts
  | .error _ => []

/-- A result of one reading after another comes from a result of the first one. -/
theorem exists_of_bind_eq_ok {ε α β : Type} {x : Except ε α} {f : α → Except ε β} {b : β}
    (h : x >>= f = .ok b) : ∃ a, x = .ok a ∧ f a = .ok b := by
  cases x with
  | error _ => cases h
  | ok a => exact ⟨a, rfl, h⟩

theorem Slot.property_sublist (s : Slot) (key : Key) : (s.property key).parts.Sublist s.parts := by
  unfold Slot.property
  split
  · exact List.sublist_append_right _ _
  · exact List.nil_sublist _

theorem Slot.restParam_sublist (s : Slot) : s.restParam.parts.Sublist s.parts := by
  unfold Slot.restParam
  split
  · exact (List.Sublist.refl _).append (List.nil_sublist _)
  · exact List.nil_sublist _

theorem Slot.pattern_sublist {use : PatternUse} {e : Expr} {s : Slot} (h : e.slot use = .ok s) :
    s.pattern.parts.Sublist (e.slotParts use) := by
  rw [Expr.slotParts, h]
  exact List.sublist_append_left _ _

/-- An assignment leaves no more than its left-hand side does, and the value. -/
theorem Expr.slotParts_assign (use : PatternUse) (span : Span) (target value : Expr) :
    ((Expr.assign span target value).slotParts use).Sublist (target.slotParts use ++ [value]) := by
  simp only [Expr.slotParts, Expr.slot]
  cases target.slot use with
  | error _ => exact List.nil_sublist _
  | ok s => exact (List.sublist_append_left _ _).append (List.Sublist.refl _)

/-- A member with a value leaves no more than its value does. -/
theorem Member.slotParts_keyed (use : PatternUse) (span : Span) (key : Key) (value : Expr) :
    ((Member.keyed span key value).slotParts use).Sublist (value.slotParts use) := by
  simp only [Member.slotParts, Member.slot, Expr.slotParts]
  cases value.slot use with
  | error _ => exact List.nil_sublist _
  | ok s => exact s.property_sublist key

theorem Member.slotParts_spread (use : PatternUse) (span : Span) (value : Expr) :
    ((Member.spread span value).slotParts use).Sublist (value.slotParts use) := by
  simp only [Member.slotParts, Member.slot]
  cases use with
  | binding => exact List.nil_sublist _
  | assignment => cases value.slot .assignment <;> exact List.nil_sublist _

/-- The properties that members are read again as leave what the members do. -/
theorem memberSlots_parts {use : PatternUse} {ms : List Member} {ps : List PatternProperty}
    (h : memberSlots use ms = .ok ps) :
    ps.flatMap PatternProperty.parts = ms.flatMap (Member.slotParts use) := by
  induction ms generalizing ps with
  | nil =>
    cases h
    rfl
  | cons m ms ih =>
    simp only [memberSlots] at h
    obtain ⟨p, hp, h⟩ := exists_of_bind_eq_ok h
    obtain ⟨ps', hps, h⟩ := exists_of_bind_eq_ok h
    cases h
    simp only [List.flatMap_cons, ih hps, Member.slotParts, hp]

/-- An object literal leaves what its members leave. -/
theorem Expr.slotParts_object (use : PatternUse) (span : Span) (ms : List Member) :
    ((Expr.object span ms).slotParts use).Sublist (ms.flatMap (Member.slotParts use)) := by
  simp only [Expr.slotParts, Expr.slot]
  cases hps : memberSlots use ms with
  | error _ => exact List.nil_sublist _
  | ok ps =>
    have hparts : Slot.parts ⟨.object ps, none⟩ = ms.flatMap (Member.slotParts use) := by
      rw [Slot.parts, Pattern.parts, memberSlots_parts hps]
      exact List.append_nil _
    exact hparts ▸ List.Sublist.refl _

/-- Whether reading an expression again as a pattern may leave expressions of it. -/
def Expr.isPattern : Expr → Bool
  | .object _ _ | .assign _ _ _ | .destructure _ _ _ => true
  | _ => false

theorem Expr.members_eq_nil {e : Expr} (h : e.isPattern = false) : e.members = [] := by
  cases e with
  | object _ _ => cases h
  | _ => rfl

theorem Expr.slotParts_eq_nil {e : Expr} (use : PatternUse) (h : e.isPattern = false) :
    e.slotParts use = [] := by
  cases e with
  | object _ _ | assign _ _ _ | destructure _ _ _ => cases h
  | ident _ _ => rfl
  | array _ elements =>
    simp only [Expr.slotParts, Expr.slot]
    cases elementSlots use elements <;> rfl
  | _ =>
    simp only [Expr.slotParts, Expr.slot, Expr.asPlace]
    split <;> rfl

/-! ### Between parentheses -/

/-- The expressions of the parameter that something between parentheses is read again as. -/
def Parenthesized.slotParts : Parenthesized → List Expr
  | .element e => e.value.slotParts .binding
  | .param _ p => p.parts

/-- The parameters that things between parentheses are read again as leave no more than these do. -/
theorem Parenthesized.params_sublist {items : List Parenthesized} {ps : List Param}
    (h : Parenthesized.params items = .ok ps) :
    (ps.flatMap Param.parts).Sublist (items.flatMap slotParts) := by
  fun_induction Parenthesized.params items generalizing ps with
  | case1 =>
    cases h
    exact List.Sublist.refl _
  | case2 _ e =>
    obtain ⟨s, hs, h⟩ := exists_of_bind_eq_ok h
    cases h
    simp only [List.flatMap_singleton, slotParts, Element.value, Expr.slotParts, hs]
    exact s.restParam_sublist
  | case3 _ p =>
    cases h
    exact List.Sublist.refl _
  | case4 _ _ items _ ih => exact (ih h).trans (List.sublist_append_right _ _)
  | case5 _ _ _ _ items _ ih => exact (ih h).trans (List.sublist_append_right _ _)
  | case6 _ p items _ _ ih =>
    obtain ⟨ps', hps, h⟩ := exists_of_bind_eq_ok h
    cases h
    exact (List.Sublist.refl _).append (ih hps)
  | case7 e items ih =>
    obtain ⟨s, hs, h⟩ := exists_of_bind_eq_ok h
    obtain ⟨ps', hps, h⟩ := exists_of_bind_eq_ok h
    cases h
    simp only [List.flatMap_cons, slotParts, Element.value, Expr.slotParts, hs]
    exact (List.Sublist.refl _).append (ih hps)

end SchemaDoc.Script
