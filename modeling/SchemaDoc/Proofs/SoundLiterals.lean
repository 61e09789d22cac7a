import SchemaDoc.Proofs.Parsing
import SchemaDoc.Proofs.Spans
import SchemaDoc.Script.Grammar.Operators

/-!
# Literals, patterns and functions are read soundly

What a parser reads starts at the next token or behind it, and ends before the token that comes next
afterwards; in between, everything is tidy and in the order of the text (`Placed`). The end is the
start of the next token and not the end of the one taken last, because a missing operand stands right
before the next token. What is looked into up to its end is stricter: it ends with a token that has
been taken, so what is put around it ends behind it.

The rules of a grammar call each other through the grammar. `Grammar.Sound` says what each of them
reads, and this file and the ones after it derive the same for the bodies of the rules. What an
expression leaves if it is read again as a pattern is kept in order as well (`Expr.Within`). One rule
needs more than a place to start: what stands in front of operators may be missing too, but then an
operator follows (`Expr.Ready`), and reading on from there takes it.
-/

namespace SchemaDoc.Script

open SchemaDoc.Script.Parser (Ensures)

/-! ### Expressions between two states -/

/-- Tidy expressions in the order of the text, from an offset up to the next token. Those that are
looked into up to their end end with a token that has been taken. -/
structure Placed (es : List Expr) (lo : Nat) (s : State) : Prop where
  tidy : ∀ e ∈ es, e.Tidy
  laid : Laid Expr.span lo s.token.lo es
  closed : ∀ e ∈ es, e.isWhole = true → e.span.hi ≤ s.last

namespace Placed

variable {α : Type} {f : α → List Expr} {as : List α} {a : α} {es es' : List Expr} {lo lo' : Nat}
  {s s' : State}

theorem nil : Placed [] lo s := ⟨nofun, .nil, nofun⟩

theorem mono (h : Placed es lo s) (hlo : lo' ≤ lo) (hs : s ≤ s') : Placed es lo' s' where
  tidy := h.tidy
  laid := h.laid.mono hlo hs.2
  closed e he hwhole := Nat.le_trans (h.closed e he hwhole) hs.1

theorem later (h : Placed es lo s) (hs : s ≤ s') : Placed es lo s' := h.mono (Nat.le_refl _) hs

theorem earlier (h : Placed es lo s) (hlo : lo' ≤ lo) : Placed es lo' s := h.mono hlo s.le_refl

theorem sublist (h : Placed es lo s) (hsub : es'.Sublist es) : Placed es' lo s where
  tidy e he := h.tidy e (hsub.subset he)
  laid := ⟨h.laid.ordered.sublist hsub, fun e he => h.laid.inside e (hsub.subset he)⟩
  closed e he := h.closed e (hsub.subset he)

/-- Expressions and others that are read behind them. -/
theorem append (h : Placed es lo s) (h' : Placed es' s.token.lo s') (hs : s ≤ s')
    (hlo : lo ≤ s.token.lo) : Placed (es ++ es') lo s' where
  tidy := List.forall_mem_append.mpr ⟨h.tidy, h'.tidy⟩
  laid := by
    constructor
    · refine List.pairwise_append.mpr ⟨h.laid.ordered, h'.laid.ordered, fun a ha b hb => ?_⟩
      exact Nat.le_trans (h.laid.inside a ha).2 (h'.laid.inside b hb).1
    · refine List.forall_mem_append.mpr ⟨(h.laid.mono (Nat.le_refl _) hs.2).inside, ?_⟩
      exact (h'.laid.mono hlo (Nat.le_refl _)).inside
  closed := List.forall_mem_append.mpr ⟨(h.later hs).closed, h'.closed⟩

theorem concat (h : Placed (as.flatMap f) lo s) (ha : Placed (f a) s.token.lo s') (hs : s ≤ s')
    (hlo : lo ≤ s.token.lo) : Placed ((as ++ [a]).flatMap f) lo s' := by
  rw [List.flatMap_append, List.flatMap_singleton]
  exact h.append ha hs hlo

theorem concat_reverse (h : Placed (as.reverse.flatMap f) lo s) (ha : Placed (f a) s.token.lo s')
    (hs : s ≤ s') (hlo : lo ≤ s.token.lo) : Placed ((a :: as).reverse.flatMap f) lo s' := by
  rw [List.reverse_cons]
  exact h.concat ha hs hlo

/-- A stretch up to the token taken last holds what has been read in it. -/
theorem holds {outer : Span} (h : Placed es lo s) (hlo : outer.lo ≤ lo) (hhi : s.last ≤ outer.hi) :
    outer.Holds es where
  ordered := h.laid.ordered
  lo_le e he := Nat.le_trans hlo (h.laid.inside e he).1
  hi_le e he hwhole := Nat.le_trans (h.closed e he hwhole) hhi

end Placed

/-- A tidy expression that starts at an offset or behind it and ends before the next token. What it
leaves as a pattern is inside it. -/
structure Expr.Within (e : Expr) (lo : Nat) (s : State) : Prop where
  tidy : e.Tidy
  lo_le : lo ≤ e.span.lo
  hi_le : e.span.hi ≤ s.token.lo
  closed : e.isWhole = true → e.span.hi ≤ s.last
  slots : ∀ use, Placed (e.slotParts use) e.span.lo s

namespace Expr.Within

variable {e last : Expr} {init : List Expr} {lo lo' a b : Nat} {s s' : State}

theorem bounds (h : e.Within lo s) :
    lo ≤ e.span.lo ∧ e.span.lo ≤ e.span.hi ∧ e.span.hi ≤ s.token.lo :=
  ⟨h.lo_le, h.tidy.sound.span_le, h.hi_le⟩

grind_pattern bounds => Expr.Within e lo s

theorem mono (h : e.Within lo s) (hlo : lo' ≤ lo) (hs : s ≤ s') : e.Within lo' s' where
  tidy := h.tidy
  lo_le := Nat.le_trans hlo h.lo_le
  hi_le := Nat.le_trans h.hi_le hs.2
  closed hc := Nat.le_trans (h.closed hc) hs.1
  slots use := (h.slots use).later hs

theorem later (h : e.Within lo s) (hs : s ≤ s') : e.Within lo s' := h.mono (Nat.le_refl _) hs

theorem earlier (h : e.Within lo s) (hlo : lo' ≤ lo) : e.Within lo' s := h.mono hlo s.le_refl

theorem self (h : e.Within lo s) : e.Within e.span.lo s :=
  ⟨h.tidy, Nat.le_refl _, h.hi_le, h.closed, h.slots⟩

theorem placed (h : e.Within lo s) : Placed [e] lo s where
  tidy := List.forall_mem_singleton.mpr h.tidy
  laid := ⟨List.pairwise_singleton _ _, List.forall_mem_singleton.mpr ⟨h.lo_le, h.hi_le⟩⟩
  closed := List.forall_mem_singleton.mpr h.closed

/-- An expression that nothing is left of as a pattern. -/
theorem ofHolds (hpattern : e.isPattern = false) (hfits : e.Fits) (hholds : e.span.Holds e.parts)
    (hparts : ∀ p ∈ e.parts, p.Tidy) (hlo : lo ≤ e.span.lo) (hhi : e.span.hi ≤ s.token.lo)
    (hclosed : e.isWhole = true → e.span.hi ≤ s.last) : e.Within lo s := by
  refine ⟨.mk hfits hholds ?_ hparts, hlo, hhi, hclosed, fun use => ?_⟩
  · rw [e.members_eq_nil hpattern]
    exact nofun
  · rw [e.slotParts_eq_nil use hpattern]
    exact .nil

/-- An expression that is not looked into. -/
theorem other {form : Form} {refs : References} (h : lo ≤ a ∧ a ≤ b ∧ b ≤ s.token.lo) :
    (Expr.other ⟨a, b⟩ form refs).Within lo s :=
  ofHolds rfl ⟨h.2.1, trivial⟩ ⟨.nil, nofun, nofun⟩ nofun h.1 h.2.2 nofun

/-- An expression that ends with the token taken last, with what it leaves as a pattern. -/
theorem closingSlots (hfits : e.Fits) (hspan : e.span = .upTo a s.last) (ha : lo ≤ a)
    (hlast : a ≤ s.last) (hparts : Placed e.parts a s)
    (hmembers : ∀ m ∈ e.members, m.span.Holds m.parts)
    (hslots : ∀ use, Placed (e.slotParts use) a s) : e.Within lo s := by
  have hhi : e.span.hi = s.last := by
    rw [hspan]
    exact Nat.max_eq_right hlast
  have hlo : e.span.lo = a := by rw [hspan, Span.lo_upTo]
  have hholds := hparts.holds (Nat.le_of_eq hlo) (Nat.le_of_eq hhi.symm)
  refine ⟨.mk hfits hholds hmembers hparts.tidy, by omega, ?_, fun _ => Nat.le_of_eq hhi, ?_⟩
  · rw [hhi]
    exact s.last_le
  · rwa [hlo]

/-- An expression that ends with the token taken last. -/
theorem closing (hpattern : e.isPattern = false) (hfits : e.Fits) (hspan : e.span = .upTo a s.last)
    (ha : lo ≤ a) (hlast : a ≤ s.last) (hparts : Placed e.parts a s) : e.Within lo s := by
  refine closingSlots hfits hspan ha hlast hparts ?_ fun use => ?_
  · rw [e.members_eq_nil hpattern]
    exact nofun
  · rw [e.slotParts_eq_nil use hpattern]
    exact .nil

/-- An expression that ends with the last of its parts. -/
theorem ending (hpattern : e.isPattern = false) (hfits : e.span.lo ≤ e.span.hi → e.Fits)
    (hspan : e.span = ⟨a, last.span.hi⟩) (hwhole : e.isWhole = last.isWhole)
    (hparts : e.parts = init ++ [last]) (ha : lo ≤ a) (h : Placed (init ++ [last]) a s) :
    e.Within lo s := by
  have hlast : last ∈ init ++ [last] := List.mem_append_right _ (.head _)
  have hle := (h.tidy last hlast).sound.span_le
  have hinside := h.laid.inside last hlast
  refine ofHolds hpattern (hfits ?_) ⟨?_, ?_, ?_⟩ ?_ ?_ ?_ ?_
  all_goals simp only [hspan, hparts, hwhole]
  · omega
  · exact h.laid.ordered
  · exact fun p hp => (h.laid.inside p hp).1
  · intro p hp _
    rcases List.mem_append.mp hp with hp | hp
    · have := (List.pairwise_append.mp h.laid.ordered).2.2 p hp last (.head _)
      omega
    · obtain rfl := List.mem_singleton.mp hp
      exact Nat.le_refl _
  · exact h.tidy
  · exact ha
  · exact hinside.2
  · exact h.closed last hlast

/-- A token that has been taken. -/
theorem leaf (hpattern : e.isPattern = false) (hfits : e.span.lo ≤ e.span.hi → e.Fits)
    (hspan : e.span = ⟨a, b⟩) (hparts : e.parts = []) (h : lo ≤ a ∧ a ≤ b ∧ b ≤ s.last) :
    e.Within lo s := by
  refine ofHolds hpattern (hfits ?_) ?_ ?_ ?_ ?_ ?_
  all_goals simp only [hspan, hparts]
  · exact h.2.1
  · exact ⟨.nil, nofun, nofun⟩
  · exact nofun
  · exact h.1
  · exact Nat.le_trans h.2.2 s.last_le
  · exact fun _ => h.2.2

end Expr.Within

/-- A tidy element between two states. -/
structure Element.Within (a : Element) (lo : Nat) (s : State) : Prop where
  value : a.value.Within a.lo s
  lo_le : lo ≤ a.lo

theorem Expr.Within.element {e : Expr} {lo : Nat} {s : State} (h : e.Within lo s) :
    (Element.plain e).Within lo s := ⟨h.self, h.lo_le⟩

/-- Tidy elements in the order of the text, between an offset and another one. -/
structure ElementsWithin (es : List Element) (lo hi : Nat) (s : State) : Prop where
  laid : Laid Element.span lo hi es
  fits : ∀ a ∈ es, a.Fits
  placed : Placed (es.map Element.value) lo s

namespace ElementsWithin

variable {es : List Element} {a : Element} {lo hi hi' : Nat} {s s' : State}

theorem nil : ElementsWithin [] lo hi s := ⟨.nil, nofun, .nil⟩

theorem later (h : ElementsWithin es lo hi s) (hhi : hi ≤ hi') (hs : s ≤ s') :
    ElementsWithin es lo hi' s' := ⟨h.laid.mono (Nat.le_refl _) hhi, h.fits, h.placed.later hs⟩

theorem concat (h : ElementsWithin es lo s.token.lo s) (ha : a.Within s.token.lo s') (hs : s ≤ s')
    (hlo : lo ≤ s.token.lo) : ElementsWithin (es ++ [a]) lo s'.token.lo s' where
  laid := by
    have hvalue := ha.value.bounds
    have hgap := ha.lo_le
    exact h.laid.concat (Nat.le_trans hlo hgap) hgap (Nat.le_trans hvalue.1 hvalue.2.1) hvalue.2.2
  fits := List.forall_mem_append.mpr ⟨h.fits, List.forall_mem_singleton.mpr ha.value.lo_le⟩
  placed := by
    rw [List.map_append]
    exact h.placed.append (ha.value.placed.earlier ha.lo_le) hs hlo

end ElementsWithin

/-- A tidy member of an object literal between two states. -/
structure Member.Within (m : Member) (lo : Nat) (s : State) : Prop where
  fits : m.Fits
  holds : m.span.Holds m.parts
  placed : Placed m.parts m.span.lo s
  slots : ∀ use, Placed (m.slotParts use) m.span.lo s
  lo_le : lo ≤ m.span.lo
  hi_le : m.span.hi ≤ s.token.lo

namespace Member.Within

variable {m : Member} {value : Expr} {lo a : Nat} {s : State}

/-- A member that ends with the token taken last. -/
theorem closing (hspan : m.span = .upTo a s.last) (hfits : m.span.lo ≤ m.span.hi → m.Fits)
    (hparts : Placed m.parts a s) (hslots : ∀ use, Placed (m.slotParts use) a s) (hlo : lo ≤ a)
    (hhi : a ≤ s.token.lo) : m.Within lo s := by
  refine ⟨hfits ?_, ?_, ?_, ?_, ?_, ?_⟩
  all_goals simp only [hspan]
  · exact Span.upTo_le _ _
  · exact hparts.holds (Nat.le_refl _) (Nat.le_max_right _ _)
  · exact hparts
  · exact hslots
  · exact hlo
  · exact Nat.max_le.mpr ⟨hhi, s.last_le⟩

/-- A member that ends with its value. -/
theorem ending (hspan : m.span = ⟨a, value.span.hi⟩) (hparts : m.parts = [value])
    (hfits : m.span.lo ≤ m.span.hi ∧ m.span.lo ≤ value.span.lo ∧ value.span.hi ≤ m.span.hi → m.Fits)
    (hslots : ∀ use, (m.slotParts use).Sublist (value.slotParts use)) (hlo : lo ≤ a)
    (hvalue : value.Within a s) : m.Within lo s := by
  obtain ⟨hstart, hle, hend⟩ := hvalue.bounds
  refine ⟨hfits ?_, ⟨?_, ?_, ?_⟩, ?_, fun use => ?_, ?_, ?_⟩
  all_goals simp only [hspan, hparts, List.forall_mem_singleton, List.pairwise_singleton]
  · exact ⟨Nat.le_trans hstart hle, hstart, Nat.le_refl _⟩
  · exact hstart
  · exact fun _ => Nat.le_refl _
  · exact hvalue.placed
  · exact ((hvalue.slots use).sublist (hslots use)).earlier hstart
  · exact hlo
  · exact hend

end Member.Within

/-- Tidy members in the order of the text, between an offset and another one. -/
structure MembersWithin (ms : List Member) (lo hi : Nat) (s : State) : Prop where
  laid : Laid Member.span lo hi ms
  fits : ∀ m ∈ ms, m.Fits ∧ m.span.Holds m.parts
  placed : Placed (ms.flatMap Member.parts) lo s
  slots : ∀ use, Placed (ms.flatMap (Member.slotParts use)) lo s

theorem MembersWithin.later {ms : List Member} {lo hi hi' : Nat} {s s' : State}
    (h : MembersWithin ms lo hi s) (hhi : hi ≤ hi') (hs : s ≤ s') : MembersWithin ms lo hi' s' :=
  ⟨h.laid.mono (Nat.le_refl _) hhi, h.fits, h.placed.later hs, fun use => (h.slots use).later hs⟩

/-- Operators can be read behind an expression: it is read to its end, or it is missing and the
operator behind it is there. -/
structure Expr.Ready (e : Expr) (c : Context) (s : State) (level : Nat) : Prop where
  tidy : e.Tidy
  closed : e.isWhole = true → e.span.hi ≤ s.last
  slots : ∀ use, Placed (e.slotParts use) e.span.lo s
  ends : e.span.hi ≤ s.token.lo ∨ e.span.hi ≤ s.token.joined.hi ∧
    ∃ l op, Grammar.operator? c.inAllowed s.token.joined.kind = some (l, op) ∧ level < l

theorem Expr.Within.ready {e : Expr} {lo : Nat} {s : State} (h : e.Within lo s) (c : Context)
    (level : Nat) : e.Ready c s level := ⟨h.tidy, h.closed, h.slots, .inl h.hi_le⟩

/-- A grammar whose rules read what is tidy, in the order of the text. -/
structure Grammar.Sound (g : Grammar) : Prop where
  assign (c : Context) (s : State) : (g .assign).Ensures c s fun e s' => e.Within s.token.lo s'
  unary (c : Context) (s : State) : (g .unary).Ensures c s fun e s' => e.Within s.token.lo s'
  construct (c : Context) (s : State) :
    (g .construct).Ensures c s fun e s' => e.Within s.token.lo s'
  operators {left : Expr} {level : Nat} {c : Context} {s : State} (h : left.Ready c s level) :
    (g (.operators left level)).Ensures c s fun e s' => e.Within left.span.lo s'
  target (c : Context) (s : State) (lexical : Bool) :
    (g (.target lexical)).Ensures c s fun p s' => Placed p.parts s.token.lo s'
  params (c : Context) (s : State) :
    (g .params).Ensures c s fun ps s' => Placed (ps.flatMap Param.parts) s.token.lo s'
  statement (c : Context) (s : State) (declares : Bool) :
    (g (.statement declares)).Ensures c s fun st s' => Placed st.parts s.token.lo s'
  block (c : Context) (s : State) (directive : Bool) : (g (.block directive)).Ensures c s
    fun sts s' => Placed (sts.flatMap Statement.parts) s.token.lo s'

namespace Grammar

variable {g : Grammar} (hg : g.Sound) {c : Context} {s : State}

include hg

theorem expression_sound : (expression g).Ensures c s fun e s' => e.Within s.token.lo s' := by
  unfold expression
  refine .bind (hg.assign _ _) fun first s₁ hs₁ hfirst => ?_
  refine .look (.ite (fun _ => .pure hfirst) fun _ => ?_)
  refine .iterate (fun _ _ => True) trivial fun refs s₂ hs₂ _ => ?_
  refine .accept (fun s₃ _ _ => .skip fun _ s₄ _ => .pure trivial) (.look (.pure ?_))
  exact .other (by grind)

/-! ### Patterns and parameters -/

omit hg in
theorem propertyKey_past : (propertyKey g).Ensures c s fun _ s' => s.token.hi ≤ s'.last := by
  unfold propertyKey
  refine .look ?_
  split
  case h_4 =>
    refine .advance fun s₁ _ hlast => .look (.skip fun e s₂ hs₂ => .expect fun s₃ hs₃ _ => .pure ?_)
    exact Nat.le_trans hlast (State.le_trans hs₂ hs₃).1
  case h_5 => exact .fail
  all_goals exact .advance fun s₁ _ hlast => .pure hlast

theorem default?_sound :
    (default? g).Ensures c s fun d s' => Placed d.toList s.token.lo s' := by
  refine .accept (fun s₁ hs₁ _ => ?_) (.pure .nil)
  refine .bind (.within fun c => hg.assign c s₁) fun e s₂ hs₂ he => .pure ?_
  exact he.placed.earlier hs₁.2

theorem slot_sound : (slot g).Ensures c s fun sl s' => Placed sl.parts s.token.lo s' := by
  refine .bind (hg.target _ _ _) fun pattern s₁ hs₁ hpattern => ?_
  refine .bind (default?_sound hg) fun default s₂ hs₂ hdefault => .pure ?_
  exact hpattern.append hdefault hs₂ hs₁.2

theorem patternProperty_sound :
    (patternProperty g).Ensures c s fun p s' => Placed p.1.parts s.token.lo s' := by
  unfold patternProperty
  refine .look (.accept (fun s₁ _ _ => ?_) ?_)
  · refine .skip fun p s₂ _ => ?_
    split
    · exact .pure .nil
    · exact .look (.pure .nil)
  refine .skip fun key s₁ hs₁ => .accept (fun s₂ hs₂ _ => ?_) ?_
  · refine .bind (slot_sound hg) fun sl s₃ hs₃ hsl => .pure ?_
    exact (hsl.sublist (sl.property_sublist key)).earlier (by grind)
  split
  · refine .bind (default?_sound hg) fun default s₂ hs₂ hdefault => .pure ?_
    exact hdefault.earlier hs₁.2
  · exact .fail

theorem patternProperties_sound : (patternProperties g).Ensures c s fun ps s' =>
    Placed (ps.flatMap PatternProperty.parts) s.token.lo s' := by
  unfold patternProperties
  refine .bind (.within fun c =>
    .commaList (fun (ps : List (PatternProperty × Option Span)) s' =>
      Placed (ps.flatMap fun p => p.1.parts) s.token.lo s') .nil ?_ fun ps s₁ hs₁ hps => ?_)
        fun ps s₁ hs₁ ⟨s₂, hs₂, _, hps⟩ => ?_
  · exact fun _ _ _ hs h => h.later hs
  · exact (patternProperty_sound hg).mono fun p s₂ hs₂ hp => hps.concat hp hs₂ hs₁.2
  · split
    · exact .failAt
    · refine .pure ?_
      rw [List.flatMap_map]
      exact hps.later hs₂

theorem target_sound (lexical : Bool) :
    (target g lexical).Ensures c s fun p s' => Placed p.parts s.token.lo s' := by
  unfold target
  refine .look ?_
  split
  · refine .skip fun _ s₁ hs₁ => .bind (patternProperties_sound hg) fun ps s₂ hs₂ hps => ?_
    exact .skip fun _ s₃ hs₃ => .pure (hps.mono hs₁.2 hs₃)
  · exact .skip fun _ s₁ _ => .skip fun refs s₂ _ => .skip fun _ s₃ _ => .pure .nil
  · exact .ite (fun _ => .skip fun n s₁ _ => .pure .nil) fun _ => .skip fun n s₁ _ => .pure .nil

theorem plainParam_sound :
    (plainParam g).Ensures c s fun p s' => Placed p.parts s.token.lo s' := by
  unfold plainParam
  refine .skip fun _ s₁ hs₁ => .bind (slot_sound hg) fun sl s₂ hs₂ hsl => .look (.look ?_)
  have hslot : Placed sl.parts s.token.lo s₂ := hsl.earlier hs₁.2
  extract_lets rest
  have hrest : ∀ u s', s₂ ≤ s' → (rest u).Ensures c s' fun p s'' => Placed p.parts s.token.lo s'' := by
    intro _ s' hs'
    refine .skip fun types s₃ hs₃ => .accept (fun s₄ hs₄ _ => ?_) (.pure (hslot.later (by grind)))
    refine .bind (hg.assign _ _) fun default s₅ hs₅ hdefault => ?_
    have hnew (es : List Expr) (hes : es.Sublist sl.parts) : Placed (es ++ [default]) s.token.lo s₅ :=
      ((hslot.sublist hes).later (by grind)).append hdefault.placed hs₅ (by grind)
    split
    · exact .pure (hnew _ (List.sublist_append_left _ _))
    · exact .pure (hnew [] (List.nil_sublist _))
  refine .ite (fun _ => .look (.skip fun _ s₃ hs₃ => .look ?_)) fun _ => hrest () s₂ (State.le_refl _)
  exact .ite (fun _ => .failedAt) fun _ => hrest () s₃ hs₃

theorem param_sound : (param g).Ensures c s fun p s' => Placed p.parts s.token.lo s' := by
  unfold param
  refine .skip fun rest s₁ hs₁ => .ite (fun _ => ?_) fun _ => ?_
  · exact (plainParam_sound hg).mono fun p s₂ _ hp => hp.earlier hs₁.2
  refine .bind (hg.target _ _ _) fun pattern s₂ hs₂ hpattern => ?_
  refine .skip fun assigned s₃ hs₃ => ?_
  extract_lets rest
  have hrest : ∀ default s', s₂ ≤ s' →
      (rest default).Ensures c s' fun p s'' => Placed p.parts s.token.lo s'' := by
    intro default s' hs'
    refine .skip fun types s₄ hs₄ => .look (.look ?_)
    extract_lets finish
    have hfinish : ∀ u s', s₂ ≤ s' →
        (finish u).Ensures c s' fun p s'' => Placed p.parts s.token.lo s'' := by
      intro _ s' hs'
      cases default with
      | none =>
        exact .pure ((hpattern.mono hs₁.2 hs').append .nil (State.le_refl _) (by grind))
      | some e => exact .pure .nil
    exact .ite (fun _ => .skip fun _ s₅ hs₅ => hfinish () s₅ (by grind)) fun _ =>
      hfinish () s₄ (by grind)
  exact .ite (fun _ => .skip fun _ s₄ hs₄ => hrest _ s₄ (by grind)) fun _ =>
    .skip fun _ s₄ hs₄ => hrest _ s₄ (by grind)

omit hg in
theorem paramList_sound {one : Parser Param}
    (h : ∀ s', one.Ensures c s' fun p s'' => Placed p.parts s'.token.lo s'') :
    (paramList one).Ensures c s fun ps s' => Placed (ps.flatMap Param.parts) s.token.lo s' := by
  refine .iterate (fun done s' => Placed (done.reverse.flatMap Param.parts) s.token.lo s') .nil
    fun done s₁ hs₁ hdone => ?_
  refine .look (.ite (fun _ => .pure hdone) fun _ => .bind (h s₁) fun p s₂ hs₂ hp => .look ?_)
  have hnew := hdone.concat_reverse hp hs₂ hs₁.2
  exact .ite (fun _ => .skip fun _ s₃ hs₃ => .pure (hnew.later hs₃)) fun _ => .pure hnew

theorem params_sound :
    (params g).Ensures c s fun ps s' => Placed (ps.flatMap Param.parts) s.token.lo s' :=
  paramList_sound fun _ => param_sound hg

/-! ### Functions -/

/-- The expressions of a body, if there is one. -/
theorem body?_sound : (body? g).Ensures c s fun b s' =>
    Placed (b.getD (.block [])).parts s.token.lo s' := by
  unfold body?
  have hblock : ∀ s', s ≤ s' → (do return some (Body.block (← g (.block true)))).Ensures c s'
      fun b s'' => Placed (b.getD (.block [])).parts s.token.lo s'' := by
    intro s' hs'
    exact .bind (hg.block _ _ _) fun sts s₁ _ hsts => .pure (hsts.earlier hs'.2)
  refine .look (.look (.ite (fun _ => ?_) fun _ => hblock s s.le_refl))
  exact .skip fun ended s₁ hs₁ => .ite (fun _ => .pure .nil) fun _ => hblock s₁ hs₁

/-- The expressions of a callable. -/
def Callable.parts (f : Callable) : List Expr := f.params.flatMap Param.parts ++ f.block.parts

omit hg in
/-- A function up to the token taken last. -/
theorem Callable.function_within {f : Callable} {name : Option String} {lo : Nat}
    (h : Placed f.parts lo s) (hlast : lo ≤ s.last) :
    (Expr.function (.upTo lo s.last) name f.params f.block f.types).Within lo s :=
  .closing rfl ⟨Span.upTo_le _ _, trivial⟩ rfl (Nat.le_refl _) hlast h

theorem callable_sound {isAsync isGenerator : Bool} {paramList : Parser (List Param)}
    (h : ∀ c s, paramList.Ensures c s fun ps s' => Placed (ps.flatMap Param.parts) s.token.lo s') :
    (callable g isAsync isGenerator paramList).Ensures c s
      fun f s' => Placed f.parts s.token.lo s' ∧ s.token.lo ≤ s'.last := by
  refine .within fun c => .within fun c => .look ?_
  extract_lets rest
  have hrest : ∀ generics s', s ≤ s' → (rest generics).Ensures c s'
      fun f s'' => Placed f.parts s.token.lo s'' ∧ s.token.lo ≤ s''.last := by
    intro generics s' hs'
    refine .expect fun s₁ hs₁ hlast => .bind (.within fun c => h c s₁) fun ps s₂ hs₂ hps => ?_
    refine .skip fun _ s₃ hs₃ => .skip fun result s₄ hs₄ => ?_
    refine .bind (.within fun _ => body?_sound hg) fun b s₅ hs₅ hb => .pure ⟨?_, by grind⟩
    exact (hps.mono (by grind) (by grind)).append hb hs₅ (by grind)
  exact .ite (fun _ => .skip fun _ s₁ hs₁ => hrest _ s₁ hs₁) fun _ =>
    .skip fun _ s₁ hs₁ => hrest _ s₁ hs₁

theorem method_sound {isAsync isGenerator : Bool} :
    (method g isAsync isGenerator).Ensures c s
      fun f s' => Placed f.parts s.token.lo s' ∧ s.token.lo ≤ s'.last :=
  .within fun _ => callable_sound hg hg.params

theorem functionRest_sound {lo : Nat} (isAsync : Bool) (hlo : lo ≤ s.token.lo) :
    (functionRest g lo isAsync).Ensures c s fun e s' => e.Within lo s' := by
  unfold functionRest
  refine .skip fun isGenerator s₁ hs₁ => .skip fun name s₂ hs₂ => ?_
  refine .bind (.within fun _ => callable_sound hg hg.params) fun f s₃ hs₃ ⟨hf, hlast⟩ => ?_
  refine .ite (fun _ => .failed) fun _ => .look (.pure ?_)
  exact Callable.function_within (hf.earlier (by grind)) (by grind)

theorem arrowBody_sound (isAsync : Bool) :
    (arrowBody g isAsync).Ensures c s fun b s' => Placed b.parts s.token.lo s' := by
  refine .within fun c => .look (.ite (fun _ => ?_) fun _ => ?_)
  · exact .bind (hg.block _ _ _) fun sts s₁ _ hsts => .pure hsts
  · exact .bind (hg.assign _ _) fun e s₁ _ he => .pure he.placed

/-! ### Literals -/

theorem element_sound : (element g).Ensures c s fun a s' => a.Within s.token.lo s' := by
  refine .look (.accept (fun s₁ hs₁ hlast => ?_) ?_)
  · refine .bind (hg.assign _ _) fun e s₂ _ he => .pure ⟨?_, Nat.le_refl _⟩
    exact he.earlier hs₁.2
  · exact .bind (hg.assign _ _) fun e s₂ _ he => .pure he.element

/-- A callee and its arguments. -/
def CallWithin (callee : Expr) (args : List Element) (lo : Nat) (s : State) : Prop :=
  (∀ a ∈ args, a.Fits) ∧ Placed (callee :: args.map Element.value) lo s ∧ lo ≤ s.last

theorem arguments_sound {callee : Expr} {lo : Nat} (hcallee : callee.Within lo s) :
    (arguments g).Ensures c s fun args s' => CallWithin callee args lo s' := by
  refine .expect fun s₁ hs₁ hlast => ?_
  refine (Ensures.commaList (fun es s' => ElementsWithin es s.token.lo s'.token.lo s') .nil
    (fun es s₂ s₃ hs h => h.later hs.2 hs) fun es s₂ hs₂ hes => .within fun c => ?_).mono ?_
  · exact (element_sound hg).mono fun a s₃ hs₃ ha => hes.concat ha hs₃ (by grind)
  · rintro es s₂ hs₂ ⟨s₃, hs₃, hlast₃, hes⟩
    exact ⟨hes.fits, hcallee.placed.append (hes.placed.later hs₃) (by grind) (by grind), by grind⟩

theorem arrayElements_sound :
    (arrayElements g).Ensures c s fun es s' => ElementsWithin es s.token.lo s'.last s' := by
  refine .within fun c =>
    .iterate (fun es s' => ElementsWithin es.reverse s.token.lo s'.token.lo s') .nil
      fun es s₁ hs₁ hes => ?_
  refine .accept (fun s₂ hs₂ hlast => .pure (hes.later (by grind) hs₂)) ?_
  refine .accept (fun s₂ hs₂ _ => .pure (hes.later hs₂.2 hs₂)) ?_
  refine .bind (element_sound hg) fun a s₂ hs₂ ha => ?_
  have hnew := hes.concat ha hs₂ hs₁.2
  rw [← List.reverse_cons] at hnew
  refine .accept (fun s₃ hs₃ _ => .pure (hnew.later hs₃.2 hs₃)) ?_
  exact .expect fun s₃ hs₃ hlast => .pure (hnew.later (by grind) hs₃)

theorem templateParts_sound (tagged : Bool) : (templateParts g tagged).Ensures c s fun p s' =>
    p.1.length = p.2.length + 1 ∧ Placed p.2 s.token.lo s' ∧ s.token.lo ≤ s'.last := by
  refine .iterate (fun p s' => p.1.length = p.2.length ∧ Placed p.2.reverse s.token.lo s')
    ⟨rfl, .nil⟩ ?_
  rintro ⟨chunks, exprs⟩ s₁ hs₁ ⟨hlength, hexprs⟩
  refine .skip fun ⟨text, isLast, place⟩ s₂ hs₂ => .moveTo fun s₃ hs₃ hplace hlast => ?_
  refine .ite (fun _ => .pure ⟨by simpa using hlength, hexprs.later (by grind), by grind⟩) fun _ => ?_
  refine .bind (.within fun c => expression_sound hg) fun e s₄ hs₄ he => .look (.ite (fun _ => ?_) ?_)
  · refine .pure ⟨by simpa using hlength, ?_⟩
    rw [List.reverse_cons]
    exact (hexprs.later (by grind)).append he.placed hs₄ (by grind)
  · exact fun _ => .fail

omit hg in
theorem regex_sound : regex.Ensures c s fun e s' => e.Within s.token.lo s' := by
  refine .look ?_
  split
  · exact .unfinished
  · refine .moveTo fun s₁ hs₁ hplace hlast => .pure ?_
    exact .leaf rfl (⟨·, trivial⟩) rfl rfl (by grind)

/-! ### Members of object literals -/

theorem methodMember_sound {lo : Nat} {key : Key} {isAsync isGenerator : Bool}
    (hlo : lo ≤ s.token.lo) :
    (methodMember g lo key isAsync isGenerator).Ensures c s fun m s' => m.Within lo s' := by
  refine .bind (method_sound hg) fun f s₁ hs₁ ⟨hf, hlast⟩ => .look (.pure ?_)
  exact .closing rfl (⟨·, trivial⟩) (hf.earlier hlo) (fun _ => .nil) (Nat.le_refl _) (by grind)

omit hg in
theorem accessorMember_sound {lo : Nat} {key : Key} {kind : Accessor} (hlo : lo ≤ s.token.lo) :
    (accessorMember g lo kind key).Ensures c s fun m s' => m.Within lo s' := by
  refine .skip fun f s₁ hs₁ => .look (.pure ?_)
  exact .closing rfl (⟨·, trivial⟩) .nil (fun _ => .nil) (Nat.le_refl _) (by grind)

theorem wordMember_sound {lo : Nat} {w : String} (hlo : lo ≤ s.token.lo) :
    (wordMember g lo w).Ensures c s fun m s' => m.Within lo s' := by
  unfold wordMember
  split
  · exact .skip fun key s₁ hs₁ => accessorMember_sound (Nat.le_trans hlo hs₁.2)
  · refine .ite (fun _ => .failed) fun _ => .skip fun isGenerator s₁ hs₁ => .skip fun key s₂ hs₂ => ?_
    exact methodMember_sound hg (by grind)

theorem keyedMember_sound {lo keyLo : Nat} {isName : Bool} {key : Key} (hlo : lo ≤ keyLo)
    (hkey : keyLo ≤ s.last) :
    (keyedMember g lo keyLo isName key).Ensures c s fun m s' => m.Within lo s' := by
  unfold keyedMember
  refine .look (.look (.ite (fun _ => .look (.pure ?_)) fun _ => ?_))
  · exact .ending rfl rfl id (fun use => Member.slotParts_keyed use _ _ _) (Nat.le_refl _)
      (.other (by grind))
  refine .accept (fun s₁ hs₁ _ => ?_) (.look ?_)
  · refine .bind (hg.assign _ _) fun value s₂ hs₂ hvalue => .pure ?_
    exact .ending rfl rfl id (fun use => Member.slotParts_keyed use _ _ _) hlo
      (hvalue.earlier (by grind))
  refine .ite (fun _ => methodMember_sound hg (by grind)) fun _ => ?_
  split
  · next w =>
    refine .look (.skip fun _ s₁ hs₁ => .accept (fun s₂ hs₂ _ => ?_) (.look (.ite (fun _ => ?_) ?_)))
    · refine .bind (hg.assign _ _) fun default s₃ hs₃ hdefault => .look (.pure ?_)
      have hparts : Placed [default] lo s₃ := hdefault.placed.earlier (by grind)
      exact .closing rfl (⟨·, trivial⟩) hparts (fun _ => hparts) (Nat.le_refl _) (by grind)
    · refine .pure ⟨⟨Span.upTo_le _ _, trivial⟩, ⟨.nil, nofun, nofun⟩, .nil, fun _ => .nil, hlo, ?_⟩
      grind [Member.span]
    · exact fun _ => wordMember_sound hg (by grind)
  · exact .fail

theorem member_sound : (member g).Ensures c s fun m s' => m.Within s.token.lo s' := by
  unfold member
  refine .look (.accept (fun s₁ hs₁ hlast => ?_) (.accept (fun s₁ hs₁ hlast => ?_) ?_))
  · refine .bind (hg.assign _ _) fun e s₂ hs₂ he => .pure ?_
    exact .ending rfl rfl id (fun use => Member.slotParts_spread use _ _) (Nat.le_refl _)
      (he.earlier hs₁.2)
  · exact .skip fun key s₂ hs₂ => methodMember_sound hg (by grind)
  · refine .skip fun _ s₁ hs₁ => .look (.bind propertyKey_past fun key s₂ hs₂ hlast => ?_)
    exact (keyedMember_sound hg hs₁.2 (by grind))

theorem members_sound :
    (members g).Ensures c s fun ms s' => MembersWithin ms s.token.lo s'.last s' := by
  refine (Ensures.commaList (fun ms s' => MembersWithin ms s.token.lo s'.token.lo s')
    ⟨.nil, nofun, .nil, fun _ => .nil⟩ (fun ms s₁ s₂ hs h => h.later hs.2 hs)
    fun ms s₁ hs₁ hms => .within fun c => ?_).mono ?_
  · refine (member_sound hg).mono fun m s₂ hs₂ hm => ⟨?_, ?_, ?_, fun use => ?_⟩
    · exact hms.laid.concat (Nat.le_trans hs₁.2 hm.lo_le) hm.lo_le hm.fits.1 hm.hi_le
    · exact List.forall_mem_append.mpr ⟨hms.fits, List.forall_mem_singleton.mpr ⟨hm.fits, hm.holds⟩⟩
    · exact hms.placed.concat (hm.placed.earlier hm.lo_le) hs₂ hs₁.2
    · exact (hms.slots use).concat ((hm.slots use).earlier hm.lo_le) hs₂ hs₁.2
  · rintro ms s₁ hs₁ ⟨s₂, hs₂, hlast, hms⟩
    exact hms.later (by grind) hs₂

end Grammar

end SchemaDoc.Script
