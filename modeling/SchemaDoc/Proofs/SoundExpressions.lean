import SchemaDoc.Proofs.SoundLiterals
import SchemaDoc.Script.Grammar.Expressions

/-!
# Expressions are read soundly

The bodies of the rules for expressions, from operators down to single operands. What is between
parentheses is read before it is known to be arguments, a sequence or the parameters of an arrow
function, so all of it is kept together (`ItemsWithin`) until that shows. Types and markup only leave
references; what they read is skipped over here.
-/

namespace SchemaDoc.Script

open SchemaDoc.Script.Parser (Ensures)

namespace Expr.Within

variable {e inner : Expr} {lo a : Nat} {s s' : State}

/-- Something around an expression, up to the token taken last. -/
theorem wrapped {wrapper : Wrapper} {types : References} (h : inner.Within a s) (hs : s ≤ s')
    (hlo : lo ≤ a) (hlast : a ≤ s'.last) :
    (Expr.wrapped (.upTo a s'.last) wrapper inner types).Within lo s' := by
  refine .closing rfl ⟨Span.upTo_le _ _, fun hc => ?_⟩ rfl hlo hlast (h.placed.later hs)
  have hclosed := h.closed (isWhole_of_isCollection hc)
  exact ⟨h.lo_le, by grind⟩

/-- A call or a construction. -/
theorem call {constructs : Bool} {callee : Expr} {args : List Element} {types : References}
    (hargs : ∀ a ∈ args, a.Fits) (hparts : Placed (callee :: args.map Element.value) a s)
    (hlo : lo ≤ a) (hlast : a ≤ s.last) :
    (Expr.call (.upTo a s.last) constructs callee args types).Within lo s :=
  .closing rfl ⟨Span.upTo_le _ _, hargs⟩ rfl hlo hlast hparts

/-- An array literal up to the token taken last. -/
theorem array {es : List Element} (h : ElementsWithin es a s.last s) (ha : lo ≤ a)
    (hlast : lo ≤ s.last) : (Expr.array (.upTo lo s.last) es).Within lo s := by
  refine .closing rfl ⟨Span.upTo_le _ _, ?_, h.fits⟩ rfl (Nat.le_refl _) hlast ?_
  · exact h.laid.mono ha (Nat.le_max_right _ _)
  · exact h.placed.earlier ha

/-- An object literal up to the token taken last. -/
theorem object {ms : List Member} (h : MembersWithin ms a s.last s) (ha : lo ≤ a)
    (hlast : lo ≤ s.last) : (Expr.object (.upTo lo s.last) ms).Within lo s := by
  refine .closingSlots ⟨Span.upTo_le _ _, ?_, fun m hm => (h.fits m hm).1⟩ rfl (Nat.le_refl _) hlast ?_
    (fun m hm => (h.fits m hm).2) fun use => ?_
  · exact h.laid.mono ha (Nat.le_max_right _ _)
  · exact h.placed.earlier ha
  · exact ((h.slots use).sublist (slotParts_object use _ ms)).earlier ha

/-- An arrow function up to the token taken last. -/
theorem arrow {ps : List Param} {body : Body} {types : References}
    (hparts : Placed (ps.flatMap Param.parts ++ body.parts) a s) (hlo : lo ≤ a)
    (hlast : a ≤ s.last) : (Expr.arrow (.upTo a s.last) ps body types).Within lo s :=
  .closing rfl ⟨Span.upTo_le _ _, trivial⟩ rfl hlo hlast hparts

/-- An assignment up to the token taken last. What it leaves as a pattern is what its left-hand side
does, and the value. -/
theorem assigning {left value : Expr} {build : Span → Expr → Expr} (hleft : left.Within lo s)
    (hvalue : value.Within s.token.lo s') (hs : s ≤ s') (hlast : lo ≤ s'.last)
    (h : left.assignTo = .ok build) : (build (.upTo lo s'.last) value).Within lo s' := by
  have hlo : lo ≤ s.token.lo := by grind
  have hslots (use : PatternUse) : Placed (left.slotParts use ++ [value]) lo s' :=
    ((hleft.slots use).earlier hleft.lo_le).append hvalue.placed hs hlo
  unfold Expr.assignTo at h
  split at h
  case h_3 =>
    split at h
    · cases h
      exact .closingSlots ⟨Span.upTo_le _ _, trivial⟩ rfl (Nat.le_refl _) hlast
        (hleft.placed.append hvalue.placed hs hlo) (List.forall_mem_nil _)
        fun use => (hslots use).sublist (slotParts_assign use _ left value)
    · cases h
  all_goals
    obtain ⟨sl, hsl, h⟩ := exists_of_bind_eq_ok h
    cases h
    have hparts : Placed (sl.pattern.parts ++ [value]) lo s' :=
      (hslots .assignment).sublist ((Slot.pattern_sublist hsl).append (List.Sublist.refl _))
    exact .closingSlots ⟨Span.upTo_le _ _, trivial⟩ rfl (Nat.le_refl _) hlast hparts
      (List.forall_mem_nil _) fun _ => hparts

end Expr.Within

/-- One of the things between parentheses, read from an offset on. -/
def Parenthesized.Within (i : Parenthesized) (lo : Nat) (s : State) : Prop :=
  match i with
  | .element a => a.Within lo s
  | .param _ p => Placed p.parts lo s

/-- Things between parentheses, with arrow functions that have been read again from those before
them. What the things leave as parameters is in order. -/
structure ItemsWithin (items : List Parenthesized) (lo : Nat) (s : State) : Prop where
  sound : ∀ a, .element a ∈ items →
    a.Fits ∧ a.value.Sound ∧ lo ≤ a.lo ∧ a.value.span.hi ≤ s.token.lo
  placed : Placed (items.flatMap Parenthesized.slotParts) lo s
  single : ∀ a, items = [.element a] → a.Within lo s

namespace ItemsWithin

variable {items : List Parenthesized} {i : Parenthesized} {lo lo' : Nat} {s s' : State}

theorem nil : ItemsWithin [] lo s := ⟨nofun, .nil, nofun⟩

theorem mono (h : ItemsWithin items lo s) (hlo : lo' ≤ lo) (hs : s ≤ s') :
    ItemsWithin items lo' s' where
  sound a ha := by
    obtain ⟨hfits, hsound, hstart, hend⟩ := h.sound a ha
    exact ⟨hfits, hsound, Nat.le_trans hlo hstart, Nat.le_trans hend hs.2⟩
  placed := h.placed.mono hlo hs
  single a ha := ⟨(h.single a ha).value.later hs, Nat.le_trans hlo (h.single a ha).lo_le⟩

theorem later (h : ItemsWithin items lo s) (hs : s ≤ s') : ItemsWithin items lo s' :=
  h.mono (Nat.le_refl _) hs

/-- One more thing, read behind the others. -/
theorem concat (h : ItemsWithin items lo s) (hi : i.Within s.token.lo s') (hs : s ≤ s')
    (hlo : lo ≤ s.token.lo) : ItemsWithin (items ++ [i]) lo s' where
  sound a ha := by
    rcases List.mem_append.mp ha with ha | ha
    · exact (h.later hs).sound a ha
    · obtain rfl := List.mem_singleton.mp ha
      exact ⟨hi.value.lo_le, hi.value.tidy.sound, Nat.le_trans hlo hi.lo_le, hi.value.hi_le⟩
  placed := by
    refine h.placed.concat ?_ hs hlo
    cases i with
    | element a =>
      have hstart := Nat.le_trans hi.lo_le hi.value.lo_le
      exact (hi.value.slots .binding).earlier hstart
    | param _ p => exact hi
  single a ha := by
    obtain ⟨-, rfl⟩ := List.append_singleton_inj.mp (show items ++ [i] = [] ++ [.element a] from ha)
    exact ⟨hi.value, Nat.le_trans hlo hi.lo_le⟩

/-- An arrow function that has been read again from the things before it leaves nothing. -/
theorem reread {arrow : Expr} (h : ItemsWithin items lo s) (hne : items ≠ [])
    (hpattern : arrow.isPattern = false) (hsound : arrow.Sound) (hlo : lo ≤ arrow.span.lo)
    (hhi : arrow.span.hi ≤ s.token.lo) : ItemsWithin (items ++ [.element (.plain arrow)]) lo s where
  sound a ha := by
    rcases List.mem_append.mp ha with ha | ha
    · exact h.sound a ha
    · cases List.mem_singleton.mp ha
      exact ⟨Nat.le_refl _, hsound, hlo, hhi⟩
  placed := by
    have hslots : (Parenthesized.element (.plain arrow)).slotParts = [] :=
      arrow.slotParts_eq_nil .binding hpattern
    rw [List.flatMap_append, List.flatMap_singleton, hslots, List.append_nil]
    exact h.placed
  single a ha := by
    exact absurd (List.append_singleton_inj.mp (show items ++ [_] = [] ++ [_] from ha)).1 hne

theorem params {ps : List Param} (h : ItemsWithin items lo s)
    (hps : Parenthesized.params items = .ok ps) : Placed (ps.flatMap Param.parts) lo s :=
  h.placed.sublist (Parenthesized.params_sublist hps)

end ItemsWithin

namespace Grammar

variable {g : Grammar} (hg : g.Sound) {c : Context} {s : State}

/-! ### Operators -/

theorem operator?_pos {inAllowed : Bool} {kind : Kind} {l : Nat} {op : Option BinaryOp}
    (h : operator? inAllowed kind = some (l, op)) : 0 < l := by
  unfold operator? at h
  split at h
  case h_16 =>
    split at h
    all_goals cases h
    decide
  all_goals cases h <;> decide

/-- No type is asserted where an operator comes next. -/
theorem isAnyWord_of_operator {inAllowed : Bool} {t : Token} {w : String} {r : Nat × Option BinaryOp}
    (h : operator? inAllowed t.joined.kind = some r) (hw : t.kind = .name w false) :
    ["as", "satisfies"].contains w = false := by
  have hjoined : t.joined = t := by
    unfold Token.joined
    rw [dif_neg (by simp [hw])]
  rw [hjoined, hw] at h
  rw [Bool.eq_false_iff]
  intro hc
  have hcases : w = "as" ∨ w = "satisfies" := by simpa using hc
  rcases hcases with rfl | rfl <;> cases h

theorem operation_within {op : Option BinaryOp} {left right : Expr} {lo : Nat} (hleft : left.Tidy)
    (hlo : lo ≤ left.span.lo) (hclosed : left.isWhole = true → left.span.hi ≤ s.last)
    (hright : right.Within left.span.hi s) : (operation op left right).Within lo s := by
  have hle := hleft.sound.span_le
  obtain ⟨hgap, hle', hend⟩ := hright.bounds
  unfold operation
  split
  · refine .ending rfl (⟨·, trivial⟩) rfl rfl (show _ = [left] ++ [right] from rfl) hlo ⟨?_, ?_, ?_⟩
    · exact List.forall_mem_cons.mpr ⟨hleft, List.forall_mem_singleton.mpr hright.tidy⟩
    · have hfirst : Laid Expr.span left.span.lo left.span.hi [left] :=
        ⟨List.pairwise_singleton _ _, List.forall_mem_singleton.mpr ⟨Nat.le_refl _, Nat.le_refl _⟩⟩
      exact hfirst.concat (Nat.le_trans hle hgap) hgap hle' hend
    · exact List.forall_mem_cons.mpr ⟨hclosed, List.forall_mem_singleton.mpr hright.closed⟩
  · exact .other ⟨hlo, by omega, hend⟩

theorem assertion?_sound {left : Expr} {level : Nat} (hleft : left.Ready c s level) :
    (assertion? g level left).Ensures c s fun o s' =>
      (∃ e, o = some e ∧ e.Within left.span.lo s') ∨ o = none ∧ s' = s := by
  unfold assertion?
  refine .look (.ite (fun _ => .pure (.inr ⟨rfl, rfl⟩)) fun hword => ?_)
  refine .look (.look (.ite (fun _ => .pure (.inr ⟨rfl, rfl⟩)) fun _ => ?_))
  refine .look (.ite (fun _ => .pure (.inr ⟨rfl, rfl⟩)) fun _ => ?_)
  have hwithin : left.Within left.span.lo s := by
    refine ⟨hleft.tidy, Nat.le_refl _, ?_, hleft.closed, hleft.slots⟩
    rcases hleft.ends with hends | ⟨-, l, op, hop, -⟩
    · exact hends
    -- Behind a missing operand there is an operator, and the word of an assertion is none.
    · split at hword
      · next w hw =>
        rw [isAnyWord_of_operator hop hw] at hword
        exact absurd rfl hword
      · exact absurd rfl hword
  refine .advance fun s₁ hs₁ hlast => .look (.ite (fun _ => ?_) fun _ => ?_)
  · refine .advance fun s₂ hs₂ _ => .look (.pure (.inl ⟨_, rfl, ?_⟩))
    exact .wrapped hwithin (State.le_trans hs₁ hs₂) (Nat.le_refl _) (by grind)
  · refine .skip fun types s₂ hs₂ => .look (.pure (.inl ⟨_, rfl, ?_⟩))
    exact .wrapped hwithin (State.le_trans hs₁ hs₂) (Nat.le_refl _) (by grind)

include hg

theorem operators_sound {left : Expr} {level : Nat} (hleft : left.Ready c s level) :
    (operators g left level).Ensures c s fun e s' => e.Within left.span.lo s' := by
  refine .iterate (fun e s' => left.span.lo ≤ e.span.lo ∧ e.Ready c s' level)
    ⟨Nat.le_refl _, hleft⟩ fun e s₁ hs₁ ⟨hlo, he⟩ => ?_
  refine .bind (assertion?_sound he) ?_
  rintro _ s₂ hs₂ (⟨e', rfl, he'⟩ | ⟨rfl, rfl⟩)
  · exact .pure ⟨Nat.le_trans hlo he'.lo_le, he'.ready c level⟩
  refine .look (.look ?_)
  -- Where no operator is taken, the expression is not a missing one: an operator follows that.
  have hwithin (h : ∀ l op, operator? c.inAllowed s₂.token.joined.kind = some (l, op) → l ≤ level) :
      e.Within left.span.lo s₂ := by
    refine ⟨he.tidy, hlo, ?_, he.closed, he.slots⟩
    rcases he.ends with hends | ⟨-, l, op, hop, hlevel⟩
    · exact hends
    · have := h l op hop
      omega
  split
  · next hnone => exact .pure (hwithin fun l op h => by rw [hnone] at h; cases h)
  · next l op hop =>
    refine .ite (fun hlevel => .pure (hwithin ?_)) fun _ => ?_
    · rintro l' op' hop'
      rw [hop] at hop'
      cases hop'
      exact hlevel
    refine .moveTo fun s₃ hs₃ hplace hlast => .ite (fun _ => .failed) fun _ => ?_
    have hends : e.span.hi ≤ s₃.last := by
      rcases he.ends with hends | ⟨hends, -⟩
      · grind
      · exact Nat.le_trans hends (Nat.le_of_eq hlast.symm)
    refine .bind (hg.unary c s₃) fun first s₄ hs₄ hfirst => ?_
    refine .bind (hg.operators (hfirst.ready c _)) fun right s₅ hs₅ hright => .pure ?_
    have hresult : (operation op e right).Within left.span.lo s₅ := by
      refine operation_within he.tidy hlo (fun _ => by grind) (hright.earlier ?_)
      grind
    exact ⟨hresult.lo_le, hresult.ready c level⟩

/-- What stands in front of operators: an operand, or nothing at all where one of them is. -/
theorem firstOperand_sound : (firstOperand g).Ensures c s fun e s' =>
    e.Within s.token.lo s' ∨ e.isArrow = false ∧ s.token.lo ≤ e.span.lo ∧ e.Ready c s' 0 := by
  refine .look (.bind (.recover (hg.unary _ _)) fun r s₁ hs₁ hr => ?_)
  split
  · next e => exact .pure (.inl (hr e rfl))
  · next span =>
    refine .look (.ite (fun _ => .failed) fun _ => .look (.ite (fun hop => .pure (.inr ?_)) ?_))
    · obtain ⟨⟨l, op⟩, hop⟩ := Option.isSome_iff_exists.mp hop
      have hjoined : s₁.token.lo ≤ s₁.token.joined.hi := by
        rw [← Token.joined_lo]
        exact Token.lo_le_hi _
      have hlo : s.token.lo ≤ s₁.token.joined.hi := Nat.le_trans hs₁.2 hjoined
      refine ⟨rfl, ?_, .mk ⟨?_, trivial⟩ ⟨.nil, nofun, nofun⟩ nofun nofun, nofun, fun use => ?_,
        .inr ⟨?_, l, op, hop, operator?_pos hop⟩⟩
      case refine_3 =>
        rw [Expr.slotParts_eq_nil use rfl]
        exact .nil
      all_goals grind [Expr.span, Span.clip]
    · exact fun _ => .failAt

theorem binary_sound : (binary g).Ensures c s fun e s' => e.Within s.token.lo s' := by
  refine .bind (firstOperand_sound hg) fun first s₁ hs₁ hfirst => ?_
  refine .ite (fun harrow => .pure ?_) fun _ => ?_
  · rcases hfirst with hfirst | ⟨hfirst, -⟩
    · exact hfirst
    · exact absurd (hfirst.symm.trans harrow) nofun
  · have hready : s.token.lo ≤ first.span.lo ∧ first.Ready c s₁ 0 := by
      rcases hfirst with hfirst | ⟨-, hfirst⟩
      · exact ⟨hfirst.lo_le, hfirst.ready c 0⟩
      · exact hfirst
    exact (hg.operators hready.2).mono fun e s₂ _ he => he.earlier hready.1

theorem conditionalRest_sound {lo : Nat} {test : Expr} (htest : test.Within lo s) :
    (conditionalRest g lo test).Ensures c s fun e s' => e.Within lo s' := by
  refine .skip fun _ s₁ hs₁ => ?_
  refine .bind (.within fun c => .within fun c => hg.assign c s₁) fun yes s₂ hs₂ hyes => ?_
  refine .skip fun _ s₃ hs₃ => ?_
  refine .bind (.within fun c => hg.assign c s₃) fun no s₄ hs₄ hno => .pure ?_
  have hresults : Placed ([yes] ++ [no]) s₁.token.lo s₄ :=
    (hyes.placed.later hs₃).append hno.placed hs₄ (by grind)
  refine .ending rfl (⟨·, trivial⟩) rfl rfl (show _ = [test, yes] ++ [no] from rfl) (Nat.le_refl _) ?_
  exact (htest.placed.later hs₁).append hresults (by grind) (by grind)

theorem conditional_sound : (conditional g).Ensures c s fun e s' => e.Within s.token.lo s' := by
  refine .look (.bind (binary_sound hg) fun test s₁ hs₁ htest => .look ?_)
  exact .ite (fun _ => .pure htest) fun _ => conditionalRest_sound hg htest

theorem assignRest_sound {lo : Nat} {left : Expr} (hleft : left.Within lo s) :
    (assignRest g lo left).Ensures c s fun e s' => e.Within lo s' := by
  refine .look ?_
  extract_lets t
  split
  · refine .ofExcept fun build hbuild => .advance fun s₁ hs₁ hlast => ?_
    refine .bind (hg.assign _ _) fun value s₂ hs₂ hvalue => ?_
    exact .look (.pure (.assigning (hleft.later hs₁) hvalue hs₂ (by grind) hbuild))
  · refine .ite (fun _ => .pure hleft) fun _ => .ite (fun _ => .failedAt) fun _ => ?_
    refine .skip fun _ s₁ hs₁ => .bind (hg.assign _ _) fun value s₂ hs₂ hvalue => .look (.pure ?_)
    exact .other (by grind)
  · exact .pure hleft

/-! ### Between parentheses -/

omit hg in
theorem withDefault_sublist (default : Expr) (p : Param) :
    (withDefault default p).parts.Sublist (p.parts ++ [default]) := by
  unfold withDefault
  split
  · simp only [Param.parts, Option.toList_some, Option.toList_none, List.append_nil]
    exact List.Sublist.refl _
  · exact List.sublist_append_right _ _

omit hg in
theorem elementParam_sublist (types : References) (sl : Slot) (e : Element) :
    (withTypes types (elementParam sl e)).parts.Sublist sl.parts := by
  have htypes (p : Param) : (withTypes types p).parts = p.parts := by
    cases p
    rfl
  rw [htypes]
  cases e with
  | plain _ => exact List.Sublist.refl _
  | spread _ _ => exact sl.restParam_sublist

theorem typedParam_sound {lo lo' : Nat} {e : Element} (he : e.value.Within lo s) :
    (typedParam g lo' e).Ensures c s fun i s' => i.Within lo s' := by
  unfold typedParam
  refine .ofExcept fun sl hslot => ?_
  have hsl := (he.slots .binding).earlier he.lo_le
  rw [Expr.slotParts, hslot] at hsl
  extract_lets rest
  have hrest : ∀ types s', s ≤ s' → (rest types).Ensures c s' fun i s'' => i.Within lo s'' := by
    intro types s' hs'
    have hp := (hsl.sublist (elementParam_sublist types sl e)).later hs'
    refine .accept (fun s₂ hs₂ _ => ?_) (.pure hp)
    refine .bind (hg.assign _ _) fun default s₃ hs₃ hd => .pure ?_
    exact ((hp.later hs₂).append hd.placed hs₃ (by grind)).sublist (withDefault_sublist default _)
  exact .ite (fun _ => .skip fun _ s₂ hs₂ => hrest _ s₂ hs₂) fun _ =>
    .skip fun _ s₂ hs₂ => hrest _ s₂ hs₂

theorem parenElement_sound {lo : Nat} (hlo : lo ≤ s.token.lo) :
    (parenElement g lo).Ensures c s fun a s' => a.Within lo s' := by
  unfold parenElement
  have helement : ∀ s', s ≤ s' → (element g).Ensures c s' fun a s'' => a.Within lo s'' := by
    intro s' hs'
    refine (element_sound hg).mono fun a s₁ _ ha => ⟨ha.value, ?_⟩
    grind [Element.Within]
  refine .look (.ite (fun _ => helement s s.le_refl) fun _ => .look (.look ?_))
  refine .skip fun named s₁ hs₁ => .ite (fun _ => ?_) fun _ => ?_
  · refine .advance fun s₂ hs₂ hlast => .bind (binary_sound hg) fun e s₃ hs₃ he => .pure ⟨?_, hlo⟩
    exact he.earlier (Nat.le_trans hs₁.2 hs₂.2)
  · refine .skip fun named s₂ hs₂ => .ite (fun _ => ?_) fun _ => helement s₂ (State.le_trans hs₁ hs₂)
    refine .bind (binary_sound hg) fun left s₃ hs₃ hleft => ?_
    have hlo₂ : lo ≤ s₂.token.lo := by grind
    refine .bind (assignRest_sound hg (hleft.earlier hlo₂)) fun e s₄ hs₄ he => ?_
    exact .pure he.element

theorem optionalElement_sound {lo : Nat} {e : Element} (he : e.Within lo s) :
    (optionalElement g lo e).Ensures c s fun r s' => r.1.Within lo s' := by
  have hlater : ∀ s', s ≤ s' → e.Within lo s' := fun s' hs' => ⟨he.value.later hs', he.lo_le⟩
  refine .look (.look (.ite (fun _ => .pure he) fun _ => .look (.ite (fun _ => ?_) fun _ => ?_)))
  · refine .skip fun _ s₁ hs₁ => ?_
    split
    · exact .pure (hlater s₁ hs₁)
    · exact .failAt
  · cases e with
    | plain test =>
      have htest := he.value.earlier he.lo_le
      exact .bind (conditionalRest_sound hg htest) fun e s₁ hs₁ he => .pure he.element
    | spread lo' value => exact .pure he

theorem parenItem_sound : (parenItem g).Ensures c s fun i s' => i.Within s.token.lo s' := by
  refine .look (.within fun c => .skip fun _ s₁ hs₁ => .look ?_)
  refine .bind (parenElement_sound hg hs₁.2) fun e s₂ hs₂ he => ?_
  refine .bind (optionalElement_sound hg he) ?_
  rintro ⟨e', isOptional⟩ s₃ hs₃ he'
  refine .look (.look (.ite (fun _ => ?_) fun _ => .pure he'))
  exact typedParam_sound hg (he'.value.earlier he'.lo_le)

/-- An arrow function may follow on its parameters before the parentheses around both are closed.
What has been read so far is then read again as its parameters, and stays as it is besides. -/
theorem parenItems_sound : (parenItems g).Ensures c s fun items s' =>
    ItemsWithin items s.token.lo s' ∧ s.token.lo ≤ s'.last := by
  refine .expect fun s₁ hs₁ hlast => .within fun c => ?_
  refine .iterate (fun done s' => ItemsWithin done.reverse s.token.lo s') .nil
    fun done s₂ hs₂ hdone => ?_
  refine .accept (fun s₃ hs₃ _ => .pure ⟨hdone.later hs₃, by grind⟩) (.look ?_)
  refine .bind (parenItem_sound hg) fun i s₃ hs₃ hi => ?_
  have hnew : ItemsWithin (i :: done).reverse s.token.lo s₃ := by
    rw [List.reverse_cons]
    exact hdone.concat hi hs₃ (by grind)
  refine .skip fun isArrow s₄ hs₄ => ?_
  extract_lets rest
  have hrest (done : List Parenthesized) (s' : State) (hs' : s₂ ≤ s')
      (h : ItemsWithin done.reverse s.token.lo s') : (rest done).Ensures c s' fun r s'' =>
        r.elim (ItemsWithin ·.reverse s.token.lo s'')
          fun items => ItemsWithin items s.token.lo s'' ∧ s.token.lo ≤ s''.last := by
    refine .accept (fun s₅ hs₅ _ => .pure (h.later hs₅)) ?_
    exact .expect fun s₅ hs₅ _ => .pure ⟨h.later hs₅, by grind⟩
  refine .ite (fun _ => ?_) fun _ => hrest _ s₄ (by grind) (hnew.later hs₄)
  refine .ofExcept fun ps hps => .bind (arrowBody_sound hg false) fun body s₅ hs₅ hbody => .look ?_
  have hparts := ((hnew.later hs₄).params hps).append hbody hs₅ (by grind)
  refine hrest _ s₅ (by grind) ?_
  rw [List.reverse_cons]
  refine (hnew.later (by grind)).reread (by simp) rfl ⟨⟨Span.upTo_le _ _, trivial⟩, ?_⟩ ?_ ?_
  · exact fun e he => (hparts.tidy e he).sound
  · grind [Expr.span]
  · grind [Expr.span]

/-! ### Behind parentheses -/

theorem conditionalArrow_sound {lo : Nat} {isAsync : Bool} {items : List Parenthesized}
    (hlo : lo ≤ s.token.lo) (hitems : ItemsWithin items lo s) :
    (conditionalArrow g lo isAsync items).Ensures c s fun o s' => ∀ e ∈ o, e.Within lo s' := by
  refine .skip fun result s₁ hs₁ => .expect fun s₂ hs₂ hlast => ?_
  refine .ofExcept fun ps hps => .bind (arrowBody_sound hg isAsync) fun body s₃ hs₃ hbody => ?_
  refine .look (.look (.ite (fun _ => .pure nofun) fun _ => .look (.pure ?_)))
  rintro _ ⟨⟩
  have hparams := (hitems.later (State.le_trans hs₁ hs₂)).params hps
  exact .arrow (hparams.append hbody hs₃ (by grind)) (Nat.le_refl _) (by grind)

theorem arrowRest_sound {lo : Nat} {isAsync : Bool} {items : List Parenthesized} {result : References}
    (hlo : lo ≤ s.token.lo) (hitems : ItemsWithin items lo s) :
    (arrowRest g lo isAsync items result).Ensures c s fun e s' => e.Within lo s' := by
  refine .expect fun s₁ hs₁ hlast => .ofExcept fun ps hps => ?_
  refine .bind (arrowBody_sound hg isAsync) fun body s₂ hs₂ hbody => .look ?_
  have hparams := (hitems.later hs₁).params hps
  have harrow : (Expr.arrow (.upTo lo s₂.last) ps body result).Within lo s₂ :=
    .arrow (hparams.append hbody hs₂ (by grind)) (Nat.le_refl _) (by grind)
  extract_lets arrow
  split
  · exact .look (.ite (fun _ => hg.operators (harrow.ready c 0)) fun _ => .pure harrow)
  · exact .pure harrow

omit hg in
theorem eq_map_of_plainElements {elements : List Element} {es : List Expr}
    (h : plainElements elements = .ok es) : elements = es.map .plain := by
  fun_induction plainElements elements generalizing es with
  | case1 =>
    cases h
    rfl
  | case2 e elements ih =>
    obtain ⟨es', hes, h⟩ := exists_of_bind_eq_ok h
    cases h
    rw [ih hes, List.map_cons]
  | case3 => cases h

omit hg in
theorem parenthesized_sound {lo : Nat} {elements : List Element} (hlast : lo ≤ s.last)
    (hitems : ItemsWithin (elements.map .element) lo s) :
    (parenthesized lo elements).Ensures c s fun e s' => e.Within lo s' := by
  refine .look (.ofExcept fun es hes => ?_)
  obtain rfl := eq_map_of_plainElements hes
  have helement (e : Expr) (he : e ∈ es) :
      lo ≤ e.span.lo ∧ e.span.lo ≤ e.span.hi ∧ e.span.hi ≤ s.token.lo := by
    obtain ⟨-, hsound, hlo, hhi⟩ :=
      hitems.sound (.plain e) (List.mem_map_of_mem (List.mem_map_of_mem he))
    exact ⟨hlo, hsound.span_le, hhi⟩
  split
  · exact .failAt
  · next e =>
    have he := hitems.single (.plain e) rfl
    exact .pure (.wrapped (he.value.earlier he.lo_le) s.le_refl (Nat.le_refl _) hlast)
  · next first rest _ =>
    have hfirst := helement first (.head _)
    have hend : (rest.getLast?.getD first).span.hi ≤ s.token.lo := by
      cases hlast : rest.getLast? with
      | none => exact hfirst.2.2
      | some e => exact (helement e (.tail _ (List.mem_of_getLast? hlast))).2.2
    exact .pure (.wrapped (.other (by grind)) s.le_refl (Nat.le_refl _) hlast)

omit hg in
theorem eq_map_of_elements {items : List Parenthesized} {elements : List Element}
    (h : Parenthesized.elements items = .ok elements) : items = elements.map .element := by
  fun_induction Parenthesized.elements items generalizing elements with
  | case1 =>
    cases h
    rfl
  | case2 a items ih =>
    obtain ⟨elements', helements, h⟩ := exists_of_bind_eq_ok h
    cases h
    rw [ih helements, List.map_cons]
  | case3 => cases h

omit hg in
/-- The arguments of `async` are sound, but some may have been read twice. -/
theorem asyncCall_within {lo : Nat} {elements : List Element} (hlast : lo ≤ s.last)
    (hitems : ItemsWithin (elements.map .element) lo s) :
    (Expr.call (.upTo lo s.last) false (.ident ⟨lo, lo + 5⟩ "async") elements []).Within lo s := by
  have helement (a : Element) (ha : a ∈ elements) := hitems.sound a (List.mem_map_of_mem ha)
  have hcallee : (Expr.ident ⟨lo, lo + 5⟩ "async").Sound := ⟨⟨Nat.le_add_right _ _, trivial⟩, nofun⟩
  refine ⟨.async rfl ⟨⟨Span.upTo_le _ _, fun a ha => (helement a ha).1⟩, ?_⟩, Nat.le_refl _, ?_, ?_,
    fun use => ?_⟩
  · exact List.forall_mem_cons.mpr ⟨hcallee, List.forall_mem_map.mpr fun a ha => (helement a ha).2.1⟩
  · grind [Expr.span]
  · grind [Expr.span]
  · rw [Expr.slotParts_eq_nil use rfl]
    exact .nil

/-- Parentheses with all that belongs to them: an arrow function, the arguments of `async`, or a
wrapper. -/
theorem parentheses_sound {lo : Nat} {isAsync : Bool} (hlo : lo ≤ s.token.lo) :
    (parentheses g lo isAsync).Ensures c s fun e s' => e.Within lo s' := by
  refine .look ?_
  extract_lets mayBeArrow
  refine .bind (parenItems_sound hg) fun items s₁ hs₁ ⟨hitems, hlast⟩ => .look (.look (.look ?_))
  have hlater (s' : State) (hs' : s₁ ≤ s') : ItemsWithin items lo s' := hitems.mono hlo hs'
  extract_lets rest
  have hrest (s' : State) (hs' : s₁ ≤ s') : (rest ()).Ensures c s' fun e s'' => e.Within lo s'' := by
    refine .skip fun result s₂ hs₂ => .look (.ite (fun _ => .look (.ite (fun _ => ?_) fun _ => ?_)) ?_)
    · exact .failedAt
    · exact arrowRest_sound hg (by grind) (hlater s₂ (State.le_trans hs' hs₂))
    · refine fun _ => .ofExcept fun elements h => ?_
      obtain rfl := eq_map_of_elements h
      have helements := hlater s₂ (State.le_trans hs' hs₂)
      refine .ite (fun _ => .look (.pure ?_)) fun _ => parenthesized_sound (by grind) helements
      exact asyncCall_within (by grind) helements
  have hconditional : (conditionalArrow g lo isAsync items).Ensures c s₁ fun o s' =>
      ∀ e ∈ o, e.Within lo s' := conditionalArrow_sound hg (by grind) (hlater s₁ (State.le_refl _))
  refine .ite (fun _ => .bind (.attempt hconditional) fun o s₂ hs₂ ho => ?_) fun _ =>
    hrest s₁ (State.le_refl _)
  cases o with
  | none => exact hrest s₂ hs₂
  | some e => exact .pure (ho e rfl)

theorem nameArrow_sound {lo : Nat} {isAsync : Bool} {name : String} (hlo : lo ≤ s.token.lo) :
    (nameArrow g lo isAsync name).Ensures c s fun e s' => e.Within lo s' := by
  refine .expect fun s₁ hs₁ hlast => .bind (arrowBody_sound hg isAsync) fun body s₂ hs₂ hbody => ?_
  exact .look (.pure (.arrow (hbody.earlier (by grind)) (Nat.le_refl _) (by grind)))

theorem genericAsyncArrow_sound {lo : Nat} (hlo : lo ≤ s.token.lo) :
    (genericAsyncArrow g lo).Ensures c s fun e s' => e.Within lo s' := by
  refine .skip fun generics s₁ hs₁ => .expect fun s₂ hs₂ hlast => ?_
  refine .bind (hg.params _ _) fun ps s₃ hs₃ hps => .skip fun _ s₄ hs₄ => ?_
  refine .skip fun result s₅ hs₅ => .skip fun _ s₆ hs₆ => ?_
  refine .bind (arrowBody_sound hg true) fun body s₇ hs₇ hbody => .look (.pure ?_)
  have hparts : Placed (ps.flatMap Param.parts ++ body.parts) lo s₇ :=
    (hps.mono (by grind) (by grind)).append hbody hs₇ (by grind)
  exact .arrow hparts (Nat.le_refl _) (by grind)

/-! ### Operands -/

theorem nameOperand_sound : (nameOperand g).Ensures c s fun e s' => e.Within s.token.lo s' := by
  refine .look (.look ?_)
  extract_lets mayBeArrow
  refine .name fun w s₁ hs₁ hlast => ?_
  extract_lets operand rest
  have hoperand : operand.Within s.token.lo s₁ := .leaf rfl (⟨·, trivial⟩) rfl rfl (by grind)
  refine .look (.ite (fun _ => .pure hoperand) fun _ => .skip fun named s₂ hs₂ => ?_)
  refine .ite (fun _ => ?_) fun _ => .look ?_
  · have hrest : (rest ()).Ensures c s₂ fun e s' => e.Within s.token.lo s' := by
      refine .name fun param s₃ hs₃ _ => .look (.look (.ite (fun _ => ?_) fun _ => ?_))
      · refine .skip fun types s₄ hs₄ => .look (.pure ?_)
        exact .wrapped hoperand (by grind) (Nat.le_refl _) (by grind)
      · exact nameArrow_sound hg (by grind)
    refine .look (.look (.ite (fun _ => .look (.ite (fun _ => ?_) fun _ => hrest)) fun _ => hrest))
    exact .pure (hoperand.later hs₂)
  · exact .ite (fun _ => nameArrow_sound hg (by grind)) fun _ => .pure (hoperand.later hs₂)

theorem asyncOperand_sound : (asyncOperand g).Ensures c s fun e s' => e.Within s.token.lo s' := by
  refine .look (.look ?_)
  extract_lets mayBeArrow
  refine .look (.ite (fun _ => ?_) fun _ => .look ?_)
  · exact .skip fun _ s₁ hs₁ => .skip fun _ s₂ hs₂ => functionRest_sound hg true (by grind)
  extract_lets rest
  have hrest (s' : State) (hs' : s ≤ s') :
      (rest ()).Ensures c s' fun e s'' => e.Within s.token.lo s'' := by
    refine .ite (fun _ => .skip fun _ s₁ hs₁ => parentheses_sound hg (by grind)) fun _ => ?_
    exact (nameOperand_sound hg).mono fun e s₁ _ he => he.earlier hs'.2
  refine .ite (fun _ => .bind (.attempt (Q := fun e s' => e.Within s.token.lo s') ?_)
    fun o s₁ hs₁ ho => ?_) fun _ => hrest s s.le_refl
  · refine .skip fun _ s₁ hs₁ => .map (genericAsyncArrow_sound hg hs₁.2) fun e s₂ _ he => ?_
    rintro _ ⟨⟩
    exact he
  · cases o with
    | none => exact hrest s₁ hs₁
    | some e => exact .pure (ho e rfl)

theorem wordOperand_sound (w : String) :
    (wordOperand g w).Ensures c s fun e s' => e.Within s.token.lo s' := by
  have hname (s' : State) (hs' : s ≤ s') :
      (nameOperand g).Ensures c s' fun e s'' => e.Within s.token.lo s'' :=
    (nameOperand_sound hg).mono fun e s₁ _ he => he.earlier hs'.2
  refine .look ?_
  split
  case h_5 => exact asyncOperand_sound hg
  case h_6 => exact .skip fun _ s₁ hs₁ => functionRest_sound hg false hs₁.2
  case h_7 =>
    refine .skip fun _ s₁ hs₁ => .skip fun refs s₂ hs₂ => .look (.pure ?_)
    exact .other (by grind)
  case h_8 => exact .skip fun _ s₁ hs₁ => .ite (fun _ => hname s₁ hs₁) fun _ => .fail
  case h_4 => exact .skip fun _ s₁ hs₁ => .look (.pure (.other (by grind)))
  all_goals
    refine .advance fun s₁ hs₁ hlast => .look (.pure ?_)
    exact .leaf rfl (⟨·, trivial⟩) rfl rfl (by grind)

theorem operand_sound : (operand g).Ensures c s fun e s' => e.Within s.token.lo s' := by
  refine .look ?_
  split
  case h_5 => exact regex_sound
  case h_6 => exact regex_sound
  case h_7 =>
    refine .bind (templateParts_sound hg false) ?_
    rintro ⟨chunks, exprs⟩ s₁ hs₁ ⟨hlength, hexprs, hlast⟩
    exact .look (.pure (.closing rfl ⟨Span.upTo_le _ _, hlength⟩ rfl (Nat.le_refl _) hlast hexprs))
  case h_8 => exact parentheses_sound hg (Nat.le_refl _)
  case h_9 =>
    refine .advance fun s₁ hs₁ hlast => .bind (arrayElements_sound hg) fun es s₂ hs₂ hes => ?_
    exact .look (.pure (.array hes (by grind) (by grind)))
  case h_10 =>
    refine .advance fun s₁ hs₁ hlast => .bind (members_sound hg) fun ms s₂ hs₂ hms => ?_
    exact .look (.pure (.object hms (by grind) (by grind)))
  case h_11 => exact nameOperand_sound hg
  case h_12 => exact wordOperand_sound hg _
  case h_13 => exact .fail
  case h_4 => exact .advance fun s₁ hs₁ _ => .pure (.other (by grind))
  all_goals
    exact .advance fun s₁ hs₁ _ => .pure (.leaf rfl (⟨·, trivial⟩) rfl rfl (by grind))

/-! ### Chains -/

omit hg in
theorem instantiated_sound {e : Expr} {lo : Nat} (he : e.Within lo s) :
    (instantiated g e).Ensures c s fun e' s' => e'.Within lo s' := by
  refine .look (.look (.ite (fun _ => .pure he) fun _ => .skip fun o s₁ hs₁ => ?_))
  cases o with
  | none => exact .pure (he.later hs₁)
  | some types => exact .look (.pure (.other (by grind)))

omit hg in
theorem readProperty_sound {isOptional : Bool} {e : Expr} {p : Property} {lo : Nat}
    (he : e.Within lo s) (hlast : e.span.hi ≤ s.last) :
    (readProperty g isOptional e p).Ensures c s fun e' s' => e'.Within lo s' := by
  refine .look (instantiated_sound ?_)
  split
  · exact .other (by grind)
  · exact .closing rfl ⟨Span.upTo_le _ _, trivial⟩ rfl he.lo_le (by grind) he.self.placed

omit hg in
theorem callOf_sound {lo : Nat} {isChain : Bool} {e : Expr} {args : List Element}
    {types : References} (h : CallWithin e args lo s) :
    (callOf lo isChain e args types).Ensures c s fun e' s' => e'.Within lo s' := by
  obtain ⟨hfits, hplaced, hlast⟩ := h
  refine .look (.ite (fun _ => .pure ?_) fun _ => .pure (.call hfits hplaced (Nat.le_refl _) hlast))
  exact .other (by grind)

omit hg in
theorem tagged_sound {e : Expr} {types : References} {lo : Nat} (he : e.Within lo s) :
    (tagged g e types).Ensures c s fun e' s' => e'.Within lo s' :=
  .skip fun parts s₁ hs₁ => .look (.pure (.other (by grind)))

theorem optionalStep_sound {e : Expr} {lo : Nat} (he : e.Within lo s) :
    (optionalStep g lo e).Ensures c s fun e' s' => e'.Within lo s' := by
  refine .expect fun s₁ hs₁ hlast => .look ?_
  split
  · refine .skip fun _ s₂ hs₂ => .skip fun key s₃ hs₃ => ?_
    exact readProperty_sound (he.later (by grind)) (by grind)
  · exact .bind (arguments_sound hg (he.later hs₁)) fun args s₂ _ hargs => callOf_sound hargs
  · refine .look (.ite (fun _ => .failed) fun _ => .skip fun types s₂ hs₂ => ?_)
    refine .bind (arguments_sound hg (he.later (by grind))) fun args s₃ _ hargs => ?_
    exact callOf_sound hargs
  · exact .skip fun p s₂ hs₂ => readProperty_sound (he.later (by grind)) (by grind)

theorem typedStep_sound {calls : Bool} {e : Expr} {lo : Nat} (he : e.Within lo s) :
    (typedStep g calls lo e).Ensures c s fun o s' =>
      ∀ r ∈ o, r.elim (·.Within lo s') (·.Within lo s') := by
  refine .skip fun types s₁ hs₁ => .look ?_
  have hother : (do return some (.inr (.other (← Parser.spanFrom lo) .instantiation
      (e.references ++ types))) : Parser (Option (Expr ⊕ Expr))).Ensures c s₁ fun o s' =>
        ∀ r ∈ o, r.elim (·.Within lo s') (·.Within lo s') := by
    refine .look (.pure ?_)
    rintro _ ⟨⟩
    exact .other (by grind)
  split
  · refine .ite (fun _ => .pure nofun) fun _ => ?_
    refine .bind (arguments_sound hg (he.later hs₁)) fun args s₂ _ hargs => ?_
    refine .bind (callOf_sound hargs) fun e' s₃ _ he' => .pure ?_
    rintro _ ⟨⟩
    exact he'
  · refine .bind (tagged_sound (he.later hs₁)) fun e' s₂ hs₂ he' => .pure ?_
    rintro _ ⟨⟩
    exact he'
  · exact hother
  · exact hother
  · exact hother
  · exact .pure nofun

/-- A step of a chain starts where the chain does. -/
theorem chainStep_sound {calls : Bool} {e : Expr} {lo : Nat} (he : e.Within lo s) :
    (chainStep g calls lo e).Ensures c s fun r s' => r.elim (·.Within lo s') (·.Within lo s') := by
  have hread {s₁ s₂ : State} (p : Property) (hs₁ : s ≤ s₁) (hlast : s.token.hi ≤ s₁.last)
      (hs₂ : s₁ ≤ s₂) : (do return .inl (← readProperty g false e p) : Parser (Expr ⊕ Expr)).Ensures
        c s₂ fun r s' => r.elim (·.Within lo s') (·.Within lo s') :=
    .bind (readProperty_sound (he.later (by grind)) (by grind)) fun e' s₃ _ he' => .pure he'
  refine .look ?_
  split
  · exact .advance fun s₁ hs₁ hlast => .skip fun p s₂ hs₂ => hread p hs₁ hlast hs₂
  · refine .look (.ite (fun _ => .pure he) fun _ => .skip fun _ s₁ hs₁ => ?_)
    exact .bind (optionalStep_sound hg (he.later hs₁)) fun e' s₂ _ he' => .pure he'
  · exact .advance fun s₁ hs₁ hlast => .skip fun key s₂ hs₂ => hread _ hs₁ hlast hs₂
  · refine .ite (fun _ => .pure he) fun _ => .bind (arguments_sound hg he) fun args s₁ _ hargs => ?_
    exact .bind (callOf_sound hargs) fun e' s₂ _ he' => .pure he'
  · exact .bind (tagged_sound he) fun e' s₁ _ he' => .pure he'
  · refine .look (.ite (fun _ => .pure he) fun _ => .advance fun s₁ hs₁ hlast => .look (.pure ?_))
    exact .wrapped he hs₁ (Nat.le_refl _) (by grind)
  · refine .look (.ite (fun _ => .pure he) fun _ => ?_)
    refine .bind (.attempt (typedStep_sound hg he)) fun o s₁ hs₁ ho => ?_
    cases o with
    | none => exact .pure (he.later hs₁)
    | some r => exact .pure (ho r rfl)
  · exact .pure he

theorem chain_sound {calls : Bool} {e : Expr} {lo : Nat} (he : e.Within lo s) :
    (chain g calls e).Ensures c s fun e' s' => e'.Within lo s' := by
  refine .iterate (fun e' s' => e'.Within e.span.lo s') he.self fun e' s₁ hs₁ he' => ?_
  refine (chainStep_sound hg he').mono fun r s₂ hs₂ hr => ?_
  cases r with
  | inl e'' => exact hr
  | inr e'' => exact hr.earlier he.lo_le

/-! ### Operands that are only something together with what follows -/

theorem superOperand_sound (calls : Bool) :
    (superOperand g calls).Ensures c s fun e s' => e.Within s.token.lo s' := by
  refine .look (.skip fun _ s₁ hs₁ => .look (.look ?_))
  extract_lets allowed
  refine .look ?_
  split
  · refine .ite (fun _ => .failed) fun _ => .skip fun args s₂ hs₂ => .look (chain_sound hg ?_)
    exact .other (by grind)
  · refine .skip fun _ s₂ hs₂ => .skip fun p s₃ hs₃ => ?_
    split
    · exact .failAt
    · refine .ite (fun _ => .failedAt) fun _ => .look ?_
      refine .bind (instantiated_sound (.other ?_)) fun e s₄ _ he => chain_sound hg he
      grind
  · refine .skip fun _ s₂ hs₂ => .skip fun key s₃ hs₃ => .ite (fun _ => .failedAt) fun _ => .look ?_
    refine .bind (instantiated_sound (.other ?_)) fun e s₄ _ he => chain_sound hg he
    grind
  · exact .look (.ite (fun _ => .failAt) fun _ => .fail)
  · exact .fail

theorem importOperand_sound (calls : Bool) :
    (importOperand g calls).Ensures c s fun e s' => e.Within s.token.lo s' := by
  unfold importOperand
  refine .look (.skip fun _ s₁ hs₁ => ?_)
  extract_lets arguments rest
  have hrest (s' : State) (hs' : s ≤ s') :
      (rest ()).Ensures c s' fun e s'' => e.Within s.token.lo s'' := by
    refine .ite (fun _ => .failed) fun _ => .skip fun args s₂ hs₂ => .look (chain_sound hg ?_)
    exact .other (by grind)
  refine .accept (fun s₂ hs₂ _ => .skip fun w s₃ hs₃ => ?_) (hrest s₁ hs₁)
  refine .ite (fun _ => .look (chain_sound hg (.other (by grind)))) fun _ => ?_
  exact .ite (fun _ => .failed) fun _ => hrest s₃ (by grind)

theorem construct_sound : (construct g).Ensures c s fun e s' => e.Within s.token.lo s' := by
  unfold construct
  refine .look (.look (.ite (fun _ => superOperand_sound hg false) fun _ => ?_))
  refine .look (.ite (fun _ => importOperand_sound hg false) fun _ => ?_)
  refine .acceptWord (fun s₁ hs₁ hlast => .accept (fun s₂ hs₂ _ => ?_) ?_) ?_
  · refine .skip fun _ s₃ hs₃ => .look (chain_sound hg (.other (by grind)))
  · refine .bind (hg.construct _ _) fun callee s₂ hs₂ hcallee => ?_
    have hnew := hcallee.earlier hs₁.2
    refine .ite (fun _ => .pure hnew) fun _ => .ite (fun _ => .failedAt) fun _ => ?_
    refine .skip fun types s₃ hs₃ => .look (.ite (fun _ => .look (.pure ?_)) fun _ => ?_)
    · exact .call nofun (hnew.placed.later hs₃) (Nat.le_refl _) (by grind)
    · refine .bind (arguments_sound hg (hnew.later hs₃)) fun args s₄ _ hargs => .look ?_
      exact chain_sound hg (.call hargs.1 hargs.2.1 (Nat.le_refl _) hargs.2.2)
  · refine .bind (operand_sound hg) fun e s₁ hs₁ he => .ite (fun _ => .pure he) fun _ => ?_
    exact .bind (instantiated_sound he) fun e' s₂ _ he' => chain_sound hg he'

theorem callChain_sound : (callChain g).Ensures c s fun e s' => e.Within s.token.lo s' := by
  unfold callChain
  refine .look (.look (.ite (fun _ => superOperand_sound hg true) fun _ => ?_))
  refine .look (.ite (fun _ => importOperand_sound hg true) fun _ => .look (.look ?_))
  extract_lets rest
  have hrest : (rest ()).Ensures c s fun e s' => e.Within s.token.lo s' := by
    refine .bind (construct_sound hg) fun e s₁ hs₁ he => .ite (fun _ => .pure he) fun _ => ?_
    refine .skip fun types s₂ hs₂ => .look (.ite (fun _ => .pure (he.later hs₂)) fun _ => ?_)
    refine .bind (arguments_sound hg (he.later hs₂)) fun args s₃ _ hargs => ?_
    exact .bind (callOf_sound hargs) fun e' s₄ _ he' => chain_sound hg he'
  refine .ite (fun _ => .look (.ite (fun _ => ?_) fun _ => hrest)) fun _ => hrest
  refine .skip fun refs s₁ hs₁ => .skip fun _ s₂ hs₂ => .look (.pure ?_)
  exact .other (by grind)

/-! ### Operators in front of an operand and behind it -/

omit hg in
/-- An operator in front of an operand takes a byte. -/
theorem width_of_unaryOp? {kind : Kind} {op : Option UnaryOp} (h : unaryOp? kind = some op) :
    kind.width = 1 := by
  unfold unaryOp? at h
  split at h
  case h_8 => cases h
  all_goals rfl

/-- An operand that is missing stands right before the next token. -/
theorem unaryOperand_sound {lo : Nat} (hlo : lo + 1 ≤ s.token.lo) :
    (unaryOperand g).Ensures c s fun e s' => e.Within lo s' := by
  refine .look (.bind (.recover (hg.unary _ _)) fun r s₁ hs₁ hr => ?_)
  cases r with
  | ok e => exact .pure ((hr e rfl).earlier (Nat.le_of_succ_le hlo))
  | error _ => exact .pure (.other (by grind))

theorem frontAssertion_sound : (frontAssertion g).Ensures c s fun e s' => e.Within s.token.lo s' := by
  unfold frontAssertion
  refine .look (.expect fun s₁ hs₁ hlast => .skip fun isConstant s₂ hs₂ => ?_)
  extract_lets rest
  have hrest (types : References) (s' : State) (hs' : s₁ ≤ s') :
      (rest types).Ensures c s' fun e s'' => e.Within s.token.lo s'' := by
    refine .skip fun _ s₃ hs₃ => .bind (hg.unary _ _) fun e s₄ hs₄ he => .look ?_
    refine .ite (fun _ => .pure ?_) fun _ => .pure ?_
    · have hinner : e.Within s.token.lo s₄ := he.earlier (by grind)
      exact .wrapped hinner (State.le_refl _) (Nat.le_refl _) (by grind)
    · exact .other (by grind)
  exact .ite (fun _ => .skip fun _ s₃ hs₃ => hrest _ s₃ (by grind)) fun _ =>
    .skip fun _ s₃ hs₃ => hrest _ s₃ (by grind)

omit hg in
theorem awaiting_sound : (awaiting g).Ensures c s fun e s' => e.Within s.token.lo s' := by
  unfold awaiting
  refine .look (.advance fun s₁ hs₁ hlast => ?_)
  refine .look (.ite (fun _ => .failed) fun _ => .look (.look ?_))
  extract_lets rest
  have hrest : (rest ()).Ensures c s₁ fun e s' => e.Within s.token.lo s' := by
    refine .skip fun e s₂ hs₂ => .look (.pure ?_)
    exact .other (by grind)
  refine .ite (fun _ => .look (.look (.ite (fun _ => .pure ?_) fun _ => hrest))) fun _ => hrest
  exact .leaf rfl (⟨·, trivial⟩) rfl rfl (by grind)

theorem unary_sound : (unary g).Ensures c s fun e s' => e.Within s.token.lo s' := by
  refine .look ?_
  split
  · next op hop =>
    refine .advance fun s₁ hs₁ hlast => ?_
    have hwidth := s.token.width_le
    rw [width_of_unaryOp? hop] at hwidth
    have hlo : s.token.lo + 1 ≤ s₁.token.lo :=
      Nat.le_trans hwidth (Nat.le_trans hlast s₁.last_le)
    refine .bind (unaryOperand_sound hg hlo) fun e s₂ hs₂ he => ?_
    split
    · have hparts : [e] = [] ++ [e] := rfl
      exact .pure (.ending rfl (⟨·, trivial⟩) rfl rfl hparts (Nat.le_refl _) he.placed)
    · exact .pure (.other (by grind))
  · refine .look (.ite (fun _ => frontAssertion_sound hg) fun _ => .ite (fun _ => ?_) fun _ => ?_)
    · refine .skip fun _ s₁ hs₁ => .bind (hg.unary _ _) fun e s₂ hs₂ he => .pure ?_
      exact .other (by grind)
    · refine .ite (fun _ => awaiting_sound) fun _ => ?_
      refine .bind (callChain_sound hg) fun e s₁ hs₁ he => .look (.ite (fun _ => .pure he) fun _ => ?_)
      refine .look (.ite (fun _ => .pure he) fun _ => .skip fun _ s₂ hs₂ => .look (.pure ?_))
      exact .other (by grind)

/-! ### Expressions -/

omit hg in
theorem yielding_sound : (yielding g).Ensures c s fun e s' => e.Within s.token.lo s' := by
  refine .look (.skip fun _ s₁ hs₁ => .look (.ite (fun _ => .failedAt) fun _ => ?_))
  refine .look (.look (.ite (fun _ => .look (.pure (.other (by grind)))) fun _ => ?_))
  refine .skip fun _ s₂ hs₂ => .skip fun e s₃ hs₃ => .look (.pure ?_)
  exact .other (by grind)

theorem genericArrow_sound :
    (genericArrow g).Ensures c s fun o s' => ∀ e ∈ o, e.Within s.token.lo s' := by
  refine .within fun c => .look (.skip fun generics s₁ hs₁ => .bind (hg.assign _ _) ?_)
  intro e s₂ hs₂ he
  split
  · next span ps body types =>
    refine .pure ?_
    rintro _ ⟨⟩
    have hlo : s.token.lo ≤ span.lo := by grind [Expr.span]
    cases he.tidy with
    | async called _ => cases called
    | mk fits holds _ parts =>
      refine .ofHolds rfl ⟨?_, trivial⟩ ⟨holds.ordered, ?_, holds.hi_le⟩ parts (Nat.le_refl _)
        he.hi_le he.closed
      · exact Nat.le_trans hlo fits.1
      · exact fun p hp => Nat.le_trans hlo (holds.lo_le p hp)
  · exact .pure fun _ h => by cases h

theorem assign_sound : (assign g).Ensures c s fun e s' => e.Within s.token.lo s' := by
  unfold assign
  refine .skip fun isGeneric s₁ hs₁ => ?_
  extract_lets rest
  have hrest (s' : State) (hs' : s ≤ s') :
      (rest ()).Ensures c s' fun e s'' => e.Within s.token.lo s'' := by
    have hearlier {e : Expr} {s'' : State} (he : e.Within s'.token.lo s'') : e.Within s.token.lo s'' :=
      he.earlier hs'.2
    refine .look (.look (.ite (fun _ => yielding_sound.mono fun e s₂ _ => hearlier) fun _ => ?_))
    refine .bind (.within fun c => conditional_sound hg) fun left s₂ hs₂ hleft => ?_
    refine .ite (fun _ => .pure (hearlier hleft)) fun _ => ?_
    exact (assignRest_sound hg hleft).mono fun e s₃ _ => hearlier
  refine .ite (fun _ => .bind (.attempt (genericArrow_sound hg)) fun o s₂ hs₂ ho => ?_) fun _ => ?_
  · cases o with
    | none => exact hrest s₂ (State.le_trans hs₁ hs₂)
    | some e => exact .pure ((ho e rfl).earlier hs₁.2)
  · exact hrest s₁ hs₁

end Grammar

end SchemaDoc.Script
