import SchemaDoc.Proofs.SoundExpressions
import SchemaDoc.Script.Grammar

/-!
# Statements are read soundly

Only declarations, returned values and expressions are kept of a statement; the others leave their
references. What is kept is in the order of the text.
-/

namespace SchemaDoc.Script

open SchemaDoc.Script.Parser (Ensures)

namespace Grammar

variable {g : Grammar} (hg : g.Sound) {c : Context} {s : State} {lo : Nat}

include hg

/-! ### Declarations -/

theorem declarator_sound {keyword : String} {inLoop : Bool} :
    (declarator g keyword inLoop).Ensures c s fun d s' => Placed d.parts s.token.lo s' := by
  refine .look (.bind (hg.target _ _ _) fun pattern s₁ hs₁ hpattern => ?_)
  extract_lets rest
  have hrest (s' : State) (hs' : s₁ ≤ s') :
      (rest ()).Ensures c s' fun d s'' => Placed d.parts s.token.lo s'' := by
    have hnone (types : References) (s'' : State) (hs'' : s₁ ≤ s'') :
        Placed (Declarator.mk pattern types none).parts s.token.lo s'' :=
      (hpattern.later hs'').append .nil (State.le_refl _) (by grind)
    refine .skip fun types s₂ hs₂ => ?_
    have hpure := hnone types s₂ (State.le_trans hs' hs₂)
    refine .look (.ite (fun _ => .pure hpure) fun _ => .accept (fun s₃ hs₃ _ => ?_) (.look ?_))
    · refine .bind (hg.assign _ _) fun e s₄ hs₄ he => .pure ?_
      exact (hpattern.later (by grind)).append he.placed hs₄ (by grind)
    · refine .ite (fun _ => .pure hpure) fun _ => ?_
      split
      · exact .pure hpure
      · exact .look .failAt
  split
  · exact .look (.ite (fun _ => .skip fun _ s₂ hs₂ => hrest s₂ hs₂) fun _ => hrest s₁ s₁.le_refl)
  · exact hrest s₁ s₁.le_refl

theorem declarators_sound {keyword : String} {inLoop : Bool} :
    (declarators g keyword inLoop).Ensures c s fun ds s' =>
      Placed (ds.flatMap Declarator.parts) s.token.lo s' := by
  unfold declarators
  extract_lets allow rest
  have hrest (s' : State) (hs' : s ≤ s') : (rest ()).Ensures c s' fun ds s'' =>
      Placed (ds.flatMap Declarator.parts) s.token.lo s'' := by
    refine .iterate (fun done s'' => Placed (done.reverse.flatMap Declarator.parts) s.token.lo s'')
      .nil fun done s₁ hs₁ hdone => .look (.look (.ite (fun _ => .pure hdone) fun _ => ?_))
    refine .bind (P := fun d s'' => Placed d.parts s₁.token.lo s'') ?_ fun d s₂ hs₂ hd => ?_
    · simp only [allow]
      split <;> exact .within fun c => declarator_sound hg
    have hnew := hdone.concat_reverse hd hs₂ (by grind)
    exact .accept (fun s₃ hs₃ _ => .pure (hnew.later hs₃)) (.pure hnew)
  exact .ite (fun _ => .skip fun _ s₁ hs₁ => .ite (fun _ => .pure .nil) fun _ => hrest s₁ hs₁)
    fun _ => hrest s s.le_refl

theorem variableDeclaration_sound :
    (variableDeclaration g).Ensures c s fun st s' => Placed st.parts s.token.lo s' := by
  refine .skip fun keyword s₁ hs₁ => .bind (declarators_sound hg) fun ds s₂ hs₂ hds => ?_
  have hdeclared := hds.earlier hs₁.2
  refine .skip fun ended s₃ hs₃ => .ite (fun _ => .skip fun _ s₄ hs₄ => .pure ?_) fun _ => .pure ?_
  · exact hdeclared.later (State.le_trans hs₃ hs₄)
  · exact hdeclared.later hs₃

theorem functionDeclaration_sound {isAsync : Bool} (hlo : lo ≤ s.token.lo) :
    (functionDeclaration g lo isAsync).Ensures c s fun st s' => Placed st.parts lo s' := by
  refine .skip fun isGenerator s₁ hs₁ => .skip fun n s₂ hs₂ => ?_
  refine .bind (.within fun _ => callable_sound hg hg.params) fun f s₃ hs₃ ⟨hf, hlast⟩ =>
    .look (.pure ?_)
  exact (Callable.function_within (hf.earlier (by grind)) (by grind)).placed

omit hg in
theorem referring_sound {p : Parser References} :
    (referring p).Ensures c s fun o s' => ∀ st ∈ o, Placed st.parts lo s' := by
  refine .skip fun refs s₁ _ => .pure ?_
  rintro _ ⟨⟩
  exact .nil

omit hg in
/-- What is only referred to is no expression. -/
theorem placed_of_map_other {o : Option References} :
    ∀ st ∈ o.map Statement.other, Placed st.parts lo s := by
  rintro _ hst
  obtain ⟨refs, -, rfl⟩ := Option.map_eq_some_iff.mp hst
  exact .nil

omit hg in
theorem some_sound {p : Parser Statement} {lo' : Nat} (hlo : lo ≤ lo')
    (hp : p.Ensures c s fun st s' => Placed st.parts lo' s') :
    (some <$> p).Ensures c s fun o s' => ∀ st ∈ o, Placed st.parts lo s' := by
  refine .map hp fun st s₁ _ hst => ?_
  rintro _ ⟨⟩
  exact hst.earlier hlo

theorem ambientDeclaration?_sound (hlo : lo ≤ s.token.lo) :
    (ambientDeclaration? g lo).Ensures c s fun o s' => ∀ st ∈ o, Placed st.parts lo s' := by
  refine .within fun c => .look ?_
  split
  · refine .skip fun _ s₁ hs₁ => some_sound (Nat.le_refl _) ?_
    exact functionDeclaration_sound hg (Nat.le_trans hlo hs₁.2)
  · exact .skip fun _ s₁ _ => referring_sound
  · refine .look (.ite (fun _ => .skip fun _ s₁ _ => .skip fun _ s₂ _ => referring_sound) fun _ => ?_)
    exact some_sound hlo (variableDeclaration_sound hg)
  · exact some_sound hlo (variableDeclaration_sound hg)
  · exact some_sound hlo (variableDeclaration_sound hg)
  · exact referring_sound
  · exact .skip fun o s₁ _ => .pure placed_of_map_other
  · exact .pure nofun

theorem typeDeclaration?_sound {w : String} (hlo : lo ≤ s.token.lo) :
    (typeDeclaration? g lo w).Ensures c s fun o s' => ∀ st ∈ o, Placed st.parts lo s' := by
  unfold typeDeclaration?
  split
  · exact ambientDeclaration?_sound hg hlo
  · exact .look (.ite (fun _ => referring_sound) fun _ => .pure nofun)
  · exact .skip fun o s₁ _ => .pure placed_of_map_other

/-! ### Statements -/

omit hg in
/-- A handler without anything that it handles is the word that opens it. -/
theorem strayHandler_sound
    (h : s.token.kind = .name "catch" false ∨ s.token.kind = .name "finally" false) :
    (strayHandler g).Ensures c s fun st s' => Placed st.parts s.token.lo s' := by
  have hresult (s' : State) (hlast : s.token.hi ≤ s'.last) :
      Placed [.other ⟨s.token.lo, s.token.hi⟩ .missing []] s.token.lo s' :=
    Expr.Within.placed (.other (by grind))
  refine .look (.look ?_)
  extract_lets rest
  refine .ite (fun hword => ?_) fun hword => ?_
  · have htakes : (handler g).Takes c s :=
      (Parser.takes_acceptWord (by simpa using hword)).bind
    refine .bind htakes.recover fun _ s₁ hs₁ hlast => .skip fun _ s₂ hs₂ => .pure (hresult s₂ ?_)
    exact Nat.le_trans hlast hs₂.1
  · have htakes : (finalizer g).Takes c s :=
      (Parser.takes_acceptWord (h.resolve_left (by simpa using hword))).bind
    exact .bind htakes.recover fun _ s₁ hs₁ hlast => .pure (hresult s₁ hlast)

theorem returnRest_sound :
    (returnRest g).Ensures c s fun st s' => Placed st.parts s.token.lo s' := by
  refine .skip fun ended s₁ hs₁ => .ite (fun _ => .pure .nil) fun _ => ?_
  refine .bind (expression_sound hg) fun e s₂ hs₂ he => .skip fun _ s₃ hs₃ => .pure ?_
  exact he.placed.mono hs₁.2 hs₃

theorem expressionStatement_sound :
    (expressionStatement g).Ensures c s fun st s' => Placed st.parts s.token.lo s' := by
  unfold expressionStatement
  refine .look (.bind (expression_sound hg) fun e s₁ hs₁ he => ?_)
  extract_lets rest label
  have hrest (s' : State) (hs' : s₁ ≤ s') :
      (rest ()).Ensures c s' fun st s'' => Placed st.parts s.token.lo s'' := by
    refine .skip fun ended s₂ hs₂ => ?_
    have he₂ : e.Within s.token.lo s₂ := he.later (State.le_trans hs' hs₂)
    refine .ite (fun _ => .pure he₂.placed) fun _ => .look (.ite (fun _ => ?_) fun _ => .fail)
    refine .bind (hg.operators (he₂.ready c 0)) fun e' s₃ _ he' => .pure ?_
    exact he'.placed.earlier he.lo_le
  split
  · next span w =>
    refine .look (.ite (fun _ => .skip fun _ s₂ hs₂ => .pure (he.later hs₂).placed) fun _ => ?_)
    have hlabel (s' : State) (hs' : s₁ ≤ s') :
        (label ()).Ensures c s' fun st s'' => Placed st.parts s.token.lo s'' :=
      .accept (fun s₂ _ _ => .skip fun _ s₃ _ => .pure .nil) (hrest s' hs')
    refine .look (.ite (fun _ => ?_) fun _ => hlabel s₁ (State.le_refl _))
    refine .bind (typeDeclaration?_sound hg hs₁.2) fun o s₂ hs₂ ho => ?_
    cases o with
    | none => exact hlabel s₂ hs₂
    | some st => exact .pure (ho st rfl)
  · exact hrest s₁ (State.le_refl _)

/-- A statement that a word of its own opens. -/
theorem wordStatement?_sound {w : String} {declares : Bool}
    (h : w = "catch" ∨ w = "finally" → s.token.kind = .name w false) :
    (wordStatement? g w declares).Ensures c s fun o s' => ∀ st ∈ o, Placed st.parts s.token.lo s' := by
  have hvariables := some_sound (Nat.le_refl _) (variableDeclaration_sound hg (c := c) (s := s))
  refine .look ?_
  extract_lets other
  have hother (p : Parser References) :
      (other p).Ensures c s fun o s' => ∀ st ∈ o, Placed st.parts s.token.lo s' :=
    .skip fun _ s₁ _ => referring_sound
  split
  case h_1 =>
    exact .skip fun _ s₁ hs₁ => some_sound (Nat.le_refl _) (functionDeclaration_sound hg hs₁.2)
  case h_10 => exact some_sound (Nat.le_refl _) (strayHandler_sound (.inl (h (.inl rfl))))
  case h_11 => exact some_sound (Nat.le_refl _) (strayHandler_sound (.inr (h (.inr rfl))))
  case h_12 => exact .skip fun _ s₁ hs₁ => some_sound hs₁.2 (returnRest_sound hg)
  case h_17 => exact hvariables
  case h_18 => exact .ite (fun _ => hvariables) fun _ => .pure nofun
  case h_19 =>
    exact .ite (fun _ => .pure nofun) fun _ => .look (.ite (fun _ => hvariables) fun _ => .pure nofun)
  case h_20 =>
    refine .ite (fun _ => .pure nofun) fun _ => .look (.skip fun _ s₁ hs₁ => .ite (fun _ => ?_) ?_)
    · exact .skip fun _ s₂ _ => referring_sound
    · exact fun _ => .pure nofun
  case h_21 =>
    exact .ite (fun _ => .skip fun o s₁ _ => .pure placed_of_map_other) fun _ => .pure nofun
  case h_22 =>
    refine .skip fun _ s₁ hs₁ => .ite (fun _ => .pure nofun) fun _ => .skip fun _ s₂ hs₂ => ?_
    exact .skip fun _ s₃ hs₃ => some_sound (Nat.le_refl _) (functionDeclaration_sound hg (by grind))
  case h_23 => exact .pure nofun
  all_goals exact hother _

theorem importStatement_sound :
    (importStatement g).Ensures c s fun st s' => Placed st.parts s.token.lo s' := by
  have hexpression : (do
      let e ← expression g
      let _ ← Parser.acceptEnd
      return Statement.expression e).Ensures c s fun st s' => Placed st.parts s.token.lo s' :=
    .bind (expression_sound hg) fun e s₁ _ he => .skip fun _ s₂ hs₂ => .pure (he.later hs₂).placed
  refine .look ?_
  split
  · exact hexpression
  · exact hexpression
  · exact .fail

theorem statement_sound (declares : Bool) :
    (statement g declares).Ensures c s fun st s' => Placed st.parts s.token.lo s' := by
  have hexpression (c : Context) (s' : State) (hs' : s ≤ s') :
      (expressionStatement g).Ensures c s' fun st s'' => Placed st.parts s.token.lo s'' :=
    (expressionStatement_sound hg).mono fun st s₁ _ hst => hst.earlier hs'.2
  refine .look ?_
  split
  · exact .skip fun _ s₁ _ => .pure .nil
  · exact .skip fun _ s₁ _ => .pure .nil
  · exact importStatement_sound hg
  · exact .fail
  · next w _ _ hkind =>
    refine .within fun c => .within fun c => ?_
    extract_lets rest
    have hrest (s' : State) (hs' : s ≤ s')
        (hw : w = "catch" ∨ w = "finally" → s'.token.kind = .name w false) :
        (rest ()).Ensures c s' fun st s'' => Placed st.parts s.token.lo s'' := by
      refine .bind (wordStatement?_sound hg hw) fun o s₁ hs₁ ho => ?_
      cases o with
      | none => exact hexpression c s₁ (State.le_trans hs' hs₁)
      | some st => exact .pure ((ho st rfl).earlier hs'.2)
    refine .ite (fun hdeclares => .skip fun o s₁ hs₁ => ?_) fun _ => hrest s s.le_refl fun _ => hkind
    cases o with
    | none => exact hrest s₁ hs₁ (by rintro (rfl | rfl) <;> exact absurd hdeclares (by decide))
    | some refs => exact .pure .nil
  · exact .within fun c => .within fun c => hexpression c s s.le_refl

theorem block_sound (directive : Bool) : (block g directive).Ensures c s fun sts s' =>
    Placed (sts.flatMap Statement.parts) s.token.lo s' := by
  refine .skip fun _ s₁ hs₁ => .within fun c => .within fun c => ?_
  refine .iterate (fun x s' => Placed (x.1.reverse.flatMap Statement.parts) s.token.lo s') .nil ?_
  rintro ⟨done, strict⟩ s₂ hs₂ hdone
  refine .look (.ite (fun _ => .pure hdone) fun _ =>
    .accept (fun s₃ hs₃ _ => .pure (hdone.later hs₃)) ?_)
  refine .bind (P := fun st s' => Placed st.parts s₂.token.lo s') ?_ fun st s₃ hs₃ hst => .pure ?_
  · split
    · exact .within fun c => hg.statement _ _ _
    · exact hg.statement _ _ _
  · exact hdone.concat_reverse hst hs₃ (by grind)

end Grammar

end SchemaDoc.Script
