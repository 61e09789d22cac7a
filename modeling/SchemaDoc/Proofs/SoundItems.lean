import SchemaDoc.Proofs.SoundStatements

/-!
# Files are read soundly

Items follow each other in the text, and each is as long as what was taken for it (`itemList_sound`).
With the items the rules are complete: `withFuel_sound` is an induction on how deeply they may nest,
whose step is that the body of every rule is sound if the rules inside it are (`body_sound`).

The results for a whole text are `parseText_tidy` and, as far as no order among the parts of an
expression is needed, `parseText_sound`.
-/

namespace SchemaDoc.Script

open SchemaDoc.Script.Parser (Ensures)

/-- A tidy item holds its parts in their order. -/
structure Item.Tidy (i : Item) : Prop where
  span_le : i.span.lo ≤ i.span.hi
  holds : i.span.Holds i.kind.parts
  parts : ∀ e ∈ i.kind.parts, e.Tidy

theorem exported_sublist (st : Statement) : (Grammar.exported st).parts.Sublist st.parts := by
  unfold Grammar.exported
  split
  · exact List.Sublist.refl _
  · exact List.nil_sublist _

namespace Grammar

variable {g : Grammar} (hg : g.Sound) {c : Context} {s : State} {lo : Nat}

/-! ### Imports -/

theorem importEquals_sound : importEquals.Ensures c s fun k s' => Placed k.parts lo s' := by
  unfold importEquals
  refine .look (.look ?_)
  extract_lets rest close
  have hrest (s' : State) : (rest ()).Ensures c s' fun k s'' => Placed k.parts lo s'' :=
    .skip fun _ _ _ => .pure .nil
  refine .ite (fun _ => .skip fun _ s₁ _ => .skip fun _ s₂ _ => .skip fun _ s₃ _ => ?_) fun _ => ?_
  · refine .ite (fun _ => .failed) fun _ => .skip fun _ s₄ _ => .skip fun _ s₅ _ => hrest s₅
  · exact .skip fun _ s₁ _ => .skip fun _ s₂ _ => hrest s₂

theorem importSource_sound {bindings : List ImportBinding} :
    (importSource g bindings).Ensures c s fun k s' => Placed k.parts lo s' :=
  .skip fun _ _ _ => .skip fun _ _ _ => .skip fun _ _ _ => .pure .nil

theorem namedImport_sound : (namedImport g).Ensures c s fun k s' => Placed k.parts lo s' := by
  unfold namedImport
  refine .skip fun first s₁ _ => .look ?_
  extract_lets isMark rest
  have hrest (first : String) (s' : State) :
      (rest first).Ensures c s' fun k s'' => Placed k.parts lo s'' := by
    refine .look (.look (.ite (fun _ => .skip fun _ s₂ _ => importEquals_sound) fun _ => .look ?_))
    refine .ite (fun _ => .skip fun _ s₂ _ => ?_) fun _ => ?_
    all_goals exact .skip fun _ s₃ _ => importSource_sound
  refine .look (.ite (fun _ => .skip fun _ s₂ _ => importSource_sound) fun _ => .skip fun _ s₂ _ => ?_)
  exact .ite (fun _ => .skip fun first s₃ _ => hrest first s₃) fun _ => hrest first s₂

theorem importItem_sound : (importItem g).Ensures c s fun k s' => Placed k.parts lo s' := by
  refine .look ?_
  split
  · exact .skip fun _ s₁ _ => .skip fun _ s₂ _ => .pure .nil
  · refine .skip fun _ s₁ _ => .ite (fun _ => namedImport_sound) fun _ => ?_
    exact .skip fun _ s₂ _ => importSource_sound

/-! ### Exports -/

theorem exportSource_sound : (exportSource g).Ensures c s fun k s' => Placed k.parts lo s' :=
  .skip fun _ _ _ => .skip fun _ _ _ => .skip fun _ _ _ => .pure .nil

theorem exportNames_sound : (exportNames g).Ensures c s fun k s' => Placed k.parts lo s' := by
  refine .skip fun _ s₁ _ => .skip fun names s₂ _ => .look (.ite (fun _ => exportSource_sound) ?_)
  exact fun _ => .skip fun _ s₃ _ => .pure .nil

theorem exportMany_sound : (exportMany g).Ensures c s fun k s' => Placed k.parts lo s' := by
  refine .accept (fun s₁ _ _ => ?_) exportNames_sound
  exact .skip fun _ s₂ _ => .ite (fun _ => .skip fun _ s₃ _ => exportSource_sound) fun _ =>
    exportSource_sound

include hg

theorem defaultFunction_sound {isAsync : Bool} (hlo : lo ≤ s.token.lo) :
    (defaultFunction g lo isAsync).Ensures c s fun k s' => Placed k.parts lo s' := by
  refine .skip fun isGenerator s₁ hs₁ => .skip fun n s₂ hs₂ => ?_
  refine .bind (.within fun _ => callable_sound hg hg.params) fun f s₃ hs₃ ⟨hf, hlast⟩ =>
    .look (.pure ?_)
  exact (Callable.function_within (hf.earlier (by grind)) (by grind)).placed

theorem exportDefault_sound :
    (exportDefault g).Ensures c s fun k s' => Placed k.parts s.token.lo s' := by
  unfold exportDefault
  refine .look (.look ?_)
  extract_lets rest interface
  have hother (s' : State) (p : Parser References) : Ensures (do
      let refs ← p
      return ItemKind.other refs) c s' fun k s'' => Placed k.parts s.token.lo s'' :=
    .skip fun _ _ _ => .pure .nil
  have hrest (s' : State) (hs' : s ≤ s') :
      (rest ()).Ensures c s' fun k s'' => Placed k.parts s.token.lo s'' := by
    refine .skip fun _ s₁ hs₁ => .ite (fun _ => hother s₁ _) fun _ => .skip fun _ s₂ hs₂ => ?_
    refine .ite (fun _ => .skip fun _ s₃ hs₃ => .skip fun _ s₄ hs₄ => ?_) ?_
    · exact defaultFunction_sound hg (by grind)
    refine fun _ => .skip fun _ s₃ hs₃ => .ite (fun _ => ?_) fun _ => ?_
    · exact defaultFunction_sound hg (by grind)
    refine .bind (.within fun c => hg.assign c s₃) fun e s₄ _ he => .skip fun _ s₅ hs₅ => .pure ?_
    exact he.placed.mono (by grind) hs₅
  have hinterface : (interface ()).Ensures c s fun k s'' => Placed k.parts s.token.lo s'' :=
    .skip fun _ s₁ hs₁ => .ite (fun _ => hother s₁ _) fun _ => hrest s₁ hs₁
  refine .ite (fun _ => .look (.ite (fun _ => .look (.ite (fun _ => ?_) ?_)) ?_)) ?_
  · exact .skip fun _ s₁ _ => .skip fun _ s₂ _ => hother s₂ _
  · exact fun _ => hinterface
  · exact fun _ => hinterface
  · exact fun _ => hrest s s.le_refl

theorem exportDeclaration?_sound :
    (exportDeclaration? g).Ensures c s fun o s' => ∀ st ∈ o, Placed st.parts s.token.lo s' := by
  have hvariables := some_sound (Nat.le_refl _) (variableDeclaration_sound hg (c := c) (s := s))
  refine .look (.look ?_)
  split
  · exact .skip fun _ s₁ _ => referring_sound
  · exact .skip fun _ s₁ hs₁ => some_sound (Nat.le_refl _) (functionDeclaration_sound hg hs₁.2)
  · refine .skip fun _ s₁ hs₁ => .ite (fun _ => .pure nofun) fun _ => .skip fun _ s₂ hs₂ => ?_
    exact .skip fun _ s₃ hs₃ => some_sound (Nat.le_refl _) (functionDeclaration_sound hg (by grind))
  · exact hvariables
  · refine .look (.look (.ite (fun _ => ?_) fun _ => hvariables))
    exact .skip fun _ s₁ _ => .skip fun _ s₂ _ => referring_sound
  · exact .look (.ite (fun _ => hvariables) fun _ => .pure nofun)
  · exact .pure nofun

theorem typedExport?_sound (hlo : lo ≤ s.token.lo) :
    (typedExport? g).Ensures c s fun o s' => ∀ k ∈ o, Placed k.parts lo s' := by
  have hsome {k : ItemKind} {s' : State} (h : Placed k.parts lo s') :
      ∀ k' ∈ some k, Placed k'.parts lo s' := by
    rintro _ ⟨⟩
    exact h
  unfold typedExport?
  refine .look (.skip fun _ s₁ hs₁ => ?_)
  extract_lets equals rest word
  have hequals (s' : State) : (equals ()).Ensures c s' fun o s'' => ∀ k ∈ o, Placed k.parts lo s'' := by
    refine .skip fun _ s₃ _ => .skip fun _ s₄ _ => ?_
    exact .bind importEquals_sound fun k s₅ _ hk => .pure (hsome hk)
  have hrest (s' : State) : (rest ()).Ensures c s' fun o s'' => ∀ k ∈ o, Placed k.parts lo s'' := by
    refine .skip fun _ s₁ _ => .ite (fun _ => .look (.look (.skip fun _ s₂ _ => ?_))) fun _ => ?_
    · exact .ite (fun _ => .skip fun _ s₃ _ => hequals s₃) fun _ => hequals s₂
    refine .skip fun _ s₂ _ => .ite (fun _ => .skip fun e s₃ _ => .skip fun _ s₄ _ => ?_) fun _ => ?_
    · exact .pure (hsome .nil)
    refine .skip fun _ s₃ _ => .ite (fun _ => .skip fun _ s₄ _ => .skip fun _ s₅ _ => ?_) fun _ => ?_
    · exact .skip fun _ s₆ _ => .pure (hsome .nil)
    refine .skip fun _ s₄ _ => .ite (fun _ => ?_) fun _ => .pure nofun
    exact .bind exportMany_sound fun k s₅ _ hk => .pure (hsome hk)
  have hword (s' : State) : (word ()).Ensures c s' fun o s'' => ∀ k ∈ o, Placed k.parts lo s'' := by
    refine .look ?_
    split
    · refine .skip fun o s₂ _ => ?_
      cases o with
      | none => exact hrest s₂
      | some refs => exact .pure (hsome .nil)
    · exact hrest s'
  refine .ite (fun _ => ?_) fun _ => hword s₁
  refine .bind (ambientDeclaration?_sound hg hs₁.2) fun o s₂ _ ho => ?_
  cases o with
  | none => exact hword s₂
  | some st =>
    have hst := (ho st rfl).sublist (exported_sublist st)
    exact .pure (hsome (hst.earlier hlo))

theorem exportItem_sound :
    (exportItem g).Ensures c s fun k s' => Placed k.parts s.token.lo s' := by
  unfold exportItem
  refine .look ?_
  extract_lets rest
  have hrest (s' : State) (hs' : s ≤ s') :
      (rest ()).Ensures c s' fun k s'' => Placed k.parts s.token.lo s'' := by
    refine .skip fun _ s₁ hs₁ => .ite (fun _ => ?_) fun _ => ?_
    · exact (exportDefault_sound hg).mono fun k s₂ _ hk => hk.earlier (by grind)
    refine .bind (exportDeclaration?_sound hg) fun o s₂ _ ho => ?_
    cases o with
    | none => exact exportMany_sound
    | some st =>
      exact .pure (((ho st rfl).sublist (exported_sublist st)).earlier (by grind))
  refine .ite (fun _ => .bind (typedExport?_sound hg (Nat.le_refl _)) fun o s₁ hs₁ ho => ?_) fun _ =>
    hrest s s.le_refl
  cases o with
  | none => exact hrest s₁ hs₁
  | some k => exact .pure (ho k rfl)

/-! ### Items -/

theorem itemKind_sound : (itemKind g).Ensures c s fun k s' => Placed k.parts s.token.lo s' := by
  refine .skip fun _ s₁ hs₁ => .ite (fun _ => .skip fun _ s₂ _ => importItem_sound) fun _ => ?_
  refine .skip fun _ s₂ hs₂ => .ite (fun _ => ?_) fun _ => ?_
  · exact (exportItem_sound hg).mono fun k s₃ _ hk => hk.earlier (by grind)
  · exact .bind (hg.statement _ _ _) fun st s₃ _ hst => .pure (hst.earlier (by grind))

/-- An item is read between two states. -/
theorem item_sound : (item g).Ensures c s fun i s' =>
    i.Tidy ∧ s.token.lo ≤ i.span.lo ∧ i.span.hi ≤ s'.token.lo := by
  refine .look (.bind (itemKind_sound hg) fun k s₁ hs₁ hk => ?_)
  split
  · next span refs =>
    have hspan := hk.laid.inside _ (.head _)
    have hle := (hk.tidy _ (.head _)).sound.span_le
    refine .pure ⟨⟨hle, ⟨List.pairwise_singleton _ _, ?_, ?_⟩, hk.tidy⟩, hspan⟩
    · exact List.forall_mem_singleton.mpr (Nat.le_refl _)
    · exact List.forall_mem_singleton.mpr nofun
  · refine .look (.pure ⟨⟨Span.upTo_le _ _, ?_, hk.tidy⟩, Nat.le_refl _, ?_⟩)
    · exact hk.holds (Nat.le_refl _) (Nat.le_max_right _ _)
    · simp only [Span.hi_upTo]
      grind

/-- Items are read one behind the other. -/
theorem itemList_sound {braces : Bool} : (itemList g braces).Ensures c s fun items s' =>
    Laid Item.span s.token.lo s'.token.lo items ∧ ∀ i ∈ items, i.Tidy := by
  refine .iterate (fun x s' => Laid Item.span s.token.lo s'.token.lo x.1.reverse ∧
    ∀ i ∈ x.1, i.Tidy) ⟨.nil, nofun⟩ ?_
  rintro ⟨done, isModule⟩ s₁ hs₁ ⟨hlaid, hdone⟩
  have hdone' : ∀ i ∈ done.reverse, i.Tidy := fun i hi => hdone i (List.mem_reverse.mp hi)
  refine .look (.ite (fun _ => .pure ⟨hlaid, hdone'⟩) fun _ => .look (.ite (fun _ => ?_) fun _ => ?_))
  · refine .skip fun _ s₂ hs₂ => .pure ⟨hlaid.mono (Nat.le_refl _) hs₂.2, hdone'⟩
  refine .skip fun _ s₂ hs₂ => .look ?_
  extract_lets isModule'
  refine .bind (P := fun i s' => i.Tidy ∧ s₂.token.lo ≤ i.span.lo ∧ i.span.hi ≤ s'.token.lo) ?_
    fun i s₃ hs₃ ⟨hi, hlo, hhi⟩ => .pure ⟨?_, List.forall_mem_cons.mpr ⟨hi, hdone⟩⟩
  · split
    · exact .within fun c => item_sound hg
    · exact item_sound hg
  · rw [List.reverse_cons]
    exact hlaid.concat (by grind) (by grind) hi.span_le hhi

/-! ### The whole grammar -/

/-- The bodies of the rules are sound if the grammar for the rules inside them is. -/
theorem body_sound : Sound fun r => body g r where
  assign _ _ := assign_sound hg
  unary _ _ := unary_sound hg
  construct _ _ := construct_sound hg
  operators h := operators_sound hg h
  target _ _ lexical := target_sound hg lexical
  params _ _ := params_sound hg
  statement _ _ declares := statement_sound hg declares
  block _ _ directive := block_sound hg directive

omit hg in
/-- **Every rule is read soundly,** however deeply rules may nest. -/
theorem withFuel_sound (fuel : Nat) : Sound fun r => withFuel fuel r := by
  induction fuel with
  | zero => constructor <;> intros <;> exact .exhausted
  | succ fuel ih => exact body_sound ih

end Grammar

/-- **A parsed file is tidy.** Its items are in the order of the text and do not overlap. -/
theorem parseText_tidy {language : Language} {text : List Char} {parsed : Parsed}
    (h : parseText language text = .ok parsed) :
    (∃ hi, Laid Item.span 0 hi parsed.file.items) ∧ ∀ i ∈ parsed.file.items, i.Tidy := by
  simp only [parseText] at h
  split at h
  · next hrun =>
    cases h
    have hitems := Grammar.itemList_sound (Grammar.withFuel_sound (fuelFor text.length)) _ _ hrun
    exact ⟨⟨_, hitems.1.mono (Nat.zero_le _) (Nat.le_refl _)⟩, hitems.2⟩
  · cases h

/-- **A parsed file is sound.** Its items are in the order of the text and do not overlap. -/
theorem parseText_sound {language : Language} {text : List Char} {parsed : Parsed}
    (h : parseText language text = .ok parsed) :
    (∃ hi, Laid Item.span 0 hi parsed.file.items) ∧
      ∀ i ∈ parsed.file.items, AllSound i.kind.parts ∧ i.span.lo ≤ i.span.hi := by
  obtain ⟨hlaid, hitems⟩ := parseText_tidy h
  exact ⟨hlaid, fun i hi => ⟨fun e he => ((hitems i hi).parts e he).sound, (hitems i hi).span_le⟩⟩

end SchemaDoc.Script
