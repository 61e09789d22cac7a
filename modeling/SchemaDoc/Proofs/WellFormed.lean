import SchemaDoc.Program.Parse
import SchemaDoc.Proofs.Lowering
import SchemaDoc.Proofs.SoundItems

/-!
# Programs are well formed

Whatever text is parsed, its program fits together (`Program.WellFormed`): no place ends before it
starts, statements and the entries of literals are in the order of the text and do not overlap, and
what is inside something else stands inside it. A template has one more chunk than expressions, and
only an array has plain elements, while only an object has keys.

That the tree of a file is sound has been shown for the grammar (`Script.parseText_sound`). It is left
to carry this over to the program. All expressions stand where they stand in the tree but one kind: a
literal between parentheses stands where these stand, and so does everything that is put around it.
This is why what a tree becomes is looked at for every place around it (`Layout.Carries.exprAt`).
-/

namespace SchemaDoc

open Script (Span Laid)

/-! ### Well-formed programs -/

/-- One place lies inside another one. -/
structure Loc.Inside (inner outer : Loc) : Prop where
  lo_le : outer.lo ≤ inner.lo
  hi_le : inner.hi ≤ outer.hi

/-- The entries of a literal are in the order of the text and inside the literal, do not overlap, and
have their values inside them. -/
structure EntriesFit (loc : Loc) (entries : List Entry) : Prop where
  valid : ∀ e ∈ entries, e.loc.Valid
  ordered : entries.Pairwise fun a b => a.loc.hi ≤ b.loc.lo
  inside : ∀ e ∈ entries, e.loc.Inside loc
  values : ∀ e ∈ entries, e.value.loc.Inside e.loc

/-- An expression fits together with what it is made of. -/
def Expr.Fits (e : Expr) : Prop :=
  e.loc.Valid ∧
    match e with
    | .template _ chunks exprs => chunks.length = exprs.length + 1
    | .object loc entries => EntriesFit loc entries ∧ ∀ e ∈ entries, e.kind ≠ .element
    | .array loc entries => EntriesFit loc entries ∧ ∀ e ∈ entries, e.key? = none
    | _ => True

/-- A program whose statements are in the order of the text and do not overlap, and all of whose
expressions fit. -/
structure Program.WellFormed (p : Program) : Prop where
  valid : ∀ s ∈ p.body, s.loc.Valid
  ordered : p.body.Pairwise fun a b => a.loc.hi ≤ b.loc.lo
  exprs : ∀ e, p.Has e → e.Fits

/-- A property that an expression has, and all that it is made of. -/
inductive Expr.Deeply (Q : Expr → Prop) : Expr → Prop
  | mk {e : Expr} (here : Q e) (parts : ∀ p ∈ e.parts, p.Deeply Q) : e.Deeply Q

theorem Expr.Deeply.here {Q : Expr → Prop} {e : Expr} (h : e.Deeply Q) : Q e := by
  cases h with
  | mk here _ => exact here

theorem Expr.Deeply.parts {Q : Expr → Prop} {e : Expr} (h : e.Deeply Q) :
    ∀ p ∈ e.parts, p.Deeply Q := by
  cases h with
  | mk _ parts => exact parts

/-! ### Literals -/

theorem Loc.Inside.refl (loc : Loc) : loc.Inside loc := ⟨Nat.le_refl _, Nat.le_refl _⟩

namespace EntriesFit

variable {loc : Loc} {entries : List Entry}

theorem bare : EntriesFit loc (entries.map Entry.bare) ↔ EntriesFit loc entries := by
  have hloc (e : Entry) : e.bare.loc = e.loc := rfl
  have hvalue (e : Entry) : e.bare.value = e.value := rfl
  constructor
  · rintro ⟨hvalid, hordered, hinside, hvalues⟩
    simp only [List.forall_mem_map, List.pairwise_map, hloc, hvalue] at *
    exact ⟨hvalid, hordered, hinside, hvalues⟩
  · rintro ⟨hvalid, hordered, hinside, hvalues⟩
    constructor
    all_goals simpa only [List.forall_mem_map, List.pairwise_map, hloc, hvalue]

/-- Comments do not matter to where entries stand. -/
theorem attach (l : Layout) (h : EntriesFit loc entries) : EntriesFit loc (l.attach loc entries) := by
  rw [← bare, l.attach_bare, bare]
  exact h

/-- The entries that stand in a tree side by side. -/
theorem ofLaid {α : Type} {l : Layout} {span : α → Span} {entry : α → Entry} {as : List α}
    {lo hi : Nat} {outer : Span} (hlaid : Laid span lo hi as) (houter : outer.lo ≤ lo ∧ hi ≤ outer.hi)
    (hspan : ∀ a ∈ as, (span a).lo ≤ (span a).hi) (hloc : ∀ a, (entry a).loc = l.loc (span a))
    (hvalue : ∀ a ∈ as, (entry a).value.loc.Inside (l.loc (span a))) :
    EntriesFit (l.loc outer) (as.map entry) where
  valid := by
    simp only [List.forall_mem_map, hloc]
    exact fun a ha => l.loc_valid (hspan a ha)
  ordered := by
    simp only [List.pairwise_map, hloc]
    exact hlaid.ordered
  inside := by
    simp only [List.forall_mem_map, hloc]
    intro a ha
    have hinside := hlaid.inside a ha
    exact ⟨Nat.le_trans houter.1 hinside.1, Nat.le_trans hinside.2 houter.2⟩
  values := by
    simpa only [List.forall_mem_map, hloc] using hvalue

end EntriesFit

namespace Layout

variable {l : Layout}

/-! ### Entries -/

/-- The value of a member is inside the member, or it takes the place of the whole member. -/
theorem entry_value_inside {m : Script.Member} (hfits : m.Fits) :
    (l.entry m).value.loc.Inside (l.loc m.span) := by
  cases m with
  | keyed span key value | spread span value =>
    simp only [entry, Entry.value, loc_exprAt]
    exact ⟨hfits.2.1, hfits.2.2⟩
  | shorthand _ _ | defaulted _ _ _ | method _ _ _ _ _ | accessor _ _ _ _ => exact .refl _

/-- The members of an object literal become entries side by side. -/
theorem members_fit {inner span : Span} {ms : List Script.Member}
    (hfits : (Script.Expr.object inner ms).Fits) (houter : span.lo ≤ inner.lo ∧ inner.hi ≤ span.hi) :
    EntriesFit (l.loc span) (ms.map l.entry) := by
  obtain ⟨-, hlaid, hmembers⟩ := hfits
  refine .ofLaid hlaid houter (fun m hm => (hmembers m hm).1) l.loc_entry fun m hm => ?_
  exact entry_value_inside (hmembers m hm)

/-- The elements of an array become entries side by side. -/
theorem elements_fit {inner span : Span} {as : List Script.Element}
    (hfits : (Script.Expr.array inner as).Fits) (houter : span.lo ≤ inner.lo ∧ inner.hi ≤ span.hi)
    (hsound : ∀ a ∈ as, a.value.Sound) : EntriesFit (l.loc span) (as.map l.elementEntry) := by
  obtain ⟨-, hlaid, helements⟩ := hfits
  refine .ofLaid hlaid houter (fun a ha => ?_) (fun a => rfl) fun a ha => ?_
  · exact Script.Element.span_le (helements a ha) (hsound a ha)
  · simp only [elementEntry, Entry.value, expr, loc_exprAt]
    exact ⟨helements a ha, Nat.le_refl _⟩

/-! ### Expressions -/

/-- **A property that a layout carries over**: whatever a sound tree becomes has it. It is about one
expression at a time, but a literal may be put where a wrapper around it stands. -/
structure Carries (l : Layout) (Q : Expr → Prop) : Prop where
  direct : ∀ {e : Script.Expr} {loc : Loc}, e.Fits → isDirect e = true → loc.Valid →
    Q (l.exprAt loc e)
  object : ∀ {inner span : Span} {ms : List Script.Member},
    (Script.Expr.object inner ms).Fits → span.lo ≤ span.hi →
      span.lo ≤ inner.lo ∧ inner.hi ≤ span.hi →
        Q (.object (l.loc span) (l.attach (l.loc span) (ms.map l.entry)))
  array : ∀ {inner span : Span} {as : List Script.Element},
    (Script.Expr.array inner as).Fits → (∀ a ∈ as, a.value.Sound) → span.lo ≤ span.hi →
      span.lo ≤ inner.lo ∧ inner.hi ≤ span.hi →
        Q (.array (l.loc span) (l.attach (l.loc span) (as.map l.elementEntry)))
  name : ∀ {loc : Loc} {name : String}, loc.Valid → Q (.ident loc name)
  method : ∀ {loc : Loc} {f : FunctionLit}, loc.Valid → Q (.function loc f)
  unmodelled : ∀ {loc : Loc} {label : String}, loc.Valid → Q (.unmodelled loc label)

namespace Carries

variable {Q : Expr → Prop} (hQ : l.Carries Q)

include hQ

theorem follows {ps : List Script.Expr} {es : List Expr} (h : l.Follows ps es)
    (hps : ∀ p ∈ ps, (l.expr p).Deeply Q) : ∀ e ∈ es, e.Deeply Q := by
  intro e he
  rcases h.mem he with ⟨p, hp, rfl⟩ | ⟨loc, label, hloc, rfl⟩
  · exact hps p hp
  · exact ⟨hQ.unmodelled hloc, nofun⟩

theorem entry_value {m : Script.Member} (hspan : m.span.lo ≤ m.span.hi)
    (hparts : ∀ p ∈ m.parts, (l.expr p).Deeply Q) : (l.entry m).value.Deeply Q := by
  have hvalid : (l.loc m.span).Valid := l.loc_valid hspan
  cases m with
  | keyed span key value | spread span value => exact hparts value (.head _)
  | shorthand span name => exact ⟨hQ.name hvalid, nofun⟩
  | method span key ps b types =>
    exact ⟨hQ.method hvalid, hQ.follows (l.function_follows _ ps b) hparts⟩
  | defaulted _ _ _ | accessor _ _ _ _ => exact ⟨hQ.unmodelled hvalid, nofun⟩

omit hQ in
/-- The values of a literal are those of its entries before comments are attached. -/
theorem attached {loc : Loc} {entries : List Entry} (h : ∀ e ∈ entries, e.value.Deeply Q) :
    ∀ p ∈ (l.attach loc entries).map Entry.value, p.Deeply Q :=
  List.forall_mem_map.mpr (l.forall_mem_attach (P := fun entry => entry.value.Deeply Q) h)

/-- **What a sound tree becomes.** -/
theorem exprAt {e : Script.Expr} (he : e.Sound) : ∀ span : Span, span.lo ≤ span.hi →
    (e.isCollection = true → span.lo ≤ e.span.lo ∧ e.span.hi ≤ span.hi) →
      (l.exprAt (l.loc span) e).Deeply Q := by
  induction he with
  | @mk e fits parts ih =>
    intro span hspan houter
    have hown : ∀ p ∈ e.parts, (l.expr p).Deeply Q := fun p hp =>
      ih p hp p.span (parts p hp).span_le fun _ => ⟨Nat.le_refl _, Nat.le_refl _⟩
    cases hdirect : isDirect e with
    | true =>
      refine ⟨hQ.direct fits hdirect (l.loc_valid hspan), ?_⟩
      exact hQ.follows (l.exprAt_follows ⟨fits, parts⟩ hdirect) hown
    | false =>
      cases e with
      | object inner ms =>
        rw [Layout.exprAt, members_eq]
        refine ⟨hQ.object fits hspan (houter rfl), attached (List.forall_mem_map.mpr fun m hm => ?_)⟩
        exact hQ.entry_value (fits.2.2 m hm).1 fun p hp =>
          hown p (List.mem_flatMap.mpr ⟨m, hm, hp⟩)
      | array inner as =>
        have hsound : ∀ a ∈ as, a.value.Sound := fun a ha => parts _ (List.mem_map_of_mem ha)
        rw [Layout.exprAt, elements_eq]
        refine ⟨hQ.array fits hsound hspan (houter rfl),
          attached (List.forall_mem_map.mpr fun a ha => ?_)⟩
        exact hown _ (List.mem_map_of_mem ha)
      | wrapped inner form e types =>
        refine ih e (.head _) span hspan fun hcollection => ?_
        have hinner := fits.2 hcollection
        have hwhole := houter hcollection
        exact ⟨Nat.le_trans hwhole.1 hinner.1, Nat.le_trans hinner.2 hwhole.2⟩
      | _ => cases hdirect

theorem expr {e : Script.Expr} (he : e.Sound) : (l.expr e).Deeply Q :=
  hQ.exprAt he e.span he.span_le fun _ => ⟨Nat.le_refl _, Nat.le_refl _⟩

/-- **All expressions of a program.** -/
theorem has {items : List Script.Item} {lo : Nat} {source : String}
    (hitems : ∀ i ∈ items, Script.AllSound i.kind.parts ∧ i.span.lo ≤ i.span.hi) {e : Expr}
    (he : (Program.mk source (l.statements lo items)).Has e) : Q e := by
  suffices hdeep : e.Deeply Q from hdeep.here
  induction he with
  | @top s e hs he =>
    have hkind : s.kind ∈ (l.statements lo items).map Statement.kind := List.mem_map_of_mem hs
    rw [l.kind_statements] at hkind
    obtain ⟨i, hi, hi'⟩ := List.mem_map.mp hkind
    rw [← hi'] at he
    refine hQ.follows (l.statementKind_follows i.kind) (fun p hp => ?_) e he
    exact hQ.expr ((hitems i hi).1 p hp)
  | inside _ hpart ih => exact ih.parts _ hpart

end Carries

theorem length_exprs (es : List Script.Expr) : (l.exprs es).length = es.length := by
  induction es with
  | nil => rfl
  | cons e es ih => exact congrArg (· + 1) ih

/-- An expression without entries fits wherever it is put. -/
theorem exprAt_fits {e : Script.Expr} {loc : Loc} (hfits : e.Fits) (hdirect : isDirect e = true)
    (hloc : loc.Valid) : (l.exprAt loc e).Fits := by
  cases e with
  | object _ _ | array _ _ | wrapped _ _ _ _ => cases hdirect
  | template _ chunks es =>
    have hlength : (l.exprs es).length = es.length := length_exprs es
    refine ⟨hloc, ?_⟩
    show chunks.length = (l.exprs es).length + 1
    rw [hlength]
    exact hfits.2
  | member _ _ _ | assign _ _ _ =>
    simp only [exprAt]
    split <;> exact ⟨hloc, trivial⟩
  | _ => exact ⟨hloc, trivial⟩

/-- **What a sound tree becomes fits.** -/
theorem carries_fits (l : Layout) : l.Carries Expr.Fits where
  direct := exprAt_fits
  object := by
    intro inner span ms hfits hspan houter
    have hentries : EntriesFit (l.loc span) (ms.map l.entry) := members_fit hfits houter
    refine ⟨l.loc_valid hspan, hentries.attach l, ?_⟩
    refine l.forall_mem_attach (P := fun entry => entry.kind ≠ .element) ?_
    refine List.forall_mem_map.mpr fun m _ => ?_
    cases m <;> exact nofun
  array := by
    intro inner span as hfits hsound hspan houter
    have hentries : EntriesFit (l.loc span) (as.map l.elementEntry) :=
      elements_fit hfits houter hsound
    refine ⟨l.loc_valid hspan, hentries.attach l, ?_⟩
    refine l.forall_mem_attach (P := fun entry => entry.key? = none) ?_
    refine List.forall_mem_map.mpr fun a _ => ?_
    cases a <;> rfl
  name hloc := ⟨hloc, trivial⟩
  method hloc := ⟨hloc, trivial⟩
  unmodelled hloc := ⟨hloc, trivial⟩

/-! ### Programs -/

theorem statements_wellFormed {items : List Script.Item} {lo : Nat} {source : String}
    (hordered : items.Pairwise fun a b => a.span.hi ≤ b.span.lo)
    (hitems : ∀ i ∈ items, Script.AllSound i.kind.parts ∧ i.span.lo ≤ i.span.hi) :
    (Program.mk source (l.statements lo items)).WellFormed where
  valid := by
    rw [← List.forall_mem_map (f := Statement.loc) (P := Loc.Valid), l.loc_statements,
      List.forall_mem_map]
    exact fun i hi => l.loc_valid (hitems i hi).2
  ordered := by
    rw [← List.pairwise_map (f := Statement.loc) (R := fun a b => a.hi ≤ b.lo), l.loc_statements,
      List.pairwise_map]
    exact hordered
  exprs _ he := l.carries_fits.has hitems he

end Layout

/-- **Every program that is parsed is well formed.** -/
theorem ParsedSource.wellFormed_program {source : String} {path : Path} {parsed : ParsedSource}
    (h : ParsedSource.ofText source path = .ok parsed) : parsed.program.WellFormed := by
  simp only [ofText] at h
  split at h
  · next tree htree =>
    cases h
    obtain ⟨⟨hi, hlaid⟩, hitems⟩ := Script.parseText_sound htree
    exact Layout.statements_wellFormed hlaid.ordered hitems
  · cases h
  · cases h

/-- Literals inside literals, with a shorthand, a gap, a template, a method and what is spread. -/
theorem ParsedSource.wellFormed_program_of_nested_literals :
    let source :=
      "let a = \x7b b, c: [, ...d, \x60$\x7be\x7d\x60], f: (\x7b g() \x7b\x7d \x7d), ...h \x7d;\na(a)"
    ∃ parsed, ParsedSource.ofText source "a.js" = .ok parsed ∧
      parsed.program.body.length = 2 ∧ parsed.program.literals.map List.length = [4, 2, 1] ∧
      parsed.program.WellFormed := by
  intro source
  have hfacts : ((ParsedSource.ofText source "a.js").toOption.any fun parsed =>
      decide (parsed.program.body.length = 2 ∧
        parsed.program.literals.map List.length = [4, 2, 1])) = true := by decide +kernel
  cases hparsed : ParsedSource.ofText source "a.js" with
  | error failure =>
    rw [hparsed] at hfacts
    exact absurd hfacts Bool.false_ne_true
  | ok parsed =>
    rw [hparsed] at hfacts
    obtain ⟨hstatements, hliterals⟩ := of_decide_eq_true hfacts
    exact ⟨parsed, rfl, hstatements, hliterals, wellFormed_program hparsed⟩

end SchemaDoc
