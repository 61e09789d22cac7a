import SchemaDoc.Proofs.Attachment
import SchemaDoc.Proofs.Failures

/-!
# Comments in gaps

Where the comments of a literal stand, once a file is parsed and its comments are reattached. They
stand in the gaps of the literal: inside it, and outside all of its entries. The leading comments of
an entry are before it and behind the entries before it, and the trailing ones behind it and before
the entries behind it (`Spaced`). No two of them start at the same place.

Attaching puts each comment into the gap that it stands in (`Layout.attach_spaced`), and reattaching
hands it to the other side of the same gap (`Spaced.handsBack`). As literals nest, so do their gaps:
the comments of a literal that is the value of an entry are inside the entry, where none of the
comments around it is (`ParsedSource.exists_layout`, `Program.Reattaches.value`).
-/

namespace SchemaDoc

open Document (throughArrays)
open Script (Span)

theorem Loc.Inside.trans {a b c : Loc} (hab : a.Inside b) (hbc : b.Inside c) : a.Inside c :=
  ⟨Nat.le_trans hbc.lo_le hab.lo_le, Nat.le_trans hab.hi_le hbc.hi_le⟩

/-! ### Gaps -/

/-- **Comments in gaps.** The comments of entries that stand between two offsets. -/
structure Spaced (l : Layout) (lo hi : Nat) (entries : List Entry) : Prop where
  known : ∀ c ∈ entries.flatMap Entry.allComments, c ∈ l.comments
  inside : ∀ c ∈ entries.flatMap Entry.allComments, lo ≤ c.pos ∧ c.pos < hi
  leading : ∀ e ∈ entries, ∀ c ∈ e.comments.leading, c.pos < e.loc.lo
  trailing : ∀ e ∈ entries, ∀ c ∈ e.comments.trailing, e.loc.hi ≤ c.pos
  apart : entries.Pairwise fun a b =>
    (∀ c ∈ a.allComments, c.pos < b.loc.lo) ∧ ∀ c ∈ b.allComments, a.loc.hi ≤ c.pos
  once : (entries.flatMap Entry.allComments).Pairwise fun a b => a.pos ≠ b.pos

namespace Spaced

variable {l : Layout} {lo mid hi : Nat} {entry : Entry} {entries : List Entry}

theorem nil : Spaced l lo hi [] := ⟨nofun, nofun, nofun, nofun, .nil, .nil⟩

theorem tail (h : Spaced l lo hi (entry :: entries)) : Spaced l lo hi entries where
  known c hc := h.known c (List.mem_append_right _ hc)
  inside c hc := h.inside c (List.mem_append_right _ hc)
  leading e he := h.leading e (.tail _ he)
  trailing e he := h.trailing e (.tail _ he)
  apart := h.apart.tail
  once := (List.pairwise_append.mp (List.flatMap_cons ▸ h.once)).2.1

/-- An entry, and behind it entries from some offset on. -/
theorem cons (hleading : Held lo entry.loc.lo [entry.comments.leading])
    (htrailing : Held entry.loc.hi mid [entry.comments.trailing])
    (hknown : ∀ c ∈ entry.allComments, c ∈ l.comments) (hlo : lo ≤ entry.loc.lo)
    (hvalid : entry.loc.lo ≤ entry.loc.hi) (hmid : entry.loc.hi ≤ mid) (hhi : mid ≤ hi)
    (hbehind : ∀ e ∈ entries, mid ≤ e.loc.lo) (h : Spaced l mid hi entries) :
    Spaced l lo hi (entry :: entries) := by
  have hown := hleading.behind
    (htrailing.mono hvalid (Nat.le_refl _)) hlo (Nat.le_trans hvalid hmid)
  have hall : ([entry.comments.leading] ++ [entry.comments.trailing]).flatten =
      entry.allComments := by simp [Entry.allComments]
  have hinside (c : Comment) (hc : c ∈ entry.allComments) : lo ≤ c.pos ∧ c.pos < mid :=
    hown.inside c (by rwa [hall])
  constructor
  case known => exact List.forall_mem_append.mpr ⟨hknown, h.known⟩
  case inside =>
    refine List.forall_mem_append.mpr ⟨fun c hc => ?_, fun c hc => ?_⟩
    · have := hinside c hc
      omega
    · have := h.inside c hc
      omega
  case leading =>
    refine List.forall_mem_cons.mpr ⟨fun c hc => ?_, h.leading⟩
    exact (hleading.inside c (by simpa using hc)).2
  case trailing =>
    refine List.forall_mem_cons.mpr ⟨fun c hc => ?_, h.trailing⟩
    exact (htrailing.inside c (by simpa using hc)).1
  case apart =>
    refine List.pairwise_cons.mpr ⟨fun e he => ⟨fun c hc => ?_, fun c hc => ?_⟩, h.apart⟩
    · have := hinside c hc
      have := hbehind e he
      omega
    · have := h.inside c (List.mem_flatMap.mpr ⟨e, he, hc⟩)
      omega
  case once =>
    rw [List.flatMap_cons]
    refine List.pairwise_append.mpr ⟨hall ▸ hown.once, h.once, fun a ha b hb => ?_⟩
    have := hinside a ha
    have := h.inside b hb
    omega

/-- No comment is there twice. -/
theorem nodup (h : Spaced l lo hi entries) : (entries.flatMap Entry.allComments).Nodup :=
  h.once.imp fun hne heq => hne (congrArg Comment.pos heq)

theorem nodup_leading (h : Spaced l lo hi entries) {e : Entry} (he : e ∈ entries) :
    e.comments.leading.Nodup :=
  ((List.nodup_flatMap.mp h.nodup).1 e he).of_append_left

/-- Comments are outside of all entries. -/
theorem outside (h : Spaced l lo hi entries) {e e' : Entry} (he : e ∈ entries) (he' : e' ∈ entries)
    {c : Comment} (hc : c ∈ e.allComments) : c.pos < e'.loc.lo ∨ e'.loc.hi ≤ c.pos := by
  obtain ⟨front, back, rfl⟩ := List.append_of_mem he
  obtain ⟨-, hapart, hbefore⟩ := List.pairwise_append.mp h.apart
  rcases List.mem_append.mp he' with hfront | hback
  · exact Or.inr ((hbefore e' hfront e List.mem_cons_self).2 c hc)
  · rcases List.mem_cons.mp hback with rfl | hback
    · rcases List.mem_append.mp hc with hc | hc
      · exact Or.inl (h.leading e' he c hc)
      · exact Or.inr (h.trailing e' he c hc)
    · exact Or.inl (((List.pairwise_cons.mp hapart).1 e' hback).1 c hc)

end Spaced

/-! ### Attaching -/

namespace Layout

variable {l : Layout}

theorem mem_of_mem_between {lo hi : Nat} {c : Comment} (h : c ∈ l.between lo hi) :
    c ∈ l.comments :=
  List.mem_of_mem_filter h

/-- **Attaching puts comments into gaps.** Those before an entry lead it, and only the last entry has
comments behind it. -/
theorem attach_spaced (hl : InOrder l.comments) {lo hi : Nat} {entries : List Entry}
    (hnone : ∀ e ∈ entries, e.comments = .none)
    (hordered : entries.Pairwise fun a b => a.loc.hi ≤ b.loc.lo)
    (hinside : ∀ e ∈ entries, lo ≤ e.loc.lo ∧ e.loc.hi ≤ hi) (hvalid : ∀ e ∈ entries, e.loc.Valid) :
    Spaced l lo hi (l.attachTrailing hi (l.attachLeading lo entries)) := by
  induction entries generalizing lo with
  | nil => exact .nil
  | cons e entries ih =>
    obtain ⟨hcomments, hnones⟩ := List.forall_mem_cons.mp hnone
    obtain ⟨hbefore, hordered⟩ := List.pairwise_cons.mp hordered
    obtain ⟨⟨hlo, hhi⟩, hinsides⟩ := List.forall_mem_cons.mp hinside
    obtain ⟨⟨hspan, -⟩, hvalids⟩ := List.forall_mem_cons.mp hvalid
    have hleading : Held lo e.loc.lo [l.between lo e.loc.lo] := .between hl
    cases entries with
    | nil =>
      have htrailing : Held e.loc.hi hi [l.between e.loc.hi hi] := .between hl
      have hattached : l.attachTrailing hi (l.attachLeading lo [e]) =
        [e.withComments ⟨l.between lo e.loc.lo,
          (l.between e.loc.hi hi).filter (·.line == e.loc.endLine)⟩] := rfl
      rw [hattached]
      refine .cons hleading (htrailing.filter _) ?_ hlo hspan hhi (Nat.le_refl _) nofun .nil
      refine List.forall_mem_append.mpr ⟨fun c hc => mem_of_mem_between hc, fun c hc => ?_⟩
      exact mem_of_mem_between (List.mem_of_mem_filter hc)
    | cons next entries =>
      have hattached : l.attachTrailing hi (l.attachLeading lo (e :: next :: entries)) =
        e.withComments ⟨l.between lo e.loc.lo, e.comments.trailing⟩ ::
          l.attachTrailing hi (l.attachLeading e.loc.hi (next :: entries)) := rfl
      have hlocs : ∀ e' ∈ l.attachTrailing hi (l.attachLeading e.loc.hi (next :: entries)),
          e.loc.hi ≤ e'.loc.lo := by
        change ∀ e' ∈ _, e.loc.hi ≤ (Entry.bare e').loc.lo
        rw [← List.forall_mem_map (P := fun e' : Entry => e.loc.hi ≤ e'.loc.lo),
          attachTrailing_bare, attachLeading_bare, List.forall_mem_map]
        exact hbefore
      rw [hattached, hcomments]
      refine .cons hleading .empty ?_ hlo hspan (Nat.le_refl _) hhi hlocs
        (ih hnones hordered (fun e' he' => ⟨hbefore e' he', (hinsides e' he').2⟩) hvalids)
      exact List.forall_mem_append.mpr ⟨fun c hc => mem_of_mem_between hc, nofun⟩

end Layout

/-! ### Reattaching -/

namespace HandsBack

variable {given : List Comment} {entries entries' : List Entry}

/-- Only the first entry hands comments to what is before. -/
theorem given_leading (h : HandsBack given entries entries') {c : Comment} (hc : c ∈ given) :
    ∃ first rest, entries = first :: rest ∧ c ∈ first.comments.leading := by
  cases h with
  | nil => exact absurd hc List.not_mem_nil
  | cons kind loc dealt own comments next => exact ⟨_, _, rfl, dealt.given.subset hc⟩

theorem locs (h : HandsBack given entries entries') :
    entries'.map Entry.loc = entries.map Entry.loc := by
  induction h with
  | nil => rfl
  | cons kind loc dealt own comments next ih => simp only [List.map_cons, loc, ih]

end HandsBack

/-- **Reattaching leaves comments in their gaps.** An entry only gets comments from the gap behind
it. -/
theorem Spaced.handsBack {l : Layout} {lo hi : Nat} {given : List Comment}
    {entries entries' : List Entry} (h : HandsBack given entries entries')
    (hspaced : Spaced l lo hi entries) (hvalid : ∀ e ∈ entries, e.loc.Valid)
    (hordered : entries.Pairwise fun a b => a.loc.hi ≤ b.loc.lo) : Spaced l lo hi entries' := by
  have hsubset : entries'.flatMap Entry.allComments ⊆ entries.flatMap Entry.allComments :=
    fun c hc => h.perm.subset (List.mem_append_right _ hc)
  induction h with
  | nil => exact .nil
  | @cons given kept received entry entry' rest rest' kind loc dealt own comments next ih =>
    obtain ⟨-, hvalids⟩ := List.forall_mem_cons.mp hvalid
    obtain ⟨-, hordered⟩ := List.pairwise_cons.mp hordered
    obtain ⟨hafter, -⟩ := List.pairwise_cons.mp hspaced.apart
    have hrest : rest'.flatMap Entry.allComments ⊆ rest.flatMap Entry.allComments :=
      fun c hc => next.perm.subset (List.mem_append_right _ hc)
    have htail := ih hspaced.tail hvalids hordered hrest
    -- What is handed over has been in front of the first entry behind.
    have hreceived (c : Comment) (hc : c ∈ received) :
        entry.loc.hi ≤ c.pos ∧ ∀ e ∈ rest, c.pos < e.loc.lo := by
      obtain ⟨first, rest, rfl, hleading⟩ := next.given_leading hc
      have hfirst := hspaced.leading first (.tail _ (.head _)) c hleading
      refine ⟨(hafter first (.head _)).2 c (List.mem_append_left _ hleading), ?_⟩
      refine List.forall_mem_cons.mpr ⟨hfirst, fun e he => ?_⟩
      have hspan := (hvalids first (.head _)).lo_le
      have hbefore := (List.pairwise_cons.mp hordered).1 e he
      omega
    have hbehind (e' : Entry) (he' : e' ∈ rest') : ∃ e ∈ rest, e.loc = e'.loc :=
      List.mem_map.mp (next.locs ▸ List.mem_map_of_mem he')
    constructor
    case known => exact fun c hc => hspaced.known c (hsubset hc)
    case inside => exact fun c hc => hspaced.inside c (hsubset hc)
    case leading =>
      refine List.forall_mem_cons.mpr ⟨fun c hc => ?_, htail.leading⟩
      rw [comments] at hc
      exact loc ▸ hspaced.leading entry (.head _) c (dealt.kept.subset hc)
    case trailing =>
      refine List.forall_mem_cons.mpr ⟨fun c hc => ?_, htail.trailing⟩
      rw [comments] at hc
      rw [loc]
      rcases List.mem_append.mp hc with hc | hc
      · exact hspaced.trailing entry (.head _) c hc
      · exact (hreceived c hc).1
    case apart =>
      refine List.pairwise_cons.mpr ⟨fun e' he' => ⟨fun c hc => ?_, fun c hc => ?_⟩, htail.apart⟩
      · obtain ⟨e, he, hloc⟩ := hbehind e' he'
        rw [Entry.allComments, comments] at hc
        rw [← hloc]
        rcases List.mem_append.mp hc with hc | hc
        · exact (hafter e he).1 c (List.mem_append_left _ (dealt.kept.subset hc))
        · rcases List.mem_append.mp hc with hc | hc
          · exact (hafter e he).1 c (List.mem_append_right _ hc)
          · exact (hreceived c hc).2 e he
      · rw [loc]
        obtain ⟨e, he, hc⟩ := List.mem_flatMap.mp (hrest (List.mem_flatMap.mpr ⟨e', he', hc⟩))
        exact (hafter e he).2 c hc
    case once =>
      have hall := (HandsBack.cons kind loc dealt own comments next).perm
      have honce := (hall.pairwise_iff fun hab => Ne.symm hab).mpr hspaced.once
      exact (List.pairwise_append.mp honce).2.1

/-! ### The literals of a program -/

/-- An object or an array literal, with its place and its entries. -/
inductive Expr.IsLiteral : Expr → Loc → List Entry → Prop
  | object (loc : Loc) (entries : List Entry) : IsLiteral (.object loc entries) loc entries
  | array (loc : Loc) (entries : List Entry) : IsLiteral (.array loc entries) loc entries

theorem exprLiterals_eq (es : List Expr) : exprLiterals es = es.flatMap Expr.literals := by
  induction es with
  | nil => rfl
  | cons e es ih => rw [exprLiterals, ih, List.flatMap_cons]

theorem optionLiterals_eq (o : Option Expr) : optionLiterals o = o.toList.flatMap Expr.literals := by
  cases o with
  | none => rfl
  | some e => exact (List.flatMap_singleton Expr.literals e).symm

theorem declaratorLiterals_subset (ds : List Declarator) :
    declaratorLiterals ds ⊆ (ds.flatMap Declarator.parts).flatMap Expr.literals := by
  induction ds with
  | nil => exact List.Subset.refl _
  | cons d ds ih =>
    obtain ⟨binding, init⟩ := d
    rw [declaratorLiterals, optionLiterals_eq, List.flatMap_cons, List.flatMap_append]
    refine List.append_subset.mpr ⟨?_, fun es h => List.mem_append_right _ (ih h)⟩
    rw [Declarator.parts, List.flatMap_append]
    exact fun es h => List.mem_append_left _ (List.mem_append_right _ h)

theorem bodyLiterals_subset (ss : List BodyStatement) :
    bodyLiterals ss ⊆ (ss.flatMap BodyStatement.parts).flatMap Expr.literals := by
  induction ss with
  | nil => exact List.Subset.refl _
  | cons s ss ih =>
    have hrest : bodyLiterals ss ⊆ ((s :: ss).flatMap BodyStatement.parts).flatMap Expr.literals := by
      rw [List.flatMap_cons, List.flatMap_append]
      exact fun es h => List.mem_append_right _ (ih h)
    cases s with
    | declare ds =>
      refine List.append_subset.mpr ⟨fun es h => ?_, hrest⟩
      rw [List.flatMap_cons, List.flatMap_append]
      exact List.mem_append_left _ (declaratorLiterals_subset ds h)
    | returns value =>
      refine List.append_subset.mpr ⟨fun es h => ?_, hrest⟩
      rw [List.flatMap_cons, List.flatMap_append]
      exact List.mem_append_left _ (optionLiterals_eq value ▸ h)
    | other => exact hrest

theorem paramLiterals_subset (ps : List Param) :
    paramLiterals ps ⊆ (ps.flatMap Param.parts).flatMap Expr.literals := by
  induction ps with
  | nil => exact List.Subset.refl _
  | cons p ps ih =>
    obtain ⟨binding, default, rest⟩ := p
    rw [paramLiterals, optionLiterals_eq, List.flatMap_cons, List.flatMap_append]
    refine List.append_subset.mpr ⟨?_, fun es h => List.mem_append_right _ (ih h)⟩
    rw [Param.parts, List.flatMap_append]
    exact fun es h => List.mem_append_left _ (List.mem_append_right _ h)

theorem FunctionLit.literals_subset (f : FunctionLit) :
    f.literals ⊆ f.parts.flatMap Expr.literals := by
  obtain ⟨name, params, body⟩ := f
  rw [literals, parts, List.flatMap_append]
  refine List.append_subset.mpr ⟨fun es h => ?_, fun es h => List.mem_append_right _ ?_⟩
  · exact List.mem_append_left _ (paramLiterals_subset params h)
  · cases body with
    | expr value => exact List.flatMap_singleton Expr.literals value ▸ h
    | block ss => exact bodyLiterals_subset ss h

/-- A literal in an expression is the expression, or it is in what the expression is made of. -/
theorem Expr.exists_of_mem_literals {e : Expr} {entries : List Entry} (h : entries ∈ e.literals) :
    (∃ loc, e.IsLiteral loc entries) ∨ entries ∈ e.parts.flatMap Expr.literals := by
  cases e with
  | object loc own | array loc own =>
    rcases List.mem_cons.mp h with rfl | h
    · exact Or.inl ⟨loc, by constructor⟩
    · rw [entryLiterals_eq, exprLiterals_eq] at h
      exact Or.inr h
  | function loc f => exact Or.inr (f.literals_subset h)
  | lit _ _ | regex _ _ _ | ident _ _ | unmodelled _ _ => cases h
  | _ =>
    refine Or.inr ?_
    simpa [literals, parts, exprLiterals_eq, or_assoc] using h

namespace Program

variable {p : Program} {entries : List Entry}

theorem Has.exists_of_mem_literals {e : Expr} (he : p.Has e) (h : entries ∈ e.literals) :
    ∃ literal loc, p.Has literal ∧ literal.IsLiteral loc entries := by
  rcases e.exists_of_mem_literals h with ⟨loc, hliteral⟩ | hparts
  · exact ⟨e, loc, he, hliteral⟩
  · obtain ⟨part, hpart, h⟩ := List.mem_flatMap.mp hparts
    exact (he.inside hpart).exists_of_mem_literals h
termination_by sizeOf e
decreasing_by exact Expr.sizeOf_lt_of_mem_parts hpart

/-- The literals of a program are among its expressions. -/
theorem exists_of_mem_literals (h : entries ∈ p.literals) :
    ∃ literal loc, p.Has literal ∧ literal.IsLiteral loc entries := by
  obtain ⟨s, hs, h⟩ := List.mem_flatMap.mp h
  have hparts : entries ∈ s.kind.parts.flatMap Expr.literals := by
    obtain ⟨kind, loc, comments⟩ := s
    cases kind with
    | declare exported ds => exact declaratorLiterals_subset ds h
    | expression e | exportDefault e => exact List.flatMap_singleton Expr.literals e ▸ h
    | imports _ _ | exportNames _ | other => cases h
  obtain ⟨e, he, h⟩ := List.mem_flatMap.mp hparts
  exact (Has.top hs he).exists_of_mem_literals h

end Program

/-! ### Literals in a layout -/

/-- **A literal in a layout**: its entries fit and have their comments in gaps, and lines are the
lines of the text. -/
structure LiteralAt (l : Layout) (loc : Loc) (entries : List Entry) : Prop where
  fit : EntriesFit loc entries
  line : loc.startLine = l.line loc.lo
  lines : ∀ e ∈ entries, e.loc.startLine = l.line e.loc.lo
  spaced : Spaced l loc.lo loc.hi entries

namespace Layout

variable {l : Layout}

/-- Later offsets are on later lines, or on the same one. -/
theorem line_mono (l : Layout) {a b : Nat} (h : a ≤ b) : l.line a ≤ l.line b := Text.lineAt_mono h

theorem literalAt_attach (hl : InOrder l.comments) {span : Span} {entries : List Entry}
    (hnone : ∀ e ∈ entries, e.comments = .none) (hfit : EntriesFit (l.loc span) entries)
    (hlines : ∀ e ∈ entries, e.loc.startLine = l.line e.loc.lo) :
    LiteralAt l (l.loc span) (l.attach (l.loc span) entries) where
  fit := hfit.attach l
  line := rfl
  lines := l.forall_mem_attach (P := fun e => e.loc.startLine = l.line e.loc.lo) hlines
  spaced := attach_spaced hl hnone hfit.ordered
    (fun e he => ⟨(hfit.inside e he).lo_le, (hfit.inside e he).hi_le⟩) hfit.valid

theorem not_isLiteral_exprAt {e : Script.Expr} {loc loc' : Loc} {entries : List Entry}
    (hdirect : isDirect e = true) : ¬(l.exprAt loc e).IsLiteral loc' entries := by
  intro h
  cases e with
  | object _ _ | array _ _ | wrapped _ _ _ _ => cases hdirect
  | member _ _ _ | assign _ _ _ =>
    simp only [exprAt] at h
    split at h <;> cases h
  | _ => cases h

theorem carries_literalAt (hl : InOrder l.comments) :
    l.Carries fun e => ∀ loc entries, e.IsLiteral loc entries → LiteralAt l loc entries where
  direct _ hdirect _ _ _ h := absurd h (not_isLiteral_exprAt hdirect)
  object := by
    rintro inner span ms hfits hspan houter _ _ ⟨⟩
    refine literalAt_attach hl ?_ (members_fit hfits houter) ?_
    · exact List.forall_mem_map.mpr fun m _ => l.comments_entry m
    · refine List.forall_mem_map.mpr fun m _ => ?_
      rw [l.loc_entry]
      rfl
  array := by
    rintro inner span as hfits hsound hspan houter _ _ ⟨⟩
    refine literalAt_attach hl ?_ (elements_fit hfits houter hsound) ?_
    · exact List.forall_mem_map.mpr fun a _ => rfl
    · exact List.forall_mem_map.mpr fun a _ => rfl
  name _ _ _ := nofun
  method _ _ _ := nofun
  unmodelled _ _ _ := nofun

/-- The line of a comment is the line that it starts on. -/
theorem of_line (text : List Char) (raw : List Script.RawComment) :
    ∀ c ∈ (Layout.of text raw).comments, c.line = (Layout.of text raw).line c.pos := by
  simp only [Layout.of, inOrder]
  induction raw with
  | nil => exact fun c hc => absurd hc List.not_mem_nil
  | cons r raw ih =>
    intro c hc
    rcases mem_insertComment hc with rfl | hc
    · rfl
    · exact ih c hc

end Layout

theorem ParsedSource.exists_layout {source : String} {path : Path} {parsed : ParsedSource}
    (h : ParsedSource.ofText source path = .ok parsed) :
    ∃ l : Layout, (∀ c ∈ l.comments, c.line = l.line c.pos) ∧
      ∀ e, parsed.program.Has e → ∀ loc entries, e.IsLiteral loc entries →
        LiteralAt l loc entries := by
  simp only [ofText] at h
  split at h
  · next tree htree =>
    cases h
    obtain ⟨-, hitems⟩ := Script.parseText_sound htree
    refine ⟨Layout.of (Text.dropByteOrderMark source.toList) tree.comments, Layout.of_line _ _,
      fun e he => ?_⟩
    exact (Layout.carries_literalAt (Layout.of_inOrder _ _)).has hitems he
  · cases h
  · cases h

/-! ### Literals after reattaching -/

@[simp] theorem Expr.loc_mapLiterals (f : List Entry → List Entry) (e : Expr) :
    (e.mapLiterals f).loc = e.loc := by
  cases e <;> rfl

/-- Values may change if they stay where they are. -/
theorem EntriesFit.mapValue {loc : Loc} {entries : List Entry} (h : EntriesFit loc entries)
    {k : Expr → Expr} (hk : ∀ e, (k e).loc = e.loc) :
    EntriesFit loc (entries.map (Entry.mapValue k)) := by
  have hvalue (e : Entry) : (e.mapValue k).value.loc = e.value.loc := by
    cases e
    exact hk _
  constructor
  all_goals simp only [List.forall_mem_map, List.pairwise_map, Entry.loc_mapValue, hvalue]
  exacts [h.valid, h.ordered, h.inside, h.values]

theorem Entry.allComments_mapValue (k : Expr → Expr) (e : Entry) :
    (e.mapValue k).allComments = e.allComments := by
  rw [allComments, comments_mapValue, allComments]

theorem Spaced.mapValue {l : Layout} {lo hi : Nat} {entries : List Entry}
    (h : Spaced l lo hi entries) (k : Expr → Expr) :
    Spaced l lo hi (entries.map (Entry.mapValue k)) := by
  constructor
  all_goals simp only [List.flatMap_map, List.forall_mem_map, List.pairwise_map, Entry.loc_mapValue,
    Entry.comments_mapValue, Entry.allComments_mapValue]
  exacts [h.known, h.inside, h.leading, h.trailing, h.apart, h.once]

/-- **A literal stays one when its comments are reattached.** -/
theorem LiteralAt.changed {l : Layout} {loc : Loc} {entries : List Entry}
    (h : LiteralAt l loc entries) : LiteralAt l loc (changed reattachSiblings entries) where
  fit := by
    have hsiblings : EntriesFit loc (reattachSiblings entries) := by
      rw [← EntriesFit.bare, reattachSiblings_bare, EntriesFit.bare]
      exact h.fit
    exact hsiblings.mapValue (Expr.loc_mapLiterals _)
  line := h.line
  lines := by
    have hlocs := ((reattachSiblings_handsBack entries).map (Expr.mapLiterals reattachSiblings)).locs
    intro e he
    obtain ⟨e', he', hloc⟩ := List.mem_map.mp (hlocs ▸ List.mem_map_of_mem he)
    exact hloc ▸ h.lines e' he'
  spaced :=
    (h.spaced.handsBack (reattachSiblings_handsBack entries) h.fit.valid h.fit.ordered).mapValue _

/-- Looking through arrays and changing literals can be done in any order. -/
theorem throughArrays_mapLiterals {f : List Entry → List Entry} (hf : LeavesValues f) (limit : Nat)
    (e : Expr) : (throughArrays limit (e.mapLiterals f)).2 =
      (throughArrays limit e).2.map (Expr.mapLiterals f) := by
  fun_induction throughArrays limit e with
  | case1 e => rfl
  | case2 limit loc =>
    have hnil : f (mapValues f []) = [] := List.map_eq_nil_iff.mp (hf.values [])
    rw [Expr.mapLiterals, hnil]
    rfl
  | case3 limit loc first entries n element heq ih =>
    obtain ⟨kind, value, place, comments⟩ := first
    have hvalues := hf.values (mapValues f (.mk kind value place comments :: entries))
    obtain ⟨first', rest', heq', hvalue, -⟩ := List.map_eq_cons_iff.mp hvalues
    rw [Expr.mapLiterals, heq']
    change (throughArrays limit first'.value).2 = _
    rw [hvalue]
    rw [heq] at ih
    exact ih
  | case4 limit e hnot =>
    cases e with
    | array loc entries => exact absurd rfl (hnot loc entries)
    | _ => rfl

/-- The entries of a literal of a program, with its place, when all comments have been reattached. -/
def Program.Reattaches (p : Program) (loc : Loc) (entries : List Entry) : Prop :=
  ∃ literal original, p.Has literal ∧ literal.IsLiteral loc original ∧
    entries = changed reattachSiblings original

namespace Program.Reattaches

variable {p : Program} {loc : Loc} {entries : List Entry}

theorem of_mem_literals (h : entries ∈ p.reattach.literals) : ∃ loc, p.Reattaches loc entries := by
  rw [p.literals_reattach] at h
  obtain ⟨original, horiginal, rfl⟩ := List.mem_map.mp h
  obtain ⟨literal, loc, hhas, hliteral⟩ := exists_of_mem_literals horiginal
  exact ⟨loc, literal, original, hhas, hliteral, rfl⟩

theorem tidy (h : p.Reattaches loc entries) : Tidy entries := by
  obtain ⟨literal, original, -, -, rfl⟩ := h
  exact (reattachSiblings_tidy original).map _

/-- The values of the entries are those of the program, with their comments reattached as well. -/
theorem exists_value (h : p.Reattaches loc entries) {entry : Entry} (hentry : entry ∈ entries) :
    ∃ value, p.Has value ∧ entry.value = value.mapLiterals reattachSiblings := by
  obtain ⟨literal, original, hhas, hliteral, rfl⟩ := h
  obtain ⟨entry', hentry', rfl⟩ := List.mem_map.mp hentry
  have hvalue : entry'.value ∈ original.map Entry.value := by
    rw [← leavesValues_reattachSiblings.values]
    exact List.mem_map_of_mem hentry'
  refine ⟨entry'.value, hhas.inside ?_, ?_⟩
  · cases hliteral <;> exact hvalue
  · cases entry'
    rfl

variable {l : Layout}
  (hl : ∀ e, p.Has e → ∀ loc entries, e.IsLiteral loc entries → LiteralAt l loc entries)

include hl

theorem literalAt (h : p.Reattaches loc entries) : LiteralAt l loc entries := by
  obtain ⟨literal, original, hhas, hliteral, rfl⟩ := h
  exact (hl literal hhas loc original hliteral).changed

/-- What is inside arrays stands inside them. -/
theorem throughArrays_inside {limit : Nat} {e node : Expr}
    (h : (throughArrays limit e).2 = some node) (hhas : p.Has e) : node.loc.Inside e.loc := by
  fun_induction throughArrays limit e with
  | case1 e =>
    obtain rfl : e = node := Option.some.inj h
    exact .refl _
  | case2 limit loc => cases h
  | case3 limit loc first entries n element heq ih =>
    have hfit := (hl _ hhas loc _ (.array _ _)).fit
    have hnode := ih (by rw [heq]; exact h) (hhas.inside List.mem_cons_self)
    exact (hnode.trans (hfit.values first (.head _))).trans (hfit.inside first (.head _))
  | case4 limit e hnot =>
    obtain rfl : e = node := Option.some.inj h
    exact .refl _

/-- **Literals nest**, and so do their gaps: the object literal that an entry has for its value,
maybe inside arrays, is a literal as well, and stands inside the entry. -/
theorem value (h : p.Reattaches loc entries) {entry : Entry} (hentry : entry ∈ entries)
    {limit : Nat} {place : Loc} {inner : List Entry}
    (hvalue : (throughArrays limit entry.value).2 = some (.object place inner)) :
    p.Reattaches place inner ∧ place.Inside entry.loc := by
  obtain ⟨value, hhas, heq⟩ := h.exists_value hentry
  rw [heq, throughArrays_mapLiterals leavesValues_reattachSiblings, Option.map_eq_some_iff] at hvalue
  obtain ⟨node, hnode, hobject⟩ := hvalue
  have hinside := throughArrays_inside hl hnode hhas
  have hentryInside := (h.literalAt hl).fit.values entry hentry
  rw [heq, Expr.loc_mapLiterals] at hentryInside
  cases node with
  | object loc' original =>
    cases hobject
    refine ⟨⟨_, original, Document.has_of_throughArrays hnode hhas, .object _ _, ?_⟩,
      hinside.trans hentryInside⟩
    rw [mapValues_eq, leavesValues_reattachSiblings.natural]
    rfl
  | _ => cases hobject

end Program.Reattaches

end SchemaDoc
