import SchemaDoc.Proofs.Gaps

/-!
# Comments behind an opening brace

A field and the fields nested in it share the comments around the opening brace of its definition: a
line comment on the line of the brace describes the field around, and what is in front of a nested
field describes that one. This is decided in two places. The field around looks at the first entry of
its literal and takes the line comments on the line of the brace (`count_around`). The nested fields
all leave out what is on this line, of either kind (`count_own`, `count_nested`).

No comment is used twice, as it stands in a gap of one literal only. A line comment on the line of
the brace is in front of the first nested field (`first_of_line_comment`), so none of these is lost.
But a block comment on this line is used by nobody, in front of whichever field it stands.
-/

namespace SchemaDoc.Document

/-! ### The literal of a shape -/

/-- No line is claimed for what a shape nests. -/
def Unclaimed (shape : Shape) : Prop := ∀ entries line, shape.children ≠ .entries entries (some line)

/-- **A shape and its literal.** A shape has the object literal that stands inside the arrays of its
definition. A line is only claimed when the entries of this literal are nested, and it is the line
of the opening brace. -/
structure OfNode (node : Option Expr) (shape : Shape) : Prop where
  object : ∀ loc entries, shape.object = some (loc, entries) ↔ node = some (.object loc entries)
  claimed : ∀ entries line, shape.children = .entries entries (some line) →
    ∃ loc, node = some (.object loc entries) ∧ line = loc.startLine

section Shapes

variable {env : Environment}

theorem OfValue.unclaimed {depth : Nat} {shape : Shape} (h : OfValue depth shape) :
    Unclaimed shape := by
  intro entries line hchildren
  have hbody := h.body
  rw [Shape.body?, hchildren] at hbody
  cases hbody

theorem arrayMarkerShape_unclaimed (key : String) (arrays : Nat) (marker : Expr) :
    Gives env (fun _ => True) (arrayMarkerShape key arrays marker) Unclaimed := by
  unfold arrayMarkerShape
  split
  split
  · exact .pure nofun
  · exact .pure nofun
  · exact (Gives.anything _).bind fun _ _ => .pure nofun

theorem plainMarkerShape_unclaimed (key : String) (arrays : Nat) (marker : Expr) :
    Gives env (fun _ => True) (plainMarkerShape key arrays marker) Unclaimed := by
  refine (Gives.anything _).bind fun fields _ => ?_
  split
  · exact .pure nofun
  · exact (Gives.anything _).bind fun _ _ => .pure nofun

/-- What the options of an object literal say claims a line for its own entries only. -/
theorem slotShape_claims (key : String) (arrays : Nat) (own : List Entry) (line : Nat)
    (all : List (String × Slot)) :
    Gives env (fun _ => True) (slotShape key arrays (.entries own (some line)) all) fun shape =>
      ∀ entries line', shape.children = .entries entries (some line') →
        entries = own ∧ line' = line := by
  have hown : ∀ entries line', Children.entries own (some line) = .entries entries (some line') →
      entries = own ∧ line' = line := by
    rintro _ _ ⟨⟩
    exact ⟨rfl, rfl⟩
  have hunclaimed {shape : Shape} (h : Unclaimed shape) (entries : List Entry) (line' : Nat)
      (hchildren : shape.children = .entries entries (some line')) :
      entries = own ∧ line' = line := absurd hchildren (h entries line')
  refine (Gives.anything _).bind fun config _ => ?_
  dsimp only
  split
  · split
    · exact .pure nofun
    · exact .pure hown
  · split
    · exact .pure nofun
    · exact .pure hown
  · exact (arrayMarkerShape_unclaimed key arrays _).bind fun _ h => .pure (hunclaimed h)
  · exact (plainMarkerShape_unclaimed key arrays _).bind fun _ h => .pure (hunclaimed h)
  · exact (valueShape_gives _ key arrays _).bind fun _ h => .pure (hunclaimed h.unclaimed)

theorem nodeShape_ofNode (key : String) (arrays : Nat) (node : Expr) :
    Gives env (fun _ => True) (nodeShape key arrays node) (OfNode (some node)) := by
  have hplain {shape : Shape} (hobject : shape.object = none) (hclaimed : Unclaimed shape)
      (hnode : ∀ loc entries, node ≠ .object loc entries) : OfNode (some node) shape := by
    refine ⟨fun loc entries => ?_, fun entries line h => absurd h (hclaimed entries line)⟩
    simp [hobject, hnode]
  have hvalue (v : Value) (hnode : ∀ loc entries, node ≠ .object loc entries) :
      Gives env (fun _ => True) (do valueShape (← Eval.config) key arrays v)
        (OfNode (some node)) := by
    refine (Gives.anything _).bind fun config _ => ?_
    exact (valueShape_gives config key arrays v).imp fun _ h => hplain h.object h.unclaimed hnode
  unfold nodeShape
  split
  · exact .pure (hplain rfl nofun nofun)
  · refine (Gives.anything _).bind fun value _ => ?_
    split
    · exact hvalue _ nofun
    · exact hvalue _ nofun
    · exact .pure (hplain rfl nofun nofun)
    · exact .pure (hplain rfl nofun nofun)
  · exact .pure (hplain rfl nofun nofun)
  · exact .pure (hplain rfl nofun nofun)
  next loc own =>
    refine (Gives.anything _).bind fun all _ => ?_
    refine (slotShape_claims key arrays own loc.startLine all).bind fun shape h => .pure ?_
    constructor
    · simp
    · intro entries line hchildren
      obtain ⟨rfl, rfl⟩ := h entries line hchildren
      exact ⟨loc, rfl, rfl⟩
  next hobject =>
    refine (Gives.anything _).bind fun fields _ => ?_
    split
    · exact .pure (hplain rfl nofun hobject)
    · refine (Gives.anything _).bind fun config _ => ?_
      refine (Gives.anything _).bind fun v _ => ?_
      exact (valueShape_gives config key arrays v).imp fun _ h => hplain h.object h.unclaimed hobject

theorem shapeOf_ofNode (key : String) (definition : Expr) :
    Gives env (fun _ => True) (shapeOf key definition)
      (OfNode (throughArrays arrayLimit definition).2) := by
  rcases hthrough : throughArrays arrayLimit definition with ⟨arrays, _ | node⟩
  · simp only [shapeOf, hthrough]
    exact .pure ⟨by simp [Shape.scalar], fun _ _ h => by cases h⟩
  · simp only [shapeOf, hthrough]
    exact nodeShape_ofNode key arrays node

end Shapes

/-! ### The comments of fields -/

/-- The line comments behind the opening brace of the literal of a shape. -/
def Shape.opening (shape : Shape) : List Comment :=
  match shape.object with
  | some (loc, first :: _) =>
    first.comments.leading.filter fun c => c.kind == .line && c.line == loc.startLine
  | _ => []

theorem Shape.opening_eq {shape : Shape} {loc : Loc} {first : Entry} {rest : List Entry}
    (h : shape.object = some (loc, first :: rest)) : shape.opening =
      first.comments.leading.filter fun c => c.kind == .line && c.line == loc.startLine := by
  rw [opening, h]

theorem fieldComments_eq (entry : Entry) (shape : Shape) (line : Option Nat) :
    fieldComments entry shape line =
      entry.comments.leading.filter (fun c => some c.line != line) ++ shape.opening ++
        entry.comments.trailing.filter (·.kind == .line) :=
  rfl

theorem mem_of_mem_fieldComments {entry : Entry} {shape : Shape} {line : Option Nat} {c : Comment}
    (h : c ∈ fieldComments entry shape line) : c ∈ entry.allComments ∨ c ∈ shape.opening := by
  rw [fieldComments_eq] at h
  rcases List.mem_append.mp h with h | h
  · rcases List.mem_append.mp h with h | h
    · exact Or.inl (List.mem_append_left _ (List.mem_of_mem_filter h))
    · exact Or.inr h
  · exact Or.inl (List.mem_append_right _ (List.mem_of_mem_filter h))

/-- The comments in the description of a field and in those of the fields nested in it. -/
def describing (parent : Entry) (shape : Shape) (line : Option Nat) (children : List Entry)
    (shapes : Entry → Shape) (claimed : Option Nat) : List Comment :=
  fieldComments parent shape line ++
    (children.filter (·.key?.isSome)).flatMap fun child => fieldComments child (shapes child) claimed

section Counting

variable {p : Program} {l : Layout} {loc : Loc} {entries : List Entry}
  (hl : ∀ e, p.Has e → ∀ loc entries, e.IsLiteral loc entries → LiteralAt l loc entries)
  (h : p.Reattaches loc entries)

include hl h

/-- The comments behind the opening brace of a definition are inside the field. -/
theorem opening_inside {entry : Entry} (hentry : entry ∈ entries) {shape : Shape}
    (hshape : OfNode (throughArrays arrayLimit entry.value).2 shape) {c : Comment}
    (hc : c ∈ shape.opening) : entry.loc.lo ≤ c.pos ∧ c.pos < entry.loc.hi := by
  rw [Shape.opening] at hc
  split at hc
  next place first rest hobject =>
    obtain ⟨hinner, hinside⟩ := h.value hl hentry ((hshape.object place _).mp hobject)
    have hpos := (hinner.literalAt hl).spaced.inside c
      (List.mem_append_left _ (List.mem_append_left _ (List.mem_of_mem_filter hc)))
    have hlo := hinside.lo_le
    have hhi := hinside.hi_le
    omega
  next => exact absurd hc List.not_mem_nil

/-- **Only the first field has line comments on the line of the brace.** Another field would stand
on that line as well, behind it, and reattaching would have handed the comment to that field. -/
theorem first_of_line_comment (hlines : ∀ c ∈ l.comments, c.line = l.line c.pos) {child : Entry}
    (hchild : child ∈ entries) {c : Comment} (hc : c ∈ child.comments.leading)
    (hkind : c.kind = .line) (hline : c.line = loc.startLine) :
    ∃ rest, entries = child :: rest := by
  obtain ⟨front, back, rfl⟩ := List.append_of_mem hchild
  rcases List.eq_nil_or_concat' front with rfl | ⟨front, before, rfl⟩
  · exact ⟨back, rfl⟩
  have hliteral := h.literalAt hl
  have hbefore : before ∈ front ++ [before] ++ child :: back :=
    List.mem_append_left _ (List.mem_append_right _ (List.mem_singleton_self _))
  have hapart := (List.pairwise_append.mp hliteral.spaced.apart).2.2 before
    (List.mem_append_right _ (List.mem_singleton_self _)) child (.head _)
  have hall : c ∈ child.allComments := List.mem_append_left _ hc
  have hknown := hliteral.spaced.known c (List.mem_flatMap.mpr ⟨child, hchild, hall⟩)
  have hsame : c.line = before.loc.startLine := by
    have hbehind := hapart.2 c hall
    have hvalid := (hliteral.fit.valid before hbefore).lo_le
    have hfrom := l.line_mono (hliteral.fit.inside before hbefore).lo_le
    have hto := l.line_mono (Nat.le_trans hvalid hbehind)
    rw [← hliteral.line, ← hliteral.lines before hbefore] at hfrom
    rw [← hliteral.lines before hbefore, ← hlines c hknown] at hto
    omega
  have htidy := h.tidy
  rw [List.append_assoc] at htidy
  have hchain := List.IsChain.right_of_append htidy
  exact absurd ⟨hkind, hsame⟩ ((List.isChain_cons_cons.mp hchain).1 c hc)

/-- **A nested field** uses the comments in front of it that are not on the claimed line. -/
theorem count_own {child : Entry} (hchild : child ∈ entries) {shape : Shape}
    (hshape : OfNode (throughArrays arrayLimit child.value).2 shape) {c : Comment}
    (hc : c ∈ child.comments.leading) (line : Nat) :
    (fieldComments child shape (some line)).count c = if c.line = line then 0 else 1 := by
  have hspaced := (h.literalAt hl).spaced
  have hbefore := hspaced.leading child hchild c hc
  have hopening : c ∉ shape.opening := fun hmem => by
    have hinside := opening_inside hl h hchild hshape hmem
    omega
  have htrailing : c ∉ child.comments.trailing := fun hmem => by
    have hbehind := hspaced.trailing child hchild c hmem
    have hvalid := ((h.literalAt hl).fit.valid child hchild).lo_le
    omega
  rw [fieldComments_eq, List.count_append, List.count_append, List.count_eq_zero.mpr hopening,
    List.count_eq_zero.mpr fun hmem => htrailing (List.mem_of_mem_filter hmem)]
  split
  next hline =>
    rw [List.count_eq_zero.mpr fun hmem => by simpa [hline] using List.of_mem_filter hmem]
  next hline =>
    rw [List.count_filter (by simpa using hline), (hspaced.nodup_leading hchild).count, if_pos hc]

/-- **All nested fields** together use the same comments: none of them gets at the comments in front
of another one. -/
theorem count_nested {shapes : Entry → Shape}
    (hshapes : ∀ e ∈ entries, e.key?.isSome → OfNode (throughArrays arrayLimit e.value).2 (shapes e))
    {child : Entry} (hchild : child ∈ entries) (hkeyed : child.key?.isSome) {c : Comment}
    (hc : c ∈ child.comments.leading) (line : Nat) :
    ((entries.filter (·.key?.isSome)).flatMap fun e =>
        fieldComments e (shapes e) (some line)).count c = if c.line = line then 0 else 1 := by
  have hspaced := (h.literalAt hl).spaced
  have hall : c ∈ child.allComments := List.mem_append_left _ hc
  -- What a field uses besides its own comments is inside it, and all comments are outside.
  have hothers (e : Entry) (he : e ∈ entries) (hkey : e.key?.isSome) (hnot : c ∉ e.allComments) :
      c ∉ fieldComments e (shapes e) (some line) := by
    intro hmem
    have hopening := (mem_of_mem_fieldComments hmem).resolve_left hnot
    have hinside := opening_inside hl h he (hshapes e he hkey) hopening
    have houtside := hspaced.outside hchild he hall
    omega
  have hown := count_own hl h hchild (hshapes child hchild hkeyed) hc line
  have hnodup := hspaced.nodup
  obtain ⟨front, back, rfl⟩ := List.append_of_mem hchild
  rw [List.flatMap_append, List.flatMap_cons] at hnodup
  obtain ⟨-, hnodup, hfront⟩ := List.nodup_append.mp hnodup
  obtain ⟨-, -, hback⟩ := List.nodup_append.mp hnodup
  have hzero {side : List Entry} (hsub : side ⊆ front ++ child :: back)
      (hside : ∀ e ∈ side, c ∉ e.allComments) :
      ((side.filter (·.key?.isSome)).flatMap fun e =>
        fieldComments e (shapes e) (some line)).count c = 0 := by
    refine List.count_eq_zero.mpr fun hmem => ?_
    obtain ⟨e, he, hmem⟩ := List.mem_flatMap.mp hmem
    obtain ⟨he, hkey⟩ := List.mem_filter.mp he
    exact hothers e (hsub he) hkey (hside e he) hmem
  rw [List.filter_append, List.filter_cons_of_pos (p := fun e : Entry => e.key?.isSome) hkeyed,
    List.flatMap_append, List.flatMap_cons,
    List.count_append, List.count_append, hown, hzero (List.subset_append_left _ _) fun e he hmem =>
      hfront c (List.mem_flatMap.mpr ⟨e, he, hmem⟩) c (List.mem_append_left _ hall) rfl,
    hzero (fun e he => List.mem_append_right _ (.tail _ he)) fun e he hmem =>
      hback c hall c (List.mem_flatMap.mpr ⟨e, he, hmem⟩) rfl]
  omega

/-- **The field around** uses the line comments on the line of the opening brace. -/
theorem count_around (hlines : ∀ c ∈ l.comments, c.line = l.line c.pos) {parent : Entry}
    (hparent : parent ∈ entries) {place : Loc} {inner : List Entry}
    (hvalue : (throughArrays arrayLimit parent.value).2 = some (.object place inner)) {shape : Shape}
    (hshape : OfNode (throughArrays arrayLimit parent.value).2 shape) (line : Option Nat)
    {child : Entry} (hchild : child ∈ inner) {c : Comment} (hc : c ∈ child.comments.leading) :
    (fieldComments parent shape line).count c =
      if c.kind = .line ∧ c.line = place.startLine then 1 else 0 := by
  obtain ⟨hinner, hinside⟩ := h.value hl hparent hvalue
  have hspaced := (hinner.literalAt hl).spaced
  have hparentSpaced := (h.literalAt hl).spaced
  have hall : c ∈ inner.flatMap Entry.allComments :=
    List.mem_flatMap.mpr ⟨child, hchild, List.mem_append_left _ hc⟩
  have hnot : c ∉ parent.allComments := fun hmem => by
    have houtside := hparentSpaced.outside hparent hparent hmem
    have hpos := hspaced.inside c hall
    have hlo := hinside.lo_le
    have hhi := hinside.hi_le
    omega
  have hopening : shape.opening.count c =
      if c.kind = .line ∧ c.line = place.startLine then 1 else 0 := by
    obtain ⟨first, rest, rfl⟩ := List.exists_cons_of_ne_nil (List.ne_nil_of_mem hchild)
    rw [Shape.opening_eq ((hshape.object place _).mpr hvalue)]
    split
    next hbrace =>
      obtain ⟨rest', hfirst⟩ :=
        first_of_line_comment hl hinner hlines hchild hc hbrace.1 hbrace.2
      obtain ⟨rfl, -⟩ := List.cons.inj hfirst
      rw [List.count_filter (by simpa using hbrace), (hspaced.nodup_leading hchild).count, if_pos hc]
    next hbrace =>
      exact List.count_eq_zero.mpr fun hmem => hbrace (by simpa using List.of_mem_filter hmem)
  rw [fieldComments_eq, List.count_append, List.count_append, hopening,
    List.count_eq_zero.mpr fun hmem => hnot (List.mem_append_left _ (List.mem_of_mem_filter hmem)),
    List.count_eq_zero.mpr fun hmem => hnot (List.mem_append_right _ (List.mem_of_mem_filter hmem))]
  omega

end Counting

/-- **Comments between a field and its nested fields.** In every file, take a field whose definition
is an object literal with its own entries nested. A comment in front of a nested field is used by the
field around if it is a line comment on the line of the opening brace, and by the nested field if it
is not on this line. Thus it is used once, unless it is a block comment on this line. -/
theorem nested_comments_used_once_unless_block_at_brace {source : String} {path : Path}
    {parsed : ParsedSource} (hparsed : ParsedSource.ofText source path = .ok parsed)
    {outer : List Entry} (houter : outer ∈ parsed.program.reattach.literals) {parent : Entry}
    (hparent : parent ∈ outer) {place : Loc} {inner : List Entry}
    (hvalue : (throughArrays arrayLimit parent.value).2 = some (.object place inner))
    {env : Environment} {key : String} {shape : Shape} {s s' : Session}
    (hshape : shapeOf key parent.value env s = (.ok shape, s')) {claimed : Nat}
    (hchildren : shape.children = .entries inner (some claimed)) {shapes : Entry → Shape}
    (hshapes : ∀ child ∈ inner, ∀ key, child.key? = some key →
      ∃ t t', shapeOf key child.value env t = (.ok (shapes child), t'))
    {child : Entry} (hchild : child ∈ inner) (hkeyed : child.key?.isSome) {c : Comment}
    (hc : c ∈ child.comments.leading) (line : Option Nat) :
    (c ∈ fieldComments parent shape line ↔ c.kind = .line ∧ c.line = place.startLine) ∧
      (c ∈ fieldComments child (shapes child) (some claimed) ↔ c.line ≠ place.startLine) ∧
      (describing parent shape line inner shapes (some claimed)).count c =
        if c.kind = .block ∧ c.line = place.startLine then 0 else 1 := by
  obtain ⟨l, hlines, hl⟩ := ParsedSource.exists_layout hparsed
  obtain ⟨loc, hreattached⟩ := Program.Reattaches.of_mem_literals houter
  obtain ⟨hinner, -⟩ := hreattached.value hl hparent hvalue
  have hnode := (shapeOf_ofNode key parent.value s).1 shape (by rw [hshape])
  obtain rfl : claimed = place.startLine := by
    obtain ⟨place', hplace, hline⟩ := hnode.claimed inner claimed hchildren
    cases hvalue.symm.trans hplace
    exact hline
  have hnodes (e : Entry) (he : e ∈ inner) (hkey : e.key?.isSome) :
      OfNode (throughArrays arrayLimit e.value).2 (shapes e) := by
    obtain ⟨name, hname⟩ := Option.isSome_iff_exists.mp hkey
    obtain ⟨t, t', hrun⟩ := hshapes e he name hname
    exact (shapeOf_ofNode name e.value t).1 (shapes e) (by rw [hrun])
  have haround := count_around hl hreattached hlines hparent hvalue hnode line hchild hc
  have hown := count_own hl hinner hchild (hnodes child hchild hkeyed) hc place.startLine
  have hnested := count_nested hl hinner hnodes hchild hkeyed hc place.startLine
  refine ⟨?_, ?_, ?_⟩
  · rw [← List.count_pos_iff, haround]
    split
    next hbrace => exact iff_of_true Nat.one_pos hbrace
    next hbrace => exact iff_of_false (Nat.lt_irrefl 0) hbrace
  · rw [← List.count_pos_iff, hown]
    split
    next hline => exact iff_of_false (Nat.lt_irrefl 0) fun hne => hne hline
    next hline => exact iff_of_true Nat.one_pos hline
  · rw [describing, List.count_append, haround, hnested]
    by_cases hline : c.line = place.startLine
    · cases hkind : c.kind <;> simp [hline]
    · simp [hline]

/-! ### Examples -/

/-- A field that nests one field, in a file. -/
structure NestedField where
  parsed : ParsedSource
  env : Environment
  parent : Entry
  place : Loc
  child : Entry
  shape : Shape
  nested : Shape

namespace NestedField

/-- The comments in the descriptions of both fields. -/
def comments (f : NestedField) : List Comment :=
  describing f.parent f.shape none [f.child] (fun _ => f.nested) (some f.place.startLine)

/-- The fields are in a file with this text, have these shapes, and are shown as they are written. -/
structure In (f : NestedField) (text : String) : Prop where
  parsed : ParsedSource.ofText text "model.js" = .ok f.parsed
  literal : [f.parent] ∈ f.parsed.program.reattach.literals
  value : f.parent.value = .object f.place [f.child]
  shape : ∃ key s s', f.parent.key? = some key ∧
    shapeOf key f.parent.value f.env s = (.ok f.shape, s')
  children : f.shape.children = .entries [f.child] (some f.place.startLine)
  nested : ∃ key s s', f.child.key? = some key ∧
    shapeOf key f.child.value f.env s = (.ok f.nested, s')

/-- The first literal of a program, if it is one field that nests one field. -/
def first? : List (List Entry) → Option (Entry × Loc × Entry)
  | [.mk kind (.object place [child]) loc comments] :: _ =>
    some (.mk kind (.object place [child]) loc comments, place, child)
  | _ => none

theorem of_first? {literals : List (List Entry)} {parent child : Entry} {place : Loc}
    (h : first? literals = some (parent, place, child)) :
    [parent] ∈ literals ∧ parent.value = .object place [child] := by
  unfold first? at h
  split at h
  next =>
    cases h
    exact ⟨List.mem_cons_self, rfl⟩
  next => cases h

/-- The shape of a field, from a session in which nothing has happened. -/
def shape? (env : Environment) (entry : Entry) : Option Shape := do
  let key ← entry.key?
  (shapeOf key entry.value env (Session.start (.empty false))).1.toOption

theorem of_shape? {env : Environment} {entry : Entry} {shape : Shape}
    (h : shape? env entry = some shape) : ∃ key s s', entry.key? = some key ∧
      shapeOf key entry.value env s = (.ok shape, s') := by
  obtain ⟨key, hkey, h⟩ := Option.bind_eq_some_iff.mp h
  exact ⟨key, _, _, hkey, Prod.ext (eq_ok_of_toOption h) rfl⟩

/-- Looks for such fields in a text. -/
def find? (text : String) : Option NestedField := do
  let parsed ← (ParsedSource.ofText text "model.js").toOption
  let (index, _) ← documentOf? 2 text
  let (parent, place, child) ← first? parsed.program.reattach.literals
  let shape ← shape? ⟨index, .standard⟩ parent
  let nested ← shape? ⟨index, .standard⟩ child
  match shape.children with
  | .entries _ (some _) => some ⟨parsed, ⟨index, .standard⟩, parent, place, child, shape, nested⟩
  | _ => none

theorem in_of_find? {text : String} {f : NestedField} (h : find? text = some f) : f.In text := by
  obtain ⟨parsed, hparsed, h⟩ := Option.bind_eq_some_iff.mp h
  obtain ⟨⟨index, document⟩, -, h⟩ := Option.bind_eq_some_iff.mp h
  obtain ⟨⟨parent, place, child⟩, hfirst, h⟩ := Option.bind_eq_some_iff.mp h
  obtain ⟨shape, hshape, h⟩ := Option.bind_eq_some_iff.mp h
  obtain ⟨nested, hnested, h⟩ := Option.bind_eq_some_iff.mp h
  obtain ⟨hliteral, hvalue⟩ := of_first? hfirst
  split at h
  next entries line hchildren =>
    cases h
    obtain ⟨key, s, s', hkey, hrun⟩ := of_shape? hshape
    refine ⟨eq_ok_of_toOption hparsed, hliteral, hvalue, ⟨key, s, s', hkey, hrun⟩, ?_,
      of_shape? hnested⟩
    have hnode := (shapeOf_ofNode key parent.value s).1 shape (by rw [hrun])
    obtain ⟨loc, hobject, rfl⟩ := hnode.claimed entries line hchildren
    rw [hvalue] at hobject
    cases hobject
    exact hchildren
  next => cases h

end NestedField

/-- **A block comment behind an opening brace is lost.** It stands in front of the nested field, but
neither this field nor the one around uses it, and the document shows it nowhere. -/
theorem block_at_brace_unused :
    let text := "const S = new Schema(\x7b\n  address: \x7b /* where to ship */\n" ++
      "    street: String\n  \x7d\n\x7d);\n"
    (∃ f : NestedField, f.In text ∧
      ∃ c ∈ f.child.comments.leading, c.text = " where to ship " ∧ f.comments.count c = 0) ∧
    ∃ index log s, ModuleIndex.ofText (.empty []) text "model.js" (.empty false) = .ok (index, log) ∧
      render ⟨index, .standard⟩ (Session.start (.empty false)) =
        some (.ok "# S\n- **address** \x60Object\x60\n  - **street** \x60String\x60\n", s) := by
  intro text
  have hfound : ((NestedField.find? text).any fun f => f.child.comments.leading.any fun c =>
      c.text = " where to ship " ∧ f.comments.count c = 0) = true := by decide +kernel
  have hdocument : ((documentOf? 2 text).any fun found =>
      found.2 == "# S\n- **address** \x60Object\x60\n  - **street** \x60String\x60\n") = true := by
    decide +kernel
  constructor
  · obtain ⟨f, hf, hunused⟩ := (Option.any_eq_true _ _).mp hfound
    obtain ⟨c, hc, hcount⟩ := List.any_eq_true.mp hunused
    exact ⟨f, f.in_of_find? hf, c, hc, of_decide_eq_true hcount⟩
  · obtain ⟨⟨index, document⟩, hindex, hshown⟩ := (Option.any_eq_true _ _).mp hdocument
    obtain rfl : document = _ := eq_of_beq hshown
    obtain ⟨⟨log, hindex⟩, s, hrender⟩ := render_of_documentOf? hindex
    exact ⟨index, log, s, hindex, hrender⟩

/-- Line comments on the line of a brace and below it are used by one of the two fields each. -/
theorem line_comments_of_address_used_once :
    let text := "const S = new Schema(\x7b\n  address: \x7b // where to ship\n" ++
      "    // street and number\n    street: String\n  \x7d\n\x7d);\n"
    ∃ f : NestedField, f.In text ∧
      f.child.comments.leading.map Comment.text = [" where to ship", " street and number"] ∧
      ∀ c ∈ f.child.comments.leading, f.comments.count c = 1 := by
  intro text
  have hfound : ((NestedField.find? text).any fun f =>
      f.child.comments.leading.map Comment.text = [" where to ship", " street and number"] ∧
        ∀ c ∈ f.child.comments.leading, c.kind = .line) = true := by decide +kernel
  obtain ⟨f, hf, hlines⟩ := (Option.any_eq_true _ _).mp hfound
  obtain ⟨htexts, hkinds⟩ := of_decide_eq_true hlines
  have hin := f.in_of_find? hf
  obtain ⟨key, s, s', -, hshape⟩ := hin.shape
  obtain ⟨name, t, t', hname, hnested⟩ := hin.nested
  have hvalue : (throughArrays arrayLimit f.parent.value).2 = some (.object f.place [f.child]) := by
    rw [hin.value]
    rfl
  have hshapes : ∀ child ∈ [f.child], ∀ key, child.key? = some key →
      ∃ t t', shapeOf key child.value f.env t = (.ok ((fun _ => f.nested) child), t') := by
    intro child hchild key hkey
    obtain rfl := List.mem_singleton.mp hchild
    obtain rfl := Option.some.inj (hname.symm.trans hkey)
    exact ⟨t, t', hnested⟩
  refine ⟨f, hin, htexts, fun c hc => ?_⟩
  have hused : f.comments.count c = _ :=
    (nested_comments_used_once_unless_block_at_brace hin.parsed hin.literal
      (List.mem_singleton_self _) hvalue hshape hin.children hshapes (List.mem_singleton_self _)
      (by rw [hname]; rfl) hc none).2.2
  rw [hused, hkinds c hc]
  rfl

end SchemaDoc.Document
