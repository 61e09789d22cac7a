import SchemaDoc.Proofs.Labels
import SchemaDoc.Proofs.ObjectMarkers

/-!
# How many arrays are around a type

A field shows its type between one pair of brackets for each array around it, and no more than two
arrays are told apart: an array inside two others is just an `Array`. The arrays are counted in
three places. Two of them share their count: looking through a resolved list goes on from the arrays
that are around it already, so a value never has more than two (`valueShape_arrays`). The third one
starts anew. Behind the arrays of a definition there may be an object literal whose type marker is
an array literal, and up to two arrays of the marker are added to up to two around the object.

So the limit holds for every definition but those, and for those the count is known: it is the sum
of the two counts (`AddsArrays`), which may be three or four.
-/

namespace SchemaDoc.Document

variable {env : Environment}

theorem throughArrays_le (limit : Nat) (e : Expr) : (throughArrays limit e).1 ≤ limit := by
  fun_induction throughArrays limit e with
  | case1 | case4 => exact Nat.zero_le _
  | case2 limit => exact Nat.le_add_left 1 limit
  | case3 limit loc first entries n element heq ih =>
    rw [heq] at ih
    exact Nat.succ_le_succ ih

/-! ### Values -/

/-- A shape has the arrays that are around it, and perhaps more, up to the limit. -/
def WithinLimit (arrays : Nat) (shape : Shape) : Prop :=
  arrays ≤ shape.arrays ∧ shape.arrays ≤ arrayLimit

mutual
/-- **A value has no more arrays than are told apart**, whatever lists and type markers it is made
of, as long as it does not stand inside more of them already. -/
theorem valueShape_arrays {reason : Stop → Prop} (config : Config) (key : String) {arrays : Nat}
    (harrays : arrays ≤ arrayLimit) : (v : Value) →
    Gives env reason (valueShape config key arrays v) (WithinLimit arrays)
  | .list [] => by
    unfold valueShape
    split
    next hlt => exact .pure ⟨Nat.le_succ arrays, hlt⟩
    next => exact .pure ⟨Nat.le_refl arrays, harrays⟩
  | .list (first :: _) => by
    unfold valueShape
    split
    next hlt =>
      exact (valueShape_arrays config key hlt first).imp fun _ h => ⟨Nat.le_of_succ_le h.1, h.2⟩
    next => exact .pure ⟨Nat.le_refl arrays, harrays⟩
  | .map fields => by
    unfold valueShape
    split
    next marker hmarker =>
      exact (markerShape?_arrays config key harrays fields marker hmarker).bind fun _ h => .pure h
    next =>
      dsimp only
      split <;> exact .pure ⟨Nat.le_refl arrays, harrays⟩
  | .num _ | .bool _ | .null | .bigint _ | .typeLabel _ | .str _ =>
    .pure ⟨Nat.le_refl arrays, harrays⟩
  | .pattern _ _ | .function _ _ _ | .native _ | .unknown =>
    (unknownType_gives _ _).bind fun _ _ => .pure ⟨Nat.le_refl arrays, harrays⟩

theorem markerShape?_arrays {reason : Stop → Prop} (config : Config) (key : String) {arrays : Nat}
    (harrays : arrays ≤ arrayLimit) : (fields : List (String × Value)) → ∀ x,
    markerShape? config key arrays fields = some x → Gives env reason x (WithinLimit arrays)
  | [], _, h => nomatch h
  | (_, v) :: fields, x, h => by
    unfold markerShape? at h
    split at h
    · obtain rfl := Option.some.inj h
      exact valueShape_arrays config key harrays v
    · exact markerShape?_arrays config key harrays fields x h
end

/-! ### Definitions as they are written -/

/-- How many arrays the type marker among some options adds: those that are looked through if it is
an array literal, and none otherwise. -/
def markerArrays (config : Config) (options : List (String × Slot)) : Nat :=
  match lookupKey? config.typeMarker options with
  | some (.node (.array loc elements)) => (throughArrays arrayLimit (.array loc elements)).1
  | _ => 0

/-- A shape with the arrays of two counts, or with a count of its own that is within the limit. -/
def Counted (arrays extra : Nat) (shape : Shape) : Prop :=
  shape.arrays = arrays + extra ∨ extra = 0 ∧ WithinLimit arrays shape

theorem arrayMarkerShape_arrays (key : String) (arrays : Nat) (marker : Expr) :
    Gives env (fun _ => True) (arrayMarkerShape key arrays marker) fun shape =>
      shape.arrays = arrays + (throughArrays arrayLimit marker).1 := by
  unfold arrayMarkerShape
  dsimp only
  split
  · exact .pure rfl
  · exact .pure rfl
  · exact (Gives.anything _).bind fun _ _ => .pure rfl

theorem plainMarkerShape_arrays (key : String) (arrays : Nat) (marker : Expr) :
    Gives env (fun _ => True) (plainMarkerShape key arrays marker) fun shape =>
      shape.arrays = arrays := by
  refine (Gives.anything _).bind fun found _ => ?_
  cases found with
  | some entries => exact .pure rfl
  | none => exact (Gives.anything _).bind fun _ _ => .pure rfl

/-- The options of an object literal add the arrays of their type marker, and nothing else does. -/
theorem slotShape_arrays (key : String) {arrays : Nat} (harrays : arrays ≤ arrayLimit)
    (own : Children) (options : List (String × Slot)) :
    Gives env (fun _ => True) (slotShape key arrays own options)
      (Counted arrays (markerArrays env.config options)) := by
  refine Gives.config.bind ?_
  rintro _ rfl
  unfold markerArrays
  dsimp only
  cases lookupKey? env.config.typeMarker options with
  | none =>
    dsimp only
    split <;> exact .pure (.inl rfl)
  | some slot =>
    cases slot with
    | value v =>
      exact (valueShape_arrays env.config key harrays v).bind fun _ h => .pure (.inr ⟨rfl, h⟩)
    | node marker =>
      cases marker with
      | object loc inner =>
        dsimp only
        split <;> exact .pure (.inl rfl)
      | array loc inner =>
        exact (arrayMarkerShape_arrays key arrays _).bind fun _ h => .pure (.inl h)
      | _ => exact (plainMarkerShape_arrays key arrays _).bind fun _ h => .pure (.inl h)

/-- An object literal has the arrays around it, and those that its type marker adds. -/
theorem objectShape_arrays {key : String} {arrays : Nat} (harrays : arrays ≤ arrayLimit) {loc : Loc}
    {entries : List Entry} {shape : Shape} {s s' : Session}
    (hrun : objectShape key arrays loc entries env s = (.ok shape, s')) :
    ∃ options s₁, slots key [] entries env s = (.ok options, s₁) ∧
      Counted arrays (markerArrays env.config options) shape := by
  obtain ⟨options, s₁, hslots, hrun⟩ := Eval.exists_of_run_bind_ok hrun
  obtain ⟨inner, s₂, hinner, hpure⟩ := Eval.exists_of_run_bind_ok hrun
  cases hpure
  exact ⟨options, s₁, hslots, (slotShape_arrays key harrays _ options s₁).1 inner (by rw [hinner])⟩

/-- What stands inside the arrays of a definition adds none, unless it is an object literal. -/
theorem nodeShape_arrays (key : String) {arrays : Nat} (harrays : arrays ≤ arrayLimit) {node : Expr}
    (hnode : ∀ loc entries, node ≠ .object loc entries) :
    Gives env (fun _ => True) (nodeShape key arrays node) (WithinLimit arrays) := by
  unfold nodeShape
  split
  next => exact .pure ⟨Nat.le_refl arrays, harrays⟩
  next =>
    refine (Gives.anything _).bind fun value _ => ?_
    split
    · exact (Gives.anything Eval.config).bind fun _ _ => valueShape_arrays _ key harrays _
    · exact (Gives.anything Eval.config).bind fun _ _ => valueShape_arrays _ key harrays _
    · exact .pure ⟨Nat.le_refl arrays, harrays⟩
    · exact .pure ⟨Nat.le_refl arrays, harrays⟩
  next => exact .pure ⟨Nat.le_refl arrays, harrays⟩
  next => exact .pure ⟨Nat.le_refl arrays, harrays⟩
  next loc entries => exact absurd rfl (hnode loc entries)
  next =>
    refine (Gives.anything _).bind fun found _ => ?_
    cases found with
    | some entries => exact .pure ⟨Nat.le_refl arrays, harrays⟩
    | none =>
      refine (Gives.anything Eval.config).bind fun config _ => (Gives.anything _).bind fun v _ => ?_
      exact valueShape_arrays config key harrays v

/-- The type marker of a definition adds so many arrays to those around the definition: inside its
arrays the definition is an object literal, and so many are added by the type marker among the
options that are found for it from a session. -/
def AddsArrays (env : Environment) (s : Session) (key : String) (definition : Expr) (extra : Nat) :
    Prop :=
  ∃ loc entries options s', (throughArrays arrayLimit definition).2 = some (.object loc entries) ∧
    slots key [] entries env s = (.ok options, s') ∧ extra = markerArrays env.config options

theorem markerArrays_le (config : Config) (options : List (String × Slot)) :
    markerArrays config options ≤ arrayLimit := by
  unfold markerArrays
  split
  · exact throughArrays_le arrayLimit _
  · exact Nat.zero_le _

theorem AddsArrays.le {s : Session} {key : String} {definition : Expr} {extra : Nat}
    (h : AddsArrays env s key definition extra) : extra ≤ arrayLimit := by
  obtain ⟨loc, entries, options, s', -, -, rfl⟩ := h
  exact markerArrays_le _ _

theorem AddsArrays.unique {s : Session} {key : String} {definition : Expr} {extra extra' : Nat}
    (h : AddsArrays env s key definition extra) (h' : AddsArrays env s key definition extra') :
    extra = extra' := by
  obtain ⟨loc, entries, options, s₁, hnode, hslots, rfl⟩ := h
  obtain ⟨loc', entries', options', s₂, hnode', hslots', rfl⟩ := h'
  cases hnode.symm.trans hnode'
  cases hslots.symm.trans hslots'
  rfl

theorem not_addsArrays {s : Session} {key : String} {definition : Expr}
    (h : ∀ loc entries, (throughArrays arrayLimit definition).2 ≠ some (.object loc entries))
    (extra : Nat) : ¬AddsArrays env s key definition extra := by
  rintro ⟨loc, entries, options, s', hnode, -⟩
  exact h loc entries hnode

/-- **The count of a definition**: its own arrays, and those that its type marker adds. -/
theorem shapeOf_arrays {key : String} {definition : Expr} {shape : Shape} {s s' : Session}
    (hrun : shapeOf key definition env s = (.ok shape, s')) :
    (∃ extra, AddsArrays env s key definition extra ∧
        Counted (throughArrays arrayLimit definition).1 extra shape) ∨
      (∀ extra, ¬AddsArrays env s key definition extra) ∧
        WithinLimit (throughArrays arrayLimit definition).1 shape := by
  have hle := throughArrays_le arrayLimit definition
  rcases hthrough : throughArrays arrayLimit definition with ⟨arrays, _ | node⟩
  · rw [hthrough] at hle
    rw [shapeOf, hthrough] at hrun
    cases hrun
    refine .inr ⟨not_addsArrays fun loc entries heq => ?_, Nat.le_refl arrays, hle⟩
    rw [hthrough] at heq
    cases heq
  · rw [hthrough] at hle
    rw [shapeOf, hthrough] at hrun
    change nodeShape key arrays node env s = (.ok shape, s') at hrun
    by_cases hnode : ∃ loc entries, node = .object loc entries
    · obtain ⟨loc, entries, rfl⟩ := hnode
      obtain ⟨options, s₁, hslots, hcounted⟩ := objectShape_arrays hle hrun
      exact .inl ⟨_, ⟨loc, entries, options, s₁, by rw [hthrough], hslots, rfl⟩, hcounted⟩
    · have hnot (loc : Loc) (entries : List Entry) : node ≠ .object loc entries :=
        fun heq => hnode ⟨loc, entries, heq⟩
      refine .inr ⟨not_addsArrays fun loc entries heq => ?_, ?_⟩
      · rw [hthrough] at heq
        exact hnot loc entries (Option.some.inj heq)
      · exact (nodeShape_arrays key hle hnot s).1 shape (by rw [hrun])

/-- **No more than two arrays are told apart, unless a type marker adds to them.** The shape of a
value never has more. The shape of a definition has more exactly if the arrays around an object
literal and those of the array literal under its type marker are more than two together. Then it has
all of them, so there may be up to four. A bullet shows its type between as many brackets as the
shape has arrays. -/
theorem arrays_within_limit_unless_marker_adds (env : Environment) :
    (∀ config key arrays v s shape s', arrays ≤ arrayLimit →
      valueShape config key arrays v env s = (.ok shape, s') →
      arrays ≤ shape.arrays ∧ shape.arrays ≤ arrayLimit) ∧
    (∀ key definition s shape s', shapeOf key definition env s = (.ok shape, s') →
      (arrayLimit < shape.arrays ↔ ∃ extra, AddsArrays env s key definition extra ∧
        arrayLimit < (throughArrays arrayLimit definition).1 + extra) ∧
      (∀ extra, AddsArrays env s key definition extra → 0 < extra →
        shape.arrays = (throughArrays arrayLimit definition).1 + extra) ∧
      shape.arrays ≤ 2 * arrayLimit) ∧
    ∀ key shape depth s text s', bullet key shape depth env s = (.ok text, s') →
      ∃ rest, text = Description.indentation depth ++ "- **" ++ key ++ "** \x60" ++
        String.ofList (List.replicate shape.arrays '[') ++ shape.typeName ++
        String.ofList (List.replicate shape.arrays ']') ++ "\x60" ++ rest := by
  refine ⟨fun config key arrays v s shape s' harrays hrun => ?_,
    fun key definition s shape s' hrun => ?_, fun key shape depth s text s' hrun => ?_⟩
  · have hgives : Gives env (fun _ => True) (valueShape config key arrays v)
        (WithinLimit arrays) :=
      valueShape_arrays config key harrays v
    exact (hgives s).1 shape (by rw [hrun])
  · have hle := throughArrays_le arrayLimit definition
    obtain ⟨extra, hadds, hcounted⟩ | ⟨hnone, hwithin⟩ := shapeOf_arrays hrun
    · have hextra := hadds.le
      unfold Counted WithinLimit at hcounted
      refine ⟨⟨fun hlt => ⟨extra, hadds, by omega⟩, ?_⟩, fun extra' hadds' hpos => ?_, by omega⟩
      · rintro ⟨extra', hadds', hlt⟩
        obtain rfl := hadds.unique hadds'
        omega
      · obtain rfl := hadds.unique hadds'
        omega
    · unfold WithinLimit at hwithin
      refine ⟨⟨fun hlt => by omega, ?_⟩, fun extra hadds => absurd hadds (hnone extra), by omega⟩
      rintro ⟨extra, hadds, -⟩
      exact absurd hadds (hnone extra)
  · obtain ⟨rest, rfl⟩ := exists_rest_of_bullet hrun
    exact ⟨rest, by simp only [fieldHead, typeText, Shape.scalar, String.append_assoc]⟩

/-! ### Examples -/

/-- `{ type: [[String]] }` -/
def doubleMarker : Expr :=
  .object somewhere [.mk (.keyed "type") (.array somewhere [.mk .element
    (.array somewhere [.mk .element (.ident somewhere "String") somewhere .none]) somewhere .none])
    somewhere .none]

/-- An array of one definition. -/
def arrayOf (definition : Expr) : Expr :=
  .array somewhere [.mk .element definition somewhere .none]

/-- The field `k: [[{ type: [[String]] }]]` has as many arrays as there can be. -/
theorem doubleMarker_in_two_arrays :
    let env := environmentBinding doubleMarker
    let s := Session.start (.empty true)
    ∃ shape, shapeOf "k" (arrayOf (arrayOf doubleMarker)) env s = (.ok shape, s) ∧
      AddsArrays env s "k" (arrayOf (arrayOf doubleMarker)) 2 ∧ shape.arrays = 4 := by
  intro env s
  have hadds : AddsArrays env s "k" (arrayOf (arrayOf doubleMarker)) 2 :=
    ⟨_, _, _, s, rfl, rfl, rfl⟩
  have hshape : shapeOf "k" (arrayOf (arrayOf doubleMarker)) env s = _ := rfl
  exact ⟨_, hshape, hadds, ((arrays_within_limit_unless_marker_adds env).2.1 _ _ _ _ _ hshape).2.1 2
    hadds (by decide)⟩

/-- The field `k: [{ type: [[String]] }]` shows its type between three pairs of brackets. If `d` is
bound to `{ type: [[String]] }`, then the field `k: [d]` shows an array between two of them. -/
theorem doubleMarker_in_an_array :
    let env := environmentBinding doubleMarker
    let s := Session.start (.empty true)
    (∃ shape, shapeOf "k" (arrayOf doubleMarker) env s = (.ok shape, s) ∧
        ¬shape.arrays ≤ arrayLimit) ∧
      field (renderEntries 1) [] 0 none "k" (fieldOf (arrayOf doubleMarker)) env s =
        (.ok "- **k** \x60[[[String]]]\x60", s) ∧
      field (renderEntries 1) [] 0 none "k" (fieldOf (arrayOf (.ident somewhere "d"))) env s =
        (.ok "- **k** \x60[[Array]]\x60", s) :=
  ⟨⟨_, rfl, by decide⟩, rfl, rfl⟩

end SchemaDoc.Document
