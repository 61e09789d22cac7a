import SchemaDoc.Proofs.Definitions

/-!
# Type markers that are objects

A definition whose type marker is itself an object is where the two ways to read a definition part.
As it is written, the object lists the nested fields if there are only options beside it, and
otherwise all entries are nested fields, the marker like the others. As a value, the definition is
always what is under the marker, and that is read by the rules for definitions once more: it may
have a type marker of its own, or nothing but options.

So a name need not render as the definition that it is bound to. It does so **exactly** if there are
only options beside the marker (`BesideOptions`) and the object under it is read as fields in both
ways (`ReadAsFields`). Then the definition is readable, and what is known about those applies. In
all other cases there is more to see in place: nothing is nested under the name, or one of the
fields that are shown in place has everything below it that is shown under the name. This is
measured by the length of the texts, which only grows from one level to the next
(`valueFields_compare`).
-/

namespace SchemaDoc.Document

open Evaluate (constant?)

/-! ### Comparing results -/

/-- Whatever sessions they start from, two computations give results in a relation. -/
def Compare {α β : Type} (env : Environment) (related : α → β → Prop) (x : Eval α) (y : Eval β) :
    Prop :=
  ∀ s s' a b, (x env s).1 = .ok a → (y env s').1 = .ok b → related a b

namespace Compare

variable {α β γ δ : Type} {env : Environment} {related : α → β → Prop} {x : Eval α}
  {y : Eval β} {final : γ → δ → Prop}

theorem pure {a : α} {b : β} (h : related a b) :
    Compare env related (Pure.pure a) (Pure.pure b) := by
  intro s s' a' b' ha hb
  obtain rfl := Except.ok.inj ha
  obtain rfl := Except.ok.inj hb
  exact h

theorem bind_right {y : Eval γ} {g : γ → Eval β} {result : γ → Prop} {reason : Stop → Prop}
    (hy : Gives env reason y result) (hg : ∀ c, result c → Compare env related x (g c)) :
    Compare env related x (y >>= g) := by
  intro s s' a b ha hb
  rcases Eval.run_bind_cases y g env s' with ⟨c, s₁, hrun, hbind⟩ | ⟨e, s₁, hrun, hbind⟩
  · rw [hbind] at hb
    exact hg c ((hy s').1 c (by rw [hrun])) s s₁ a b ha hb
  · rw [hbind] at hb
    cases hb

theorem bind {f : α → Eval γ} {g : β → Eval δ} (hx : Compare env related x y)
    (hf : ∀ a b, related a b → Compare env final (f a) (g b)) :
    Compare env final (x >>= f) (y >>= g) := by
  intro s s' c d hc hd
  rcases Eval.run_bind_cases x f env s with ⟨a, s₁, hrun, hbind⟩ | ⟨e, s₁, hrun, hbind⟩
  · rcases Eval.run_bind_cases y g env s' with ⟨b, s₂, hrun', hbind'⟩ | ⟨e, s₂, hrun', hbind'⟩
    · rw [hbind] at hc
      rw [hbind'] at hd
      exact hf a b (hx s s' a b (by rw [hrun]) (by rw [hrun'])) s₁ s₂ c d hc hd
    · rw [hbind'] at hd
      cases hd
  · rw [hbind] at hc
    cases hc

theorem throw_left (e : Stop) (y : Eval β) : Compare env related (throw e) y := by
  intro s s' a b ha hb
  cases ha

theorem throw_right (x : Eval α) (e : Stop) : Compare env related x (throw e) := by
  intro s s' a b ha hb
  cases hb

/-- Nothing is known about two computations. -/
theorem anything (x : Eval α) (y : Eval β) : Compare env (fun _ _ => True) x y :=
  fun _ _ _ _ _ _ => trivial

theorem config :
    Compare env (fun c c' => c = env.config ∧ c' = env.config) Eval.config Eval.config :=
  fun _ _ _ _ hc hc' => ⟨(Except.ok.inj hc).symm, (Except.ok.inj hc').symm⟩

end Compare

/-! ### How much there is to see -/

/-- How long texts are together, each with a line break. -/
def size : List String → Nat
  | [] => 0
  | text :: texts => text.length + 1 + size texts

theorem size_cons (text : String) (texts : List String) :
    size (text :: texts) = text.length + 1 + size texts := rfl

theorem length_fieldText (b : String) (children : List String) :
    (fieldText b "" children).length = b.length + size children := by
  change ("\n".intercalate (b :: children)).length = _
  induction children generalizing b with
  | nil => exact congrArg String.length String.intercalate_singleton
  | cons child children ih =>
    have hbreak : "\n".length = 1 := rfl
    rw [String.intercalate_cons_cons, String.length_append, String.length_append, ih, size_cons,
      hbreak]
    omega

section Values

variable {env : Environment}

/-- The same shape, with options that are values. -/
def SameOfValues (shape shape' : Shape) : Prop :=
  shape = shape' ∧ ∃ fields, shape.options = valueSlots fields

theorem sameOfValues_scalar (arrays : Nat) (typeName : String) :
    SameOfValues (.scalar arrays typeName) (.scalar arrays typeName) :=
  ⟨rfl, [], rfl⟩

theorem unknownShape_compare (key key' shape : String) (arrays : Nat) :
    Compare env SameOfValues (do return Shape.scalar arrays (← unknownType key shape))
      (do return Shape.scalar arrays (← unknownType key' shape)) := by
  have htype : Compare env (fun name name' => name = name') (unknownType key shape)
      (unknownType key' shape) :=
    (Compare.anything _ _).bind fun _ _ _ => .pure rfl
  exact htype.bind fun name _ h => h ▸ .pure (sameOfValues_scalar arrays name)

mutual
/-- **The shape of a value is the same under every key.** -/
theorem valueShape_compare (config : Config) (key key' : String) (arrays : Nat) : (v : Value) →
    Compare env SameOfValues (valueShape config key arrays v) (valueShape config key' arrays v)
  | .list [] => by
    unfold valueShape
    split <;> exact .pure (sameOfValues_scalar _ _)
  | .list (first :: rest) => by
    unfold valueShape
    split
    · exact valueShape_compare config key key' (arrays + 1) first
    · exact .pure (sameOfValues_scalar _ _)
  | .map fields => by
    unfold valueShape
    rcases markerShape?_compare config key key' arrays fields with ⟨h, h'⟩ | ⟨x, y, h, h', hxy⟩
    · rw [h, h']
      dsimp only
      split
      · exact .pure ⟨rfl, _, rfl⟩
      · exact .pure ⟨rfl, [], rfl⟩
    · rw [h, h']
      exact hxy.bind fun shape _ hshape => hshape.1 ▸ .pure ⟨rfl, _, rfl⟩
  | .num _ | .bool _ | .null | .bigint _ | .typeLabel _ | .str _ => .pure (sameOfValues_scalar _ _)
  | .pattern _ _ | .function _ _ _ | .native _ | .unknown => unknownShape_compare _ _ _ _

theorem markerShape?_compare (config : Config) (key key' : String) (arrays : Nat) :
    (fields : List (String × Value)) →
      (markerShape? config key arrays fields = none ∧
        markerShape? config key' arrays fields = none) ∨
      ∃ x y, markerShape? config key arrays fields = some x ∧
        markerShape? config key' arrays fields = some y ∧ Compare env SameOfValues x y
  | [] => .inl ⟨rfl, rfl⟩
  | (k, v) :: fields => by
    unfold markerShape?
    split
    · exact .inr ⟨_, _, rfl, rfl, valueShape_compare config key key' arrays v⟩
    · exact markerShape?_compare config key key' arrays fields
end

theorem optionTexts_compare (fields : List (String × Value)) (names : List String) :
    Compare env (fun texts texts' => texts = texts') (optionTexts (valueSlots fields) names)
      (optionTexts (valueSlots fields) names) := by
  induction names with
  | nil => exact .pure rfl
  | cons name names ih =>
    have hslot : lookupKey? name (valueSlots fields) = (lookupKey? name fields).map Slot.value :=
      lookupKey?_map Slot.value name fields
    rw [optionTexts, hslot]
    cases lookupKey? name fields with
    | none => exact ih
    | some v =>
      have hvalue : Compare env (fun value value' => value = value') (pure v) (pure v) := .pure rfl
      refine hvalue.bind fun value _ hvalue => ?_
      subst hvalue
      exact ih.bind fun texts _ htexts => htexts ▸ .pure rfl

/-- A bullet is longer on a deeper level. -/
theorem bullet_compare (key : String) {shape : Shape}
    (hshape : ∃ fields, shape.options = valueSlots fields) {depth depth' : Nat}
    (hle : depth ≤ depth') :
    Compare env (fun b b' => b.length ≤ b'.length) (bullet key shape depth)
      (bullet key shape depth') := by
  obtain ⟨fields, hfields⟩ := hshape
  refine Compare.config.bind fun config config' hconfig => ?_
  obtain ⟨rfl, rfl⟩ := hconfig
  rw [hfields]
  refine (optionTexts_compare fields _).bind fun texts _ htexts => ?_
  subst htexts
  have hindentation : (Description.indentation depth).length ≤
      (Description.indentation depth').length := by
    simp only [Description.indentation, String.length_ofList, List.length_replicate]
    omega
  refine .pure ?_
  split <;>
  · simp only [String.length_append]
    omega

/-- The nested fields of the shape of a value. -/
def valueChildren (fuel depth : Nat) (shape : Shape) : Eval (List String) :=
  match shape.children with
  | .values inner => valueFields fuel depth inner
  | _ => pure []

theorem valueFields_cons (fuel depth : Nat) (key : String) (v : Value)
    (fields : List (String × Value)) :
    valueFields (fuel + 1) depth ((key, v) :: fields) = do
      let shape ← valueShape (← Eval.config) key 0 v
      let b ← bullet key shape depth
      let children ← valueChildren fuel (depth + 1) shape
      return fieldText b "" children :: (← valueFields (fuel + 1) depth fields) := by
  rw [valueFields]
  refine bind_congr fun config => bind_congr fun shape => bind_congr fun b => ?_
  rw [valueChildren]
  cases shape.children <;> rfl

theorem valueChildren_compare {fuel fuel' depth depth' : Nat}
    (h : ∀ fields, Compare env (fun texts texts' => size texts ≤ size texts')
      (valueFields fuel depth fields) (valueFields fuel' depth' fields)) (shape : Shape) :
    Compare env (fun texts texts' => size texts ≤ size texts') (valueChildren fuel depth shape)
      (valueChildren fuel' depth' shape) := by
  rw [valueChildren, valueChildren]
  cases shape.children with
  | none => exact .pure (Nat.le_refl _)
  | entries entries line => exact .pure (Nat.le_refl _)
  | values fields => exact h fields

/-- **The fields of a value are longer on a deeper level.** -/
theorem valueFields_compare {depth depth' : Nat} (hle : depth ≤ depth') (fuel fuel' : Nat)
    (fields : List (String × Value)) :
    Compare env (fun texts texts' => size texts ≤ size texts') (valueFields fuel depth fields)
      (valueFields fuel' depth' fields) := by
  induction fuel, depth, fields using valueFields.induct generalizing fuel' depth' with
  | case1 fuel depth =>
    rw [valueFields, valueFields]
    exact .pure (Nat.le_refl _)
  | case2 depth field fields =>
    rw [valueFields]
    exact .throw_left _ _
  | case3 fuel depth key v fields ih ihChildren =>
    cases fuel' with
    | zero =>
      rw [valueFields.eq_def 0]
      exact .throw_right _ _
    | succ fuel' =>
      rw [valueFields_cons, valueFields_cons]
      refine Compare.config.bind fun config config' hconfig => ?_
      obtain ⟨rfl, rfl⟩ := hconfig
      refine (valueShape_compare _ key key 0 v).bind fun shape _ hshape => ?_
      obtain ⟨rfl, hvalues⟩ := hshape
      refine (bullet_compare key hvalues hle).bind fun b b' hb => ?_
      refine (valueChildren_compare (fun inner => ihChildren inner (Nat.succ_le_succ hle) fuel')
        shape).bind fun children children' hchildren => ?_
      refine (ih hle (fuel' + 1)).bind fun texts texts' htexts => .pure ?_
      rw [size_cons, size_cons, length_fieldText, length_fieldText]
      omega

/-- **Fields are longer than what is nested in one of them** and moved to their level. -/
theorem nested_compare {name : String} {v : Value} {fields : List (String × Value)}
    (hmem : (name, v) ∈ fields) (key : String) (fuel fuel' depth : Nat) :
    Compare env (fun children texts => size children < size texts)
      (valueShape env.config key 0 v >>= valueChildren fuel depth)
      (valueFields fuel' depth fields) := by
  induction fields with
  | nil => exact absurd hmem List.not_mem_nil
  | cons field fields ih =>
    obtain ⟨name', v'⟩ := field
    cases fuel' with
    | zero =>
      rw [valueFields]
      exact .throw_right _ _
    | succ fuel' =>
      rw [valueFields_cons]
      have hconfig : Gives env (fun _ => True) Eval.config (· = env.config) := .config
      refine .bind_right hconfig fun config hconfig => ?_
      subst hconfig
      rcases List.mem_cons.mp hmem with heq | hrest
      · obtain ⟨rfl, rfl⟩ := Prod.mk.inj heq
        refine (valueShape_compare _ key name 0 v).bind fun shape _ hshape => ?_
        obtain ⟨rfl, -⟩ := hshape
        refine .bind_right (Gives.anything _) fun b _ => ?_
        rw [← bind_pure (valueChildren fuel depth shape)]
        refine (valueChildren_compare (valueFields_compare (Nat.le_succ depth) fuel fuel')
          shape).bind fun children children' hchildren => ?_
        refine .bind_right (Gives.anything _) fun texts _ => .pure ?_
        rw [size_cons, length_fieldText]
        omega
      · refine .bind_right (Gives.anything _) fun shape _ => ?_
        refine .bind_right (Gives.anything _) fun b _ => ?_
        refine .bind_right (Gives.anything _) fun children _ => ?_
        rw [← bind_pure (valueShape env.config key 0 v >>= valueChildren fuel depth)]
        refine (ih hrest).bind fun children texts hlt => .pure ?_
        rw [size_cons]
        omega

theorem valueFields_ne_nil {fields : List (String × Value)} (h : fields ≠ []) (fuel depth : Nat) :
    Gives env (fun _ => True) (valueFields fuel depth fields) (· ≠ []) := by
  obtain ⟨⟨key, v⟩, rest, rfl⟩ := List.exists_cons_of_ne_nil h
  cases fuel with
  | zero =>
    rw [valueFields]
    refine fun s => ⟨fun texts htexts => ?_, fun _ _ => trivial⟩
    cases htexts
  | succ fuel =>
    rw [valueFields_cons]
    refine (Gives.anything _).bind fun _ _ => (Gives.anything _).bind fun _ _ => ?_
    refine (Gives.anything _).bind fun _ _ => (Gives.anything _).bind fun _ _ => ?_
    exact (Gives.anything _).bind fun _ _ => .pure (List.cons_ne_nil _ _)

end Values

/-! ### In place and by name -/

theorem RenderChildren.yields {env : Environment} {s : Session} {depth : Nat} {value : Shape}
    {children : List String} (h : RenderChildren env s depth value children) :
    ∃ fuel, Yields env s (valueChildren fuel depth value) children := by
  rcases h with ⟨hnone, rfl⟩ | ⟨fields, hfields, hyields⟩
  · refine ⟨0, ?_⟩
    rw [valueChildren, hnone]
    exact .pure _
  · refine ⟨fieldsDepth fields + 1, ?_⟩
    rw [valueChildren, hfields]
    exact hyields _ (Nat.lt_succ_self _)

theorem lookupKey?_of_mem {α : Type} {key : String} {a : α} {fields : List (String × α)}
    (hdistinct : (fields.map Prod.fst).Nodup) (h : (key, a) ∈ fields) :
    lookupKey? key fields = some a := by
  induction fields with
  | nil => exact absurd h List.not_mem_nil
  | cons field fields ih =>
    obtain ⟨hnew, hdistinct⟩ := List.nodup_cons.mp hdistinct
    rw [lookupKey?]
    rcases List.mem_cons.mp h with rfl | hrest
    · simp
    · have hne : field.1 ≠ key := fun heq => hnew (heq ▸ List.mem_map_of_mem hrest)
      rw [if_neg (by simpa using hne)]
      exact ih hdistinct hrest

theorem mem_keyedValues_of_kind {entries : List Entry} {entry : Entry} {key : String}
    (hentry : entry ∈ entries) (hkind : entry.kind = .keyed key) :
    (key, entry.value) ∈ keyedValues entries := by
  refine List.mem_filterMap.mpr ⟨entry, hentry, ?_⟩
  cases entry with
  | mk kind e loc comments =>
    obtain rfl : kind = .keyed key := hkind
    rfl

theorem valueDepth_le_of_lookupKey? {key : String} {v : Value} {fields : List (String × Value)}
    (h : lookupKey? key fields = some v) : valueDepth v ≤ fieldsDepth fields := by
  induction fields with
  | nil => cases h
  | cons field fields ih =>
    rw [lookupKey?] at h
    rw [fieldsDepth]
    split at h
    next =>
      obtain rfl := Option.some.inj h
      exact Nat.le_max_left _ _
    next => exact (ih h).trans (Nat.le_max_right _ _)

theorem ReadableFields.options {env : Environment} {entries : List Entry}
    (h : ReadableFields env entries) :
    ∀ option ∈ keyedValues entries, Readable env 0 option.2 := by
  intro option hoption
  obtain ⟨entry, hentry, hvalue, -⟩ := mem_keyedValues hoption
  exact hvalue ▸ (h entry hentry).2.2

theorem ReadableFields.writtenFields_ne_nil {env : Environment} {entries : List Entry}
    (h : ReadableFields env entries) (hne : entries ≠ []) : writtenFields entries ≠ [] := by
  obtain ⟨entry, rest, rfl⟩ := List.exists_cons_of_ne_nil hne
  obtain ⟨key, hkind⟩ := (h entry List.mem_cons_self).1
  rw [writtenFields_eq, ne_eq, List.map_eq_nil_iff]
  exact List.ne_nil_of_mem (mem_keyedValues_of_kind List.mem_cons_self hkind)

theorem exists_bullet_yields {env : Environment} {s : Session} {shape : Shape} {texts : List String}
    (h : Yields env s (optionTexts shape.options env.config.options) texts) (key : String)
    (depth : Nat) : ∃ b, Yields env s (bullet key shape depth) b :=
  ⟨_, Yields.config.bind (h.bind (.pure _))⟩

/-- Fields are not what is nested in one of them. -/
theorem ne_of_nested {env : Environment} {s : Session} {name key : String} {v : Value}
    {fields : List (String × Value)} (hlookup : lookupKey? name fields = some v) {value : Shape}
    (hvalue : Yields env s (valueShape env.config key 0 v) value) {depth : Nat}
    {children : List String} (hchildren : RenderChildren env s depth value children) {fuel : Nat}
    {texts : List String} (htexts : Yields env s (valueFields fuel depth fields) texts) :
    texts ≠ children := by
  obtain ⟨fuel', hyields⟩ := hchildren.yields
  have hlt := nested_compare (mem_of_lookupKey? hlookup) key fuel' fuel depth s s children texts
    (congrArg Prod.fst (hvalue.bind hyields)) (congrArg Prod.fst htexts)
  rintro rfl
  exact absurd hlt (Nat.lt_irrefl _)

section ObjectMarker

variable {env : Environment} {s : Session} {program : Program}
  (hprogram : env.index.program? 0 = some program) (hidle : s.resolving = [])

include hprogram hidle in
theorem Readable.valueShape_yields {e : Expr} (h : Readable env 0 e) (key : String) (depth : Nat) :
    ∃ value children, Yields env s (valueShape env.config key 0 (writtenValue e)) value ∧
      RenderChildren env s (depth + 1) value children := by
  obtain ⟨value, -, children, hvalue, -, -, -, hchildren, -⟩ := field_yields hprogram hidle
    (renderAsValues hprogram hidle (valueDepth (writtenValue e))) h (Nat.le_refl _) key depth
  exact ⟨value, children, hvalue, hchildren⟩

include hprogram hidle in
/-- **The value of an object under a type marker**, and what is nested in it. If the object is not
read as fields, that is something else than its fields. -/
theorem ReadableFields.valueShape_yields {inner : List Entry} (hinner : ReadableFields env inner)
    (key : String) (depth : Nat) :
    ∃ value children,
      Yields env s (valueShape env.config key 0 (.map (writtenFields inner))) value ∧
      RenderChildren env s (depth + 1) value children ∧
      (¬ReadAsFields env.config inner → ∀ fuel texts,
        Yields env s (valueFields fuel (depth + 1) (writtenFields inner)) texts →
          texts ≠ children) := by
  have hlookup := lookupKey?_writtenFields env.config.typeMarker inner
  cases hmarker : lookupKey? env.config.typeMarker (keyedValues inner) with
  | some m =>
    -- The object has a marker of its own, so its value is what is under that.
    rw [hmarker] at hlookup
    have hm : Readable env 0 m := hinner.options _ (mem_of_lookupKey? hmarker)
    obtain ⟨value, children, hvalue, hchildren⟩ := hm.valueShape_yields hprogram hidle key depth
    rw [valueShape_marked hlookup]
    exact ⟨_, children, hvalue.bind (.pure _), hchildren,
      fun _ fuel texts htexts => ne_of_nested hlookup hvalue hchildren htexts⟩
  | none =>
    rw [hmarker] at hlookup
    have hall : ((writtenFields inner).all fun field => env.config.isOption field.1) =
        (keyedValues inner).all fun option => env.config.isOption option.1 := by
      rw [writtenFields_eq, List.all_map]
      rfl
    rw [valueShape_unmarked hlookup, hall]
    by_cases hoptions : ((keyedValues inner).all fun option => env.config.isOption option.1) = true
    · -- There are only options, so that nothing is nested in the value.
      rw [if_pos hoptions]
      refine ⟨_, [], .pure _, .inl ⟨rfl, rfl⟩, fun hread fuel texts htexts => ?_⟩
      have hne := hinner.writtenFields_ne_nil fun hnil => hread (.inl hnil)
      exact (valueFields_ne_nil hne fuel (depth + 1) s).1 texts (congrArg Prod.fst htexts)
    · rw [if_neg hoptions]
      obtain ⟨texts, -, htexts⟩ := renderAsValues hprogram hidle _ inner hinner
        (Nat.lt_succ_self _) (depth + 1)
      exact ⟨_, texts, .pure _, .inr ⟨_, rfl, htexts⟩,
        fun hread => absurd (readAsFields_of_not_all hmarker hoptions) hread⟩

theorem readable_of_fields {loc : Loc} {entries : List Entry} (arrays : Nat)
    (hsaid : SaysValue env (.object loc entries)) (hentries : ReadableFields env entries)
    (hread : ReadAsFields env.config entries) : Readable env arrays (.object loc entries) := by
  have hunmarked : ∀ entry ∈ entries, entry.kind ≠ .keyed env.config.typeMarker := by
    intro entry hentry hkind
    rcases hread with rfl | ⟨hnot, -⟩
    · exact absurd hentry List.not_mem_nil
    · rw [← keys_keyedValues] at hnot
      exact hnot (List.mem_map_of_mem (mem_keyedValues_of_kind hentry hkind))
  cases hsaid with
  | object keyed distinct values =>
    exact .object keyed distinct (fun entry hentry => (hentries entry hentry).2.1) values
      (fun _ entry hentry => (hentries entry hentry).2.2)
      (fun entry hentry hkind => absurd hkind (hunmarked entry hentry))
      (fun entry hentry hkind => absurd hkind (hunmarked entry hentry))
      fun entry hentry hkind => absurd hkind (hunmarked entry hentry)

/-- The entries of a definition that are shown where it stands: those of the object under its type
marker if there are only options beside it, and otherwise all of them. -/
def ShownInPlace (config : Config) (entries inner shown : List Entry) : Prop :=
  BesideOptions config entries ∧ shown = inner ∨ ¬BesideOptions config entries ∧ shown = entries

variable {loc markerLoc : Loc} {entries inner : List Entry}
  (hsaid : SaysValue env (.object loc entries))
  (hmarker : lookupKey? env.config.typeMarker (keyedValues entries) =
    some (.object markerLoc inner))

include hsaid hmarker

/-- **A definition that is read as fields under its marker is readable.** -/
theorem readable_of_object_marker (huncommented : ∀ entry ∈ entries, entry.comments = .none)
    (hbeside : BesideOptions env.config entries) (hinner : ReadableFields env inner)
    (hread : ReadAsFields env.config inner) : Readable env 0 (.object loc entries) := by
  have hreadable : Readable env 0 (.object markerLoc inner) :=
    readable_of_fields 0 (hsaid.options _ (mem_of_lookupKey? hmarker)) hinner hread
  cases hsaid with
  | object keyed distinct values =>
    have hvalue : ∀ entry ∈ entries, entry.kind = .keyed env.config.typeMarker →
        entry.value = .object markerLoc inner := by
      intro entry hentry hkind
      have hfound := lookupKey?_of_mem ((keys_keyedValues entries).symm ▸ distinct)
        (mem_keyedValues_of_kind hentry hkind)
      exact Option.some.inj (hfound.symm.trans hmarker)
    refine .object keyed distinct huncommented values (fun hfields => ?_)
      (fun entry hentry hkind => hvalue entry hentry hkind ▸ hreadable)
      (fun entry hentry hkind => ?_) fun _ _ _ _ => hbeside
    · -- The definition has a type marker, so its own entries are not the fields of a document.
      rcases hfields with rfl | ⟨hnot, -⟩
      · cases hmarker
      · rw [← keys_keyedValues, ← lookupKey?_eq_none_iff, hmarker] at hnot
        cases hnot
    · rw [hvalue entry hentry hkind, ReadableMarker]
      exact hread

/-- **The shape in place** has the entries that are shown as its nested fields. -/
theorem shapeOf_object_marker (s : Session) (key : String) :
    ∃ (shape : Shape) (shown : List Entry) (line : Option Nat) (options : List (String × Expr)),
      Yields env s (shapeOf key (.object loc entries)) shape ∧
      shape.children = .entries shown line ∧ shape.options = nodeSlots options ∧
      (∀ option ∈ options, SaysValue env option.2) ∧
      ShownInPlace env.config entries inner shown := by
  have hslots : Yields env s (slots key [] entries) (nodeSlots (keyedValues entries)) := by
    cases hsaid with
    | object keyed distinct _ =>
      rw [← putAll_nodeSlots distinct]
      exact slots_yields keyed []
  have hfound : lookupKey? env.config.typeMarker (nodeSlots (keyedValues entries)) =
      some (.node (.object markerLoc inner)) := by
    rw [nodeSlots, lookupKey?_map, hmarker]
    rfl
  have hall : ((eraseKey env.config.typeMarker (nodeSlots (keyedValues entries))).all fun option =>
      env.config.isOption option.1) = true ↔ BesideOptions env.config entries := by
    rw [eraseKey_nodeSlots, nodeSlots, List.all_map]
    exact all_eraseKey_iff
  have hshape {shape : Shape} (h : Yields env s (slotShape key 0
      (.entries entries (some loc.startLine)) (nodeSlots (keyedValues entries))) shape) :
      Yields env s (shapeOf key (.object loc entries))
        { shape with object := some (loc, entries) } :=
    hslots.bind (h.bind (.pure _))
  by_cases hbeside : BesideOptions env.config entries
  · have hshown : Yields env s (slotShape key 0 (.entries entries (some loc.startLine))
        (nodeSlots (keyedValues entries))) ((Shape.inline 0 (.entries inner none)).withOptions
          (nodeSlots (eraseKey env.config.typeMarker (keyedValues entries)))) := by
      refine Yields.config.bind ?_
      simp only [hfound]
      rw [if_pos (hall.mpr hbeside), eraseKey_nodeSlots]
      exact .pure _
    exact ⟨_, inner, none, _, hshape hshown, rfl, rfl,
      fun option hoption => hsaid.options option (List.mem_of_mem_filter hoption),
      .inl ⟨hbeside, rfl⟩⟩
  · have hshown : Yields env s (slotShape key 0 (.entries entries (some loc.startLine))
        (nodeSlots (keyedValues entries))) (.inline 0 (.entries entries (some loc.startLine))) := by
      refine Yields.config.bind ?_
      simp only [hfound]
      rw [if_neg (hall.not.mpr hbeside)]
      exact .pure _
    exact ⟨_, entries, _, [], hshape hshown, rfl, rfl, List.forall_mem_nil _, .inr ⟨hbeside, rfl⟩⟩

variable (hreadable :
  ∀ shown, ShownInPlace env.config entries inner shown → ReadableFields env shown)

include hprogram hidle hreadable

/-- **In place**, the fields that are shown are rendered as the fields of a value. -/
theorem inPlace_yields {fuel : Nat}
    (hfuel : valueDepth (writtenValue (.object loc entries)) ≤ fuel) (key : String) (depth : Nat) :
    ∃ shown texts, ShownInPlace env.config entries inner shown ∧
      Yields env s (valueFields fuel (depth + 1) (writtenFields shown)) texts ∧
      ∀ splicing line entry, entry.value = .object loc entries → ∃ b, Yields env s
        (fieldParts (renderEntries fuel) splicing depth line key entry) (b, texts) := by
  obtain ⟨shape, shown, line', options, hshape, hchildren, hoptions, hvalues, hshown⟩ :=
    shapeOf_object_marker hsaid hmarker s key
  have hlookup := lookupKey?_writtenFields env.config.typeMarker entries
  rw [hmarker] at hlookup
  have hmarkerDepth := valueDepth_le_of_lookupKey? hlookup
  rw [writtenValue, valueDepth] at hfuel hmarkerDepth
  have hdepth : fieldsDepth (writtenFields shown) < fuel := by
    rcases hshown with ⟨-, rfl⟩ | ⟨-, rfl⟩ <;> omega
  obtain ⟨texts, htexts, htexts'⟩ :=
    renderAsValues hprogram hidle fuel shown (hreadable shown hshown) hdepth (depth + 1)
  refine ⟨shown, texts, hshown, htexts' fuel hdepth, fun splicing line entry hentry => ?_⟩
  obtain ⟨optionTexts, hoptionTexts, -⟩ :=
    optionTexts_yields hprogram hidle hvalues env.config.options
  rw [← hoptions] at hoptionTexts
  obtain ⟨b, hb⟩ := exists_bullet_yields hoptionTexts key depth
  refine ⟨Description.attach b (Description.ofComments (fieldComments entry shape line) depth), ?_⟩
  rw [fieldParts, hentry]
  refine hshape.bind (hb.bind ?_)
  rw [hchildren]
  exact (htexts splicing line').bind (.pure _)

/-- **By name**, the nested fields are those of the value under the marker, and unless the
definition is read as fields, they are not what is shown in place. -/
theorem byName_yields (key : String) (depth : Nat) :
    ∃ value b children,
      Yields env s (valueShape env.config key 0 (writtenValue (.object loc entries))) value ∧
      Yields env s (bullet key value depth) b ∧ RenderChildren env s (depth + 1) value children ∧
      (¬(BesideOptions env.config entries ∧ ReadAsFields env.config inner) →
        ∀ shown, ShownInPlace env.config entries inner shown → ∀ fuel texts,
          Yields env s (valueFields fuel (depth + 1) (writtenFields shown)) texts →
            texts ≠ children) := by
  have hlookup := lookupKey?_writtenFields env.config.typeMarker entries
  rw [hmarker] at hlookup
  have hoptions : ∀ option ∈ eraseKey env.config.typeMarker (keyedValues entries),
      SaysValue env option.2 := fun option hoption =>
    hsaid.options option (List.mem_of_mem_filter hoption)
  obtain ⟨texts, -, htexts⟩ := optionTexts_yields hprogram hidle hoptions env.config.options
  rw [← eraseKey_map, ← writtenFields_eq] at htexts
  have hbullet (marker : Shape) : ∃ b, Yields env s (bullet key (marker.withOptions
      (valueSlots (eraseKey env.config.typeMarker (writtenFields entries)))) depth) b :=
    exists_bullet_yields htexts key depth
  rw [writtenValue, valueShape_marked hlookup]
  by_cases hbeside : BesideOptions env.config entries
  · obtain ⟨marker, children, hvalue, hchildren, hne⟩ :=
      (hreadable inner (.inl ⟨hbeside, rfl⟩)).valueShape_yields hprogram hidle key depth
    obtain ⟨b, hb⟩ := hbullet marker
    refine ⟨_, b, children, hvalue.bind (.pure _), hb, hchildren, fun hnot shown hshown => ?_⟩
    obtain ⟨-, rfl⟩ | ⟨hnot, -⟩ := hshown
    · exact hne fun hread => hnot ⟨hbeside, hread⟩
    · exact absurd hbeside hnot
  · have hobject : Readable env 0 (.object markerLoc inner) :=
      (hreadable entries (.inr ⟨hbeside, rfl⟩)).options _ (mem_of_lookupKey? hmarker)
    obtain ⟨marker, children, hvalue, hchildren⟩ :=
      hobject.valueShape_yields hprogram hidle key depth
    obtain ⟨b, hb⟩ := hbullet marker
    refine ⟨_, b, children, hvalue.bind (.pure _), hb, hchildren, fun _ shown hshown => ?_⟩
    obtain ⟨hbeside', -⟩ | ⟨-, rfl⟩ := hshown
    · exact absurd hbeside' hbeside
    · exact fun fuel texts => ne_of_nested hlookup hvalue hchildren

end ObjectMarker

/-- **A name renders as a definition with an object under its type marker exactly if** there are
only options beside the marker, and the object is read as fields: it is empty, or it has no type
marker of its own and not only options. The definition says its value, and the fields that are shown
in place are readable. What is compared is the bullet with its description, and the texts of the
nested fields. -/
theorem name_renders_as_object_marker_iff (env : Environment) (s : Session) {program : Program}
    (hprogram : env.index.program? 0 = some program) (hidle : s.resolving = [])
    {name : String} (hconstant : constant? name = none) {loc markerLoc : Loc}
    {entries inner : List Entry} (hdeclared : DeclaredOnce program name (.object loc entries))
    (hsaid : SaysValue env (.object loc entries))
    (huncommented : ∀ entry ∈ entries, entry.comments = .none)
    (hmarker : lookupKey? env.config.typeMarker (keyedValues entries) =
      some (.object markerLoc inner))
    (hreadable : ∀ shown, ShownInPlace env.config entries inner shown → ReadableFields env shown)
    (key : String) (depth : Nat) (splicing : List String) (line : Option Nat)
    (comments : Comments) (entryLoc entryLoc' nameLoc : Loc) {fuel : Nat}
    (hfuel : valueDepth (writtenValue (.object loc entries)) ≤ fuel) :
    ∃ written named,
      fieldParts (renderEntries fuel) splicing depth line key
        (.mk (.keyed key) (.object loc entries) entryLoc comments) env s = (.ok written, s) ∧
      fieldParts (renderEntries fuel) splicing depth line key
        (.mk (.keyed key) (.ident nameLoc name) entryLoc' comments) env s = (.ok named, s) ∧
      (written = named ↔ BesideOptions env.config entries ∧ ReadAsFields env.config inner) := by
  have hliteral : (∃ loc' elements, Expr.object loc entries = .array loc' elements) ∨
      ∃ loc' entries', Expr.object loc entries = .object loc' entries' := .inr ⟨_, _, rfl⟩
  by_cases hread : BesideOptions env.config entries ∧ ReadAsFields env.config inner
  · have hdefinition : Readable env 0 (.object loc entries) :=
      readable_of_object_marker hsaid hmarker huncommented hread.1
        (hreadable inner (.inl ⟨hread.1, rfl⟩)) hread.2
    obtain ⟨value, b, children, hvalue, -, -, hb, hchildren, hfield⟩ :=
      field_yields hprogram hidle (renderAsValues hprogram hidle fuel) hdefinition hfuel key depth
    exact ⟨_, _, hfield splicing line _ rfl,
      hdeclared.fieldParts_yields hprogram hidle hconstant hsaid hliteral hvalue hb hchildren
        (renderEntries fuel) splicing line (.keyed key) nameLoc entryLoc' comments,
      iff_of_true rfl hread⟩
  · obtain ⟨shown, texts, hshown, htexts, hwritten⟩ :=
      inPlace_yields hprogram hidle hsaid hmarker hreadable hfuel key depth
    obtain ⟨value, b, children, hvalue, hb, hchildren, hne⟩ :=
      byName_yields hprogram hidle hsaid hmarker hreadable key depth
    obtain ⟨text, hwritten⟩ := hwritten splicing line
      (.mk (.keyed key) (.object loc entries) entryLoc comments) rfl
    exact ⟨_, _, hwritten,
      hdeclared.fieldParts_yields hprogram hidle hconstant hsaid hliteral hvalue hb hchildren
        (renderEntries fuel) splicing line (.keyed key) nameLoc entryLoc' comments,
      iff_of_false (fun heq => hne hread shown hshown fuel texts htexts (congrArg Prod.snd heq))
        hread⟩

/-! ### Examples -/

section Examples

/-- A place in a file of one line. -/
def somewhere : Loc := ⟨0, 0, 1, 1⟩

/-- `{ type: { name: String }, label: String }`: beside the marker there is more than options. -/
def labelledMarker : Expr :=
  .object somewhere [
    .mk (.keyed "type") (.object somewhere [
      .mk (.keyed "name") (.ident somewhere "String") somewhere .none]) somewhere .none,
    .mk (.keyed "label") (.ident somewhere "String") somewhere .none]

/-- An entry file that binds the name `d` to a definition. -/
def fileBinding (definition : Expr) : Program :=
  ⟨"", [⟨.declare false [.mk (.ident "d") (some definition)], somewhere, .none⟩]⟩

/-- What the file is rendered over. -/
def environmentBinding (definition : Expr) : Environment :=
  ⟨⟨[⟨"model.js", .script (fileBinding definition)⟩], []⟩, .standard⟩

/-- A field under the key `k`. -/
def fieldOf (definition : Expr) : Entry := .mk (.keyed "k") definition somewhere .none

/-- The field `k: { type: { name: String }, label: String }` shows the marker and the label, and the
field `k: d` shows what is under the marker. -/
theorem labelledMarker_not_by_name :
    let env := environmentBinding labelledMarker
    let s := Session.start (.empty true)
    field (renderEntries 4) [] 0 none "k" (fieldOf labelledMarker) env s =
        (.ok ("- **k** \x60Object\x60\n  - **type** \x60Object\x60\n" ++
          "    - **name** \x60String\x60\n  - **label** \x60String\x60"), s) ∧
      field (renderEntries 4) [] 0 none "k" (fieldOf (.ident somewhere "d")) env s =
        (.ok "- **k** \x60Object\x60\n  - **name** \x60String\x60", s) := by
  intro env s
  refine ⟨rfl, ?_⟩
  let shape := (Shape.inline 0 (.values [("name", .typeLabel "String")])).withOptions
    [("label", .value (.typeLabel "String"))]
  have hshape : Yields env s (shapeOf "k" (.ident somewhere "d")) shape := rfl
  have hbullet : Yields env s (bullet "k" shape 0) "- **k** \x60Object\x60" := rfl
  have hchildren : Yields env s (valueFields 2 1 [("name", .typeLabel "String")])
      ["  - **name** \x60String\x60"] := by
    rw [valueFields_cons, valueFields]
    rfl
  exact hshape.bind (hbullet.bind (hchildren.bind rfl))

/-- The entry of `{ key: definition }` -/
def onlyField (key : String) (definition : Expr) : List Entry :=
  [.mk (.keyed key) definition somewhere .none]

/-- The entries of `{ type: { key: definition }, required: true }` -/
def requiredMarker (key : String) (definition : Expr) : List Entry :=
  [.mk (.keyed "type") (.object somewhere (onlyField key definition)) somewhere .none,
    .mk (.keyed "required") (.lit somewhere (.bool true)) somewhere .none]

theorem keys_requiredMarker (key : String) (definition : Expr) :
    (requiredMarker key definition).filterMap Entry.key? = ["type", "required"] := rfl

theorem saysValue_requiredMarker {env : Environment} {definition : Expr}
    (h : SaysValue env definition) (key : String) :
    SaysValue env (.object somewhere (requiredMarker key definition)) := by
  refine .object (by simp [requiredMarker, Entry.kind]) ?_ ?_
  · rw [keys_requiredMarker]
    decide
  · simp only [requiredMarker, List.mem_cons, List.not_mem_nil, or_false, forall_eq_or_imp,
      forall_eq]
    refine ⟨.object (by simp [onlyField, Entry.kind]) (List.nodup_singleton key) ?_, .lit⟩
    simp only [onlyField, List.mem_singleton, forall_eq]
    exact h

theorem uncommented_requiredMarker (key : String) (definition : Expr) :
    ∀ entry ∈ requiredMarker key definition, entry.comments = .none := by
  simp [requiredMarker, Entry.comments]

theorem besideOptions_requiredMarker (key : String) (definition : Expr) :
    BesideOptions .standard (requiredMarker key definition) := by
  rw [BesideOptions, keys_requiredMarker]
  decide

theorem readAsFields_onlyField {key : String} (hkey : key ≠ "type")
    (hoption : Config.standard.isOption key = false) (definition : Expr) :
    ReadAsFields .standard (onlyField key definition) := by
  have hkeys : (onlyField key definition).filterMap Entry.key? = [key] := rfl
  have hmarker : Config.standard.typeMarker = "type" := rfl
  rw [ReadAsFields, hkeys, hmarker]
  exact .inr ⟨by simpa using hkey.symm, key, List.mem_singleton_self key, hoption⟩

theorem readableFields_onlyField {env : Environment} {definition : Expr}
    (h : Readable env 0 definition) (key : String) :
    ReadableFields env (onlyField key definition) := by
  simp only [ReadableFields, onlyField, List.mem_singleton, forall_eq]
  exact ⟨⟨key, rfl⟩, rfl, h⟩

theorem isTypeName_string (definition : Expr) :
    IsTypeName (environmentBinding definition) "String" := by
  have hbuiltin : Config.standard.isBuiltinType "String" = true := by decide
  refine ⟨hbuiltin, by decide, fun program hprogram => ?_⟩
  obtain rfl := Option.some.inj hprogram
  have hnames : (fileBinding definition).names = ["d"] := rfl
  rw [hnames]
  decide

/-- `{ type: { name: { type: { first: String }, required: true } }, required: true }`: a marker that
is an object, in a field under a marker that is an object. -/
def nestedMarker : List Entry :=
  requiredMarker "name" (.object somewhere (requiredMarker "first" (.ident somewhere "String")))

/-- The field `k: d` and the field in place. -/
theorem nestedMarker_by_name :
    let env := environmentBinding (.object somewhere nestedMarker)
    let s := Session.start (.empty true)
    SaysValue env (.object somewhere nestedMarker) ∧
      BesideOptions env.config nestedMarker ∧
      ∃ parts,
        fieldParts (renderEntries 6) [] 0 none "k" (fieldOf (.object somewhere nestedMarker)) env
          s = (.ok parts, s) ∧
        fieldParts (renderEntries 6) [] 0 none "k" (fieldOf (.ident somewhere "d")) env s =
          (.ok parts, s) := by
  intro env s
  have hstring : Readable env 0 (.ident somewhere "String") := .typeName (isTypeName_string _)
  have hname : Readable env 0
      (.object somewhere (requiredMarker "first" (.ident somewhere "String"))) :=
    readable_of_object_marker (saysValue_requiredMarker hstring.saysValue "first") rfl
      (uncommented_requiredMarker _ _) (besideOptions_requiredMarker _ _)
      (readableFields_onlyField hstring "first") (readAsFields_onlyField (by decide) (by decide) _)
  have hsaid : SaysValue env (.object somewhere nestedMarker) :=
    saysValue_requiredMarker hname.saysValue "name"
  have hbeside : BesideOptions env.config nestedMarker := besideOptions_requiredMarker _ _
  have hdeclared : DeclaredOnce (fileBinding (.object somewhere nestedMarker)) "d"
      (.object somewhere nestedMarker) :=
    ⟨by decide, _, List.mem_singleton_self _, false, _, rfl, List.mem_singleton_self _⟩
  have hfuel : valueDepth (writtenValue (.object somewhere nestedMarker)) ≤ 6 := by decide
  obtain ⟨written, named, hwritten, hnamed, hiff⟩ :=
    name_renders_as_object_marker_iff env s rfl rfl (by decide) hdeclared hsaid
      (uncommented_requiredMarker _ _) rfl
      (fun shown hshown => by
        obtain ⟨-, rfl⟩ | ⟨hnot, -⟩ := hshown
        · exact readableFields_onlyField hname "name"
        · exact absurd hbeside hnot)
      "k" 0 [] none .none somewhere somewhere somewhere hfuel
  obtain rfl := hiff.mpr ⟨hbeside, readAsFields_onlyField (by decide) (by decide) _⟩
  exact ⟨hsaid, hbeside, written, hwritten, hnamed⟩

end Examples

end SchemaDoc.Document
