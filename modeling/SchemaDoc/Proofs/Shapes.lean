import SchemaDoc.Proofs.Nesting
import SchemaDoc.Proofs.Provenance

/-!
# What the shape of a definition depends on

Whether the shape of a definition has nested fields, and which ones, is what decides how rendering
goes on. This file compares it with what is written: the entries that a shape nests are among those
that its definition can nest, and if nothing is spread into the definition they are the ones.

The shape of a definition may also be an error, and then there are two reasons: something had to be
evaluated that needs a module that could not be loaded, or a constructor is called with a definition
that lists no fields. Both are kept together with the result, in one kind of statement: `Gives` says
what a computation gives and why it stops, from whatever session it starts.
-/

namespace SchemaDoc

/-- From every session, a computation gives a result with a property, or stops for a reason with
another one. -/
def Gives {α : Type} (env : Environment) (reason : Stop → Prop) (x : Eval α)
    (result : α → Prop) : Prop :=
  ∀ s, (∀ a, (x env s).1 = .ok a → result a) ∧ ∀ stop, (x env s).1 = .error stop → reason stop

namespace Gives

variable {α β : Type} {env : Environment} {reason reason' : Stop → Prop} {x : Eval α}
  {result result' : α → Prop}

theorem pure {a : α} (h : result a) : Gives env reason (pure a) result :=
  fun _ => ⟨fun _ heq => Except.ok.inj heq ▸ h, fun _ => nofun⟩

theorem fail {e : Error} (h : reason (.error e)) : Gives env reason (Eval.fail e) result :=
  fun _ => ⟨fun _ => nofun, fun _ heq => Except.error.inj heq ▸ h⟩

theorem bind {f : α → Eval β} {final : β → Prop} (hx : Gives env reason x result)
    (hf : ∀ a, result a → Gives env reason (f a) final) : Gives env reason (x >>= f) final := by
  intro s
  rcases Eval.run_bind_cases x f env s with ⟨a, s', hrun, hbind⟩ | ⟨e, s', hrun, hbind⟩
  · rw [hbind]
    exact hf a ((hx s).1 a (by rw [hrun])) s'
  · rw [hbind]
    refine ⟨fun _ => nofun, fun stop hstop => ?_⟩
    obtain rfl := Except.error.inj hstop
    exact (hx s).2 e (by rw [hrun])

theorem imp (h : Gives env reason x result) (hresult : ∀ a, result a → result' a) :
    Gives env reason x result' :=
  fun s => ⟨fun a ha => hresult a ((h s).1 a ha), (h s).2⟩

theorem imp_reason (h : Gives env reason x result) (hreason : ∀ stop, reason stop → reason' stop) :
    Gives env reason' x result :=
  fun s => ⟨(h s).1, fun stop hstop => hreason stop ((h s).2 stop hstop)⟩

/-- Nothing is known about what a computation gives. -/
theorem anything (x : Eval α) : Gives env (fun _ => True) x fun _ => True :=
  fun _ => ⟨fun _ _ => trivial, fun _ _ => trivial⟩

theorem warn (message : String) : Gives env reason (Eval.warn message) fun _ => True :=
  fun _ => ⟨fun _ _ => trivial, fun _ => nofun⟩

theorem info (message : String) : Gives env reason (Eval.info message) fun _ => True :=
  fun _ => ⟨fun _ _ => trivial, fun _ => nofun⟩

theorem index : Gives env reason Eval.index (· = env.index) :=
  fun _ => ⟨fun _ heq => (Except.ok.inj heq).symm, fun _ => nofun⟩

theorem config : Gives env reason Eval.config (· = env.config) :=
  fun _ => ⟨fun _ heq => (Except.ok.inj heq).symm, fun _ => nofun⟩

end Gives

namespace Document

variable {env : Environment} {reason : Stop → Prop}

theorem resolve_gives (e : Expr) :
    Gives env (ComesFromFailedLink env.index) (resolve e) fun _ => True :=
  fun _ => ⟨fun _ _ => trivial, fun _ hstop => request_stop (r := .expr 0 e none) hstop⟩

/-! ### Values -/

/-- The entries that a shape nests as they are written. -/
def Shape.body? (s : Shape) : Option (List Entry) :=
  match s.children with
  | .entries body _ => some body
  | _ => none

/-- A shape whose nested fields are those of a value that nests less deeply than that, and whose
options are values. -/
structure OfValue (depth : Nat) (s : Shape) : Prop where
  body : s.body? = none
  fields : ∀ fields, s.children = .values fields → fieldsDepth fields < depth
  object : s.object = none
  options : ∃ fields, s.options = valueSlots fields

theorem OfValue.mono {depth depth' : Nat} {s : Shape} (h : OfValue depth s) (hle : depth ≤ depth') :
    OfValue depth' s :=
  { h with fields := fun fields hfields => Nat.lt_of_lt_of_le (h.fields fields hfields) hle }

theorem ofValue_scalar (depth arrays : Nat) (name : String) : OfValue depth (.scalar arrays name) :=
  ⟨rfl, fun _ => nofun, rfl, [], rfl⟩

theorem one_le_valueDepth (v : Value) : 1 ≤ valueDepth v := by
  cases v <;> simp only [valueDepth] <;> omega

theorem fieldsDepth_eraseKey_le (key : String) (fields : List (String × Value)) :
    fieldsDepth (eraseKey key fields) ≤ fieldsDepth fields := by
  induction fields with
  | nil => exact Nat.le_refl _
  | cons field fields ih =>
    obtain ⟨k, v⟩ := field
    simp only [eraseKey, List.filter_cons] at ih ⊢
    split
    · simp only [fieldsDepth]
      omega
    · simp only [fieldsDepth]
      omega

theorem unknownType_gives (key shape : String) :
    Gives env reason (unknownType key shape) fun _ => True :=
  (Gives.warn _).bind fun _ _ => .pure trivial

theorem unknownShape_gives (key shape : String) (arrays depth : Nat) :
    Gives env reason (do return Shape.scalar arrays (← unknownType key shape)) (OfValue depth) :=
  (unknownType_gives key shape).bind fun _ _ => .pure (ofValue_scalar _ _ _)

mutual
/-- **A value always has a shape**, and its nested fields are some of its own. -/
theorem valueShape_gives (config : Config) (key : String) (arrays : Nat) : (v : Value) →
    Gives env reason (valueShape config key arrays v) (OfValue (valueDepth v))
  | .list [] => by
    unfold valueShape
    split <;> exact .pure (ofValue_scalar _ _ _)
  | .list (first :: rest) => by
    unfold valueShape
    split
    · refine (valueShape_gives config key (arrays + 1) first).imp fun _ h => h.mono ?_
      simp only [valueDepth, itemsDepth]
      omega
    · exact .pure (ofValue_scalar _ _ _)
  | .map fields => by
    have hrest := fieldsDepth_eraseKey_le config.typeMarker fields
    unfold valueShape
    split
    next marker hmarker =>
      refine (markerShape?_gives config key arrays fields marker hmarker).bind fun s hs => .pure ?_
      have hoptions : OfValue (fieldsDepth fields)
          (s.withOptions (valueSlots (eraseKey config.typeMarker fields))) :=
        ⟨hs.body, hs.fields, hs.object, _, rfl⟩
      refine hoptions.mono ?_
      simp only [valueDepth]
      omega
    next =>
      dsimp only
      split
      · exact .pure ⟨rfl, fun _ => nofun, rfl, _, rfl⟩
      · refine .pure ⟨rfl, fun inner hinner => ?_, rfl, [], rfl⟩
        obtain rfl := Children.values.inj hinner
        simp only [valueDepth]
        omega
  | .num _ | .bool _ | .null | .bigint _ | .typeLabel _ | .str _ => .pure (ofValue_scalar _ _ _)
  | .pattern _ _ | .function _ _ _ | .native _ | .unknown => unknownShape_gives _ _ _ _

theorem markerShape?_gives (config : Config) (key : String) (arrays : Nat) :
    (fields : List (String × Value)) → ∀ x, markerShape? config key arrays fields = some x →
      Gives env reason x (OfValue (fieldsDepth fields))
  | [], _, h => nomatch h
  | (k, v) :: fields, x, h => by
    unfold markerShape? at h
    split at h
    · obtain rfl := Option.some.inj h
      refine (valueShape_gives config key arrays v).imp fun _ h => h.mono ?_
      simp only [fieldsDepth]
      omega
    · refine (markerShape?_gives config key arrays fields x h).imp fun _ h => h.mono ?_
      simp only [fieldsDepth]
      omega
end

/-! ### Definitions as they are written -/

/-- A constructor is called in one of the given places, with a definition that lists no fields. -/
def Rejects (program : Program) (config : Config) (key : String) (places : List Expr)
    (stop : Stop) : Prop :=
  ∃ e ∈ places, ∃ error, schemaFields program config e key = .error error ∧ stop = .error error

/-- Why the shape of a definition may be missing. -/
def Refused (env : Environment) (program : Program) (key : String) (places : List Expr)
    (stop : Stop) : Prop :=
  ComesFromFailedLink env.index stop ∨ Rejects program env.config key places stop

theorem Refused.mono {program : Program} {key : String} {places places' : List Expr} {stop : Stop}
    (h : Refused env program key places stop) (hsub : places ⊆ places') :
    Refused env program key places' stop := by
  refine h.imp_right ?_
  rintro ⟨e, he, error, herror⟩
  exact ⟨e, hsub he, error, herror⟩

/-- The only thing that a schema's name matters for is the text of an error. -/
theorem constructed?_of_schemaFields {program : Program} {config : Config} {e : Expr} {key : String}
    {entries : Option (List Entry)} (h : schemaFields program config e key = .ok entries) :
    constructed? program config e = entries := by
  cases e with
  | call loc constructs callee args =>
    simp only [constructed?, schemaFields] at h ⊢
    split at h
    next hnot => rw [if_pos hnot]; exact Except.ok.inj h
    next hconstructs =>
      rw [if_neg hconstructs]
      cases args with
      | nil => exact Except.ok.inj h
      | cons definition args =>
        simp only at h ⊢
        split at h
        next => exact Except.ok.inj h
        next => cases h
  | _ => exact Except.ok.inj h

/-- The options of an object literal: their type marker, if it is written, is one of the literal, and
without spreads they are what is written. -/
theorem slots_gives (key : String) {whole : List Entry} (entries : List Entry)
    (done : List (String × Slot)) (hsub : entries ⊆ whole)
    (hdone : MarkerAmong env.config (markers env.config whole) done) :
    Gives env (ComesFromFailedLink env.index) (slots key done entries) fun all =>
      MarkerAmong env.config (markers env.config whole) all ∧
        (entries.any spreads = false → all = entries.foldl writeSlot done) := by
  induction entries generalizing done with
  | nil => exact .pure ⟨hdone, fun _ => rfl⟩
  | cons entry entries ih =>
    obtain ⟨hentry, hentries⟩ := List.cons_subset.mp hsub
    have hwrite := hdone.writeSlot hentry
    simp only [slots]
    split
    next name hkind =>
      have hslot : writeSlot done entry = insertKey name (.node entry.value) done := by
        simp only [writeSlot, hkind]
      refine (ih _ hentries (hslot ▸ hwrite)).imp fun all hall => ⟨hall.1, ?_⟩
      intro hspreads
      rw [List.foldl_cons, hslot]
      exact hall.2 (by simpa [spreads, hkind] using hspreads)
    next hkind =>
      -- A spread can only add values, so it may hide a written type marker but not add one.
      have hspread : (entry :: entries).any spreads ≠ false := by simp [spreads, hkind]
      refine (resolve_gives entry.value).bind fun value _ => ?_
      split
      next fields =>
        refine (ih _ hentries ?_).imp fun all hall =>
          ⟨hall.1, fun hnone => absurd hnone hspread⟩
        refine List.foldlRecOn fields _ hdone fun slots hslots field _ => ?_
        exact hslots.insertKey fun _ => nofun
      next =>
        refine (Gives.warn _).bind fun _ _ => ?_
        exact (ih _ hentries hdone).imp fun all hall =>
          ⟨hall.1, fun hnone => absurd hnone hspread⟩
      next =>
        exact (ih _ hentries hdone).imp fun all hall =>
          ⟨hall.1, fun hnone => absurd hnone hspread⟩
    next hkind =>
      have hslot : writeSlot done entry = done := by simp only [writeSlot, hkind]
      refine (ih _ hentries hdone).imp fun all hall => ⟨hall.1, ?_⟩
      intro hspreads
      rw [List.foldl_cons, hslot]
      exact hall.2 (by simpa [spreads, hkind] using hspreads)

theorem markerLabel_gives (key : String) (marker : Expr) :
    Gives env (ComesFromFailedLink env.index) (markerLabel key marker) fun _ => True := by
  unfold markerLabel
  split
  · refine (resolve_gives _).bind fun value _ => ?_
    split <;> exact .pure trivial
  · exact .pure trivial
  · exact .pure trivial
  · refine (resolve_gives _).bind fun value _ => ?_
    split
    · exact .pure trivial
    · exact unknownType_gives _ _

theorem arrayMarkerShape_gives (program : Program) (key : String) (arrays : Nat) (loc : Loc)
    (entries : List Entry) :
    Gives env (ComesFromFailedLink env.index) (arrayMarkerShape key arrays (.array loc entries))
      fun s => s.body?.toList = markerBodies program env.config (.array loc entries) := by
  unfold arrayMarkerShape markerBodies
  dsimp only
  split
  next hnone => exact .pure (by rw [hnone]; rfl)
  next loc' inner hinner => exact .pure (by rw [hinner]; rfl)
  next element hnot helement =>
    refine (markerLabel_gives key element).bind fun _ _ => .pure ?_
    rw [helement]
    split
    next loc' inner heq => exact absurd (Option.some.inj heq) (hnot loc' inner)
    next => rfl

/-- A shape that nests one of the given entries or none, and if something holds the only ones that
there are. -/
def NestsAmong (among : List (List Entry)) (exactly : Prop) (s : Shape) : Prop :=
  (∀ body, s.body? = some body → body ∈ among) ∧ (exactly → ∀ body ∈ among, s.body? = some body)

theorem nestsAmong_of_eq {found : Option (List Entry)} {exactly : Prop} {s : Shape}
    (h : s.body? = found) : NestsAmong found.toList exactly s := by
  subst h
  exact ⟨fun _ => Option.mem_toList.mpr, fun _ _ => Option.mem_toList.mp⟩

theorem valueShape_nests_nothing (config : Config) (key : String) (arrays : Nat) (v : Value)
    {exactly : Prop} : Gives env reason (valueShape config key arrays v) (NestsAmong [] exactly) :=
  (valueShape_gives config key arrays v).imp fun _ h => nestsAmong_of_eq h.1

/-- The places where a constructor call counts: where the definition stands, or where an object
literal has its type marker. -/
def nodePlaces (config : Config) : Expr → List Expr
  | .object _ entries => markers config entries
  | node => [node]

/-- The places inside the arrays of a definition where a constructor call counts. -/
def places (config : Config) (definition : Expr) : List Expr :=
  match (throughArrays arrayLimit definition).2 with
  | none => []
  | some node => nodePlaces config node

theorem nodePlaces_of_not_object {config : Config} {node : Expr}
    (h : ∀ loc entries, node = .object loc entries → False) : nodePlaces config node = [node] := by
  unfold nodePlaces
  split
  next loc entries => exact (h loc entries rfl).elim
  next => rfl

theorem nodeBodies_of_not_object {program : Program} {config : Config} {node : Expr}
    (h : ∀ loc entries, node = .object loc entries → False) :
    nodeBodies program config node = (constructed? program config node).toList := by
  unfold nodeBodies
  split
  next loc entries => exact (h loc entries rfl).elim
  next => rfl

theorem slotBodies_of_plain {program : Program} {config : Config} {own : List Entry}
    {slots : List (String × Slot)} {marker : Expr}
    (hmarker : lookupKey? config.typeMarker slots = some (.node marker))
    (hobject : ∀ loc inner, marker = .object loc inner → False)
    (harray : ∀ loc inner, marker = .array loc inner → False) :
    slotBodies program config own slots = (constructed? program config marker).toList := by
  simp only [slotBodies, hmarker]
  cases marker with
  | object loc inner => exact (hobject loc inner rfl).elim
  | array loc inner => exact (harray loc inner rfl).elim
  | _ => rfl

theorem run_entryProgram (env : Environment) (s : Session) :
    entryProgram env s =
      match env.index.program? 0 with
      | some program => (.ok program, s)
      | none => (.error (.error .noSchema), s) := by
  have hindex : Eval.index env s = (.ok env.index, s) := rfl
  refine (Eval.run_bind_ok hindex).trans ?_
  cases env.index.program? 0 <;> rfl

theorem eq_of_entryProgram {s s' : Session} {program : Program}
    (h : entryProgram env s = (.ok program, s')) : env.index.program? 0 = some program ∧ s' = s := by
  rw [run_entryProgram] at h
  split at h
  next hprogram =>
    cases h
    exact ⟨hprogram, rfl⟩
  next => cases h

theorem entryProgram_gives :
    Gives env (fun stop => stop = .error .noSchema ∧ env.index.program? 0 = none) entryProgram
      (env.index.program? 0 = some ·) := by
  refine Gives.index.bind ?_
  rintro _ rfl
  split
  next program hprogram => exact .pure hprogram
  next hnone => exact .fail ⟨rfl, hnone⟩

section Written

variable {program : Program} (hprogram : env.index.program? 0 = some program)

include hprogram

theorem program_gives : Gives env reason entryProgram (· = program) :=
  (entryProgram_gives.imp_reason fun _ h => absurd (hprogram.symm.trans h.2) nofun).imp fun _ h =>
    Option.some.inj (h.symm.trans hprogram)

theorem inlineFields_gives (e : Expr) (key : String) :
    Gives env (Refused env program key [e]) (inlineFields e key)
      (· = constructed? program env.config e) := by
  refine (program_gives hprogram).bind ?_
  rintro _ rfl
  refine Gives.config.bind ?_
  rintro _ rfl
  split
  next entries hentries => exact .pure (constructed?_of_schemaFields hentries).symm
  next error herror =>
    exact .fail (Or.inr ⟨e, List.mem_singleton_self e, error, herror, rfl⟩)

theorem plainMarkerShape_gives (key : String) (arrays : Nat) (marker : Expr) :
    Gives env (Refused env program key [marker]) (plainMarkerShape key arrays marker)
      fun s => s.body? = constructed? program env.config marker := by
  refine (inlineFields_gives hprogram marker key).bind ?_
  rintro _ rfl
  split
  next entries hentries => exact .pure hentries.symm
  next hnone =>
    refine ((markerLabel_gives key marker).imp_reason fun _ => Or.inl).bind fun _ _ => ?_
    exact .pure hnone.symm

/-- The shape of an object literal nests what its options say. -/
theorem slotShape_gives (key : String) (arrays : Nat) {entries : List Entry} (line : Option Nat)
    {all : List (String × Slot)}
    (hmarkers : MarkerAmong env.config (markers env.config entries) all) :
    Gives env (Refused env program key (markers env.config entries))
      (slotShape key arrays (.entries entries line) all) fun s =>
        s.body?.toList = slotBodies program env.config entries all := by
  refine Gives.config.bind ?_
  rintro _ rfl
  dsimp only
  split
  next hmarker =>
    simp only [slotBodies, hmarker]
    split
    · exact .pure rfl
    · exact .pure rfl
  next loc' inner hmarker =>
    simp only [slotBodies, hmarker]
    split
    · exact .pure rfl
    · exact .pure rfl
  next loc' inner hmarker =>
    simp only [slotBodies, hmarker]
    refine ((arrayMarkerShape_gives program key arrays loc' inner).imp_reason
      fun _ => Or.inl).bind fun s hs => ?_
    exact .pure hs
  next marker hobject harray hmarker =>
    have hmem : [marker] ⊆ markers env.config entries := by
      simpa using hmarkers marker hmarker
    rw [slotBodies_of_plain hmarker hobject harray]
    refine ((plainMarkerShape_gives hprogram key arrays marker).imp_reason
      fun _ h => h.mono hmem).bind fun s hs => .pure ?_
    exact congrArg Option.toList hs
  next marker hmarker =>
    simp only [slotBodies, hmarker]
    refine (valueShape_gives env.config key arrays marker).bind fun s hs => .pure ?_
    exact congrArg Option.toList hs.1

theorem objectShape_gives (key : String) (arrays : Nat) (loc : Loc) (entries : List Entry) :
    Gives env (Refused env program key (markers env.config entries))
      (objectShape key arrays loc entries)
      (NestsAmong (objectBodies program env.config entries) (entries.any spreads = false)) := by
  refine ((slots_gives key entries [] (List.Subset.refl entries) fun _ => nofun).imp_reason
    fun _ => Or.inl).bind fun all ⟨hmarkers, hwritten⟩ => ?_
  refine (slotShape_gives hprogram key arrays _ hmarkers).bind fun s hs => .pure ?_
  change NestsAmong _ _ s
  by_cases hspreads : entries.any spreads = true
  -- With spreads the options may be any that the markers allow, without them they are known.
  · refine ⟨fun body hbody => ?_, fun hnone => absurd (hspreads.symm.trans hnone) nofun⟩
    rw [objectBodies, if_pos hspreads]
    rcases mem_slotBodies (hs ▸ Option.mem_toList.mpr hbody) with rfl | ⟨marker, hmarker, hmem⟩
    · exact List.mem_cons_self
    · exact List.mem_cons_of_mem _ (List.mem_flatMap.mpr ⟨marker, hmarkers marker hmarker, hmem⟩)
  · obtain rfl : all = writtenSlots entries := hwritten (by simpa using hspreads)
    rw [objectBodies, if_neg hspreads, ← hs]
    exact nestsAmong_of_eq rfl

theorem nodeShape_gives (key : String) (arrays : Nat) (node : Expr) :
    Gives env (Refused env program key (nodePlaces env.config node)) (nodeShape key arrays node)
      (NestsAmong (nodeBodies program env.config node)
        (∀ loc entries, node = .object loc entries → entries.any spreads = false)) := by
  have hvalue (v : Value) {places : List Expr} {exactly : Prop} :
      Gives env (Refused env program key places)
        (do valueShape (← Eval.config) key arrays v) (NestsAmong [] exactly) := by
    refine Gives.config.bind ?_
    rintro _ rfl
    exact valueShape_nests_nothing _ key arrays v
  unfold nodeShape
  split
  next => exact .pure (nestsAmong_of_eq rfl)
  next loc name =>
    refine ((resolve_gives _).imp_reason fun _ => Or.inl).bind fun value _ => ?_
    split
    · exact hvalue _
    · exact hvalue _
    · exact .pure (nestsAmong_of_eq rfl)
    · exact .pure (nestsAmong_of_eq rfl)
  next => exact .pure (nestsAmong_of_eq rfl)
  next => exact .pure (nestsAmong_of_eq rfl)
  next loc entries =>
    refine (objectShape_gives hprogram key arrays loc entries).imp fun s hs =>
      ⟨hs.1, fun h => hs.2 (h loc entries rfl)⟩
  next _ _ _ _ _ hobject =>
    -- Everything else is a constructor call, or it is evaluated.
    rw [nodeBodies_of_not_object hobject, nodePlaces_of_not_object hobject]
    refine (inlineFields_gives hprogram node key).bind ?_
    rintro _ rfl
    split
    next entries hentries => exact .pure (nestsAmong_of_eq (by rw [hentries]; rfl))
    next hnone =>
      rw [hnone]
      refine Gives.config.bind ?_
      rintro _ rfl
      refine ((resolve_gives node).imp_reason fun _ => Or.inl).bind fun value _ => ?_
      exact valueShape_nests_nothing _ key arrays value

/-- **What the shape of a definition nests**: something that the definition can nest, and without
spreads what it does nest. -/
theorem shapeOf_gives (key : String) (definition : Expr) :
    Gives env (Refused env program key (places env.config definition)) (shapeOf key definition)
      (NestsAmong (bodies program env.config definition) (WrittenOut definition)) := by
  rcases hthrough : throughArrays arrayLimit definition with ⟨arrays, _ | node⟩
  · simp only [shapeOf, places, bodies, hthrough]
    exact .pure (nestsAmong_of_eq rfl)
  · simp only [shapeOf, places, bodies, WrittenOut, hthrough]
    refine (nodeShape_gives hprogram key arrays node).imp fun s hs => ⟨hs.1, ?_⟩
    exact fun h => hs.2 fun loc entries heq => h loc entries (congrArg some heq)

end Written

end Document

end SchemaDoc
