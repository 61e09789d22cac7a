import SchemaDoc.Proofs.Shapes

/-!
# Which documents have an end

Rendering follows names, so it need not come to an end. This file says when it does.

A document can only be endless if a schema leads to fields that are nested in themselves, by way of
constructor calls that name a definition around them. Spreads do no harm, since a name that is being
spliced is not spliced again. Nor does anything that is evaluated: evaluation always ends.

The converse holds as far as the shapes of definitions are a matter of how they are written, which
they are if nothing is spread into an object literal that defines a field. Then a schema that leads
to fields nested in themselves has no document, and if nothing else stops rendering before it gets
there, there is no end to it.

The induction is on the fuel. Rendering runs out of fuel only if fields nest as deeply as that, and
gets by with it only if they do not; the second half needs definitions to be written out. What is
found by trying more and more fuel does not depend on what is tried, since more than enough of it
changes nothing (`renderWithin_add`).
-/

namespace SchemaDoc.Document

open Relation

variable {env : Environment} {reason : Stop → Prop}

/-! ### What always ends -/

theorem optionTexts_gives (options : List (String × Slot)) (names : List String) :
    Gives env (ComesFromFailedLink env.index) (optionTexts options names) fun _ => True := by
  induction names with
  | nil => exact .pure trivial
  | cons name names ih =>
    simp only [optionTexts]
    split
    next => exact ih
    next slot hslot =>
      cases slot with
      | node e => exact (resolve_gives e).bind fun _ _ => ih.bind fun _ _ => .pure trivial
      | value v => exact ih.bind fun _ _ => .pure trivial

theorem bullet_gives (key : String) (s : Shape) (depth : Nat) :
    Gives env (ComesFromFailedLink env.index) (bullet key s depth) fun _ => True := by
  refine Gives.config.bind fun config _ => ?_
  exact (optionTexts_gives s.options config.options).bind fun _ _ => .pure trivial

theorem optionTexts_gives_of_values (fields : List (String × Value)) (names : List String) :
    Gives env reason (optionTexts (valueSlots fields) names) fun _ => True := by
  induction names with
  | nil => exact .pure trivial
  | cons name names ih =>
    simp only [optionTexts]
    split
    next => exact ih
    next slot hslot =>
      obtain ⟨field, -, hfield⟩ := List.mem_map.mp (mem_of_lookupKey? hslot)
      cases hfield
      exact ih.bind fun _ _ => .pure trivial

theorem OfValue.bullet_gives {valueDepth : Nat} {s : Shape} (h : OfValue valueDepth s) (key : String)
    (depth : Nat) : Gives env reason (bullet key s depth) fun _ => True := by
  obtain ⟨fields, hfields⟩ := h.options
  refine Gives.config.bind fun config _ => ?_
  rw [hfields]
  exact (optionTexts_gives_of_values fields config.options).bind fun _ _ => .pure trivial

/-- **The fields of a value end**, since each level of them goes into the value, and nothing stops
them. -/
theorem valueFields_gives (fuel depth : Nat) (fields : List (String × Value))
    (h : fieldsDepth fields ≤ fuel) :
    Gives env reason (valueFields fuel depth fields) fun _ => True := by
  fun_induction valueFields fuel depth fields with
  | case1 => exact .pure trivial
  | case2 depth field fields =>
    have hone := one_le_valueDepth field.2
    simp only [fieldsDepth] at h
    omega
  | case3 fuel depth key v fields ihrest ihinner =>
    simp only [fieldsDepth] at h
    refine Gives.config.bind fun config _ => ?_
    refine (valueShape_gives config key 0 v).bind fun s hs => ?_
    refine (hs.bullet_gives key depth).bind fun _ _ => ?_
    have hrest := ihrest (by omega)
    dsimp only
    split
    next inner hinner =>
      have hlt := hs.fields inner hinner
      exact (ihinner inner (by omega)).bind fun _ _ => hrest.bind fun _ _ => .pure trivial
    next => exact hrest.bind fun _ _ => .pure trivial

/-! ### Why rendering a body stops -/

namespace Body

/-- A body cannot be rendered: a module that is needed was not loaded, or a constructor is called
somewhere below with a definition that lists no fields. -/
def Refuses (env : Environment) (program : Program) (b : Body) (stop : Stop) : Prop :=
  ComesFromFailedLink env.index stop ∨
    ∃ b', ReflTransGen (Calls program env.config) b b' ∧ ∃ entry ∈ b'.entries, ∃ key,
      entry.kind = .keyed key ∧
        Rejects program env.config key (places env.config entry.value) stop

/-- Why rendering a body stops: it cannot be rendered, or its fields nest as deeply as the fuel. -/
def Stops (env : Environment) (program : Program) (fuel : Nat) (b : Body) (stop : Stop) : Prop :=
  b.Refuses env program stop ∨ (stop = .exhausted ∧ b.Deep program env.config fuel)

/-- A body below which nothing is spread into the definition of a field. -/
def WrittenOut (program : Program) (config : Config) (b : Body) : Prop :=
  ∀ b', ReflTransGen (Calls program config) b b' → ∀ entry ∈ b'.entries,
    (∃ key, entry.kind = .keyed key) → Document.WrittenOut entry.value

/-- What is rendered for an entry of a body does not nest as deeply as the fuel, if it is written
out. -/
def Shallow (env : Environment) (program : Program) (fuel : Nat) (b : Body) (entry : Entry) : Prop :=
  b.WrittenOut program env.config → ∀ b' ∈ callsOf program env.config b.splicing entry,
    ¬b'.Deep program env.config fuel

variable {program : Program} {fuel : Nat} {b b' : Body} {stop : Stop}

theorem Shallow.of_no_calls {entry : Entry}
    (h : callsOf program env.config b.splicing entry = []) : b.Shallow env program fuel entry := by
  intro _ b' hb'
  rw [h] at hb'
  exact absurd hb' List.not_mem_nil

/-- A body is not as deep as the fuel and one more if none of its entries is as deep as the fuel. -/
theorem not_deep_succ (h : ∀ entry ∈ b.entries, b.Shallow env program fuel entry)
    (hwritten : b.WrittenOut program env.config) : ¬b.Deep program env.config (fuel + 1) := by
  rintro ⟨b', hcalls, hdeep⟩
  obtain ⟨entry, hentry, hb'⟩ := List.mem_flatMap.mp hcalls
  exact h entry hentry hwritten b' hb' hdeep

theorem Stops.of_calls (hcalls : Calls program env.config b b')
    (h : b'.Stops env program fuel stop) : b.Stops env program (fuel + 1) stop := by
  rcases h with (hlink | ⟨b'', hpath, hrejects⟩) | ⟨hstop, hdeep⟩
  · exact Or.inl (Or.inl hlink)
  · exact Or.inl (Or.inr ⟨b'', hpath.head hcalls, hrejects⟩)
  · exact Or.inr ⟨hstop, b', hcalls, hdeep⟩

theorem WrittenOut.of_calls {config : Config} (hcalls : Calls program config b b')
    (h : b.WrittenOut program config) : b'.WrittenOut program config :=
  fun b'' hpath => h b'' (hpath.head hcalls)

/-- A definition that is refused is one of the body. -/
theorem Stops.of_refused {entry : Entry} {key : String} (hentry : entry ∈ b.entries)
    (hkind : entry.kind = .keyed key)
    (h : Refused env program key (places env.config entry.value) stop) :
    b.Stops env program fuel stop := by
  rcases h with hlink | hrejects
  · exact Or.inl (Or.inl hlink)
  · exact Or.inl (Or.inr ⟨b, .refl, entry, hentry, key, hkind, hrejects⟩)

theorem Stops.of_link (h : ComesFromFailedLink env.index stop) : b.Stops env program fuel stop :=
  Or.inl (Or.inl h)

end Body

/-! ### One level -/

/-- What rendering with some fuel has to do with how deeply fields nest: it runs out of fuel only if
they nest that deeply, and if they are written out, it gives a result only if they do not. -/
def Measures (env : Environment) (program : Program) (fuel : Nat) : Prop :=
  ∀ (b : Body) (depth : Nat) (line : Option Nat),
    Gives env (b.Stops env program fuel) (renderEntries fuel b.splicing depth line b.entries)
      fun _ => b.WrittenOut program env.config → ¬b.Deep program env.config fuel

section Level

variable {program : Program} {fuel : Nat} (hfuel : Measures env program fuel) {b : Body}

include hfuel

/-- What is called for entries that are rendered does not nest as deeply as the fuel. -/
theorem calls_gives {b' : Body} (hcalls : b.Calls program env.config b') (depth : Nat)
    (line : Option Nat) :
    Gives env (b.Stops env program (fuel + 1))
      (renderEntries fuel b'.splicing depth line b'.entries)
      fun _ => b.WrittenOut program env.config → ¬b'.Deep program env.config fuel :=
  ((hfuel b' depth line).imp_reason fun _ h => h.of_calls hcalls).imp fun _ h hwritten =>
    h (hwritten.of_calls hcalls)

variable (hprogram : env.index.program? 0 = some program)

include hprogram

theorem field_gives {entry : Entry} (hentry : entry ∈ b.entries) {key : String}
    (hkind : entry.kind = .keyed key) (depth : Nat) (line : Option Nat) :
    Gives env (b.Stops env program (fuel + 1))
      (field (renderEntries fuel) b.splicing depth line key entry)
      fun _ => b.Shallow env program fuel entry := by
  refine ((shapeOf_gives hprogram key entry.value).imp_reason
    fun _ h => .of_refused hentry hkind h).bind fun s hs => ?_
  refine ((bullet_gives key s depth).imp_reason fun _ h => .of_link h).bind fun _ _ => ?_
  -- The bodies of the field are the one that its shape nests, if it nests one.
  suffices hchildren : Gives env (b.Stops env program (fuel + 1))
      (childFields (renderEntries fuel) b.splicing (depth + 1) s.children)
      fun _ => b.WrittenOut program env.config →
        ∀ body, s.body? = some body → ¬Body.Deep program env.config fuel ⟨b.splicing, body⟩ by
    refine hchildren.bind fun _ hnot => .pure fun hwritten b' hb' => ?_
    simp only [Body.callsOf, hkind] at hb'
    obtain ⟨body, hbody, rfl⟩ := List.mem_map.mp hb'
    exact hnot hwritten body (hs.2 (hwritten b .refl entry hentry ⟨key, hkind⟩) body hbody)
  unfold childFields
  split
  next hnone =>
    refine .pure fun _ body hbody => ?_
    simp [Shape.body?, hnone] at hbody
  next entries claimed hentries =>
    have hbody : s.body? = some entries := by simp [Shape.body?, hentries]
    have hcalls : b.Calls program env.config ⟨b.splicing, entries⟩ :=
      Body.calls_of_nests b.splicing ⟨entry, hentry, ⟨key, hkind⟩, hs.1 entries hbody⟩
    refine (calls_gives hfuel hcalls (depth + 1) claimed).imp ?_
    intro _ hnot hwritten body heq
    obtain rfl := Option.some.inj (hbody.symm.trans heq)
    exact hnot hwritten
  next fields hfields =>
    refine (valueFields_gives _ _ fields (Nat.le_succ _)).imp ?_
    intro _ _ _ body hbody
    simp [Shape.body?, hfields] at hbody

theorem spread_gives {entry : Entry} (hentry : entry ∈ b.entries) (hkind : entry.kind = .spread)
    (depth : Nat) :
    Gives env (b.Stops env program (fuel + 1))
      (spread (renderEntries fuel) b.splicing depth entry.value)
      fun _ => b.Shallow env program fuel entry := by
  refine (program_gives hprogram).bind ?_
  rintro program rfl
  split
  next name entries hspliced =>
    have hcallsOf : Body.callsOf program env.config b.splicing entry =
        [⟨name :: b.splicing, entries⟩] := by
      simp only [Body.callsOf, hkind, hspliced]
    have hcalls : b.Calls program env.config ⟨name :: b.splicing, entries⟩ :=
      List.mem_flatMap.mpr ⟨entry, hentry, hcallsOf ▸ List.mem_singleton_self _⟩
    refine (calls_gives hfuel hcalls depth none).imp ?_
    intro _ hnot hwritten b' hb'
    rw [hcallsOf] at hb'
    obtain rfl := List.mem_singleton.mp hb'
    exact hnot hwritten
  next hspliced =>
    -- Without a splice there is nothing to call.
    have hnone : b.Shallow env program fuel entry :=
      .of_no_calls (by simp only [Body.callsOf, hkind, hspliced])
    refine ((resolve_gives entry.value).imp_reason fun _ h => .of_link h).bind fun value _ => ?_
    split
    next fields =>
      exact (valueFields_gives _ _ fields (Nat.le_succ _)).imp fun _ _ => hnone
    next => exact (Gives.warn _).bind fun _ _ => .pure hnone

theorem entryFields_gives {entries : List Entry} (hsub : entries ⊆ b.entries) (depth : Nat)
    (line : Option Nat) :
    Gives env (b.Stops env program (fuel + 1))
      (entryFields (renderEntries fuel) b.splicing depth line entries)
      fun _ => ∀ entry ∈ entries, b.Shallow env program fuel entry := by
  induction entries with
  | nil => exact .pure fun _ hentry => absurd hentry List.not_mem_nil
  | cons entry entries ih =>
    obtain ⟨hentry, hentries⟩ := List.cons_subset.mp hsub
    have hrest := ih hentries
    simp only [List.forall_mem_cons]
    simp only [entryFields]
    split
    next key hkind =>
      refine (field_gives hfuel hprogram hentry hkind depth line).bind fun _ hfield => ?_
      exact hrest.bind fun _ h => .pure ⟨hfield, h⟩
    next hkind =>
      refine (spread_gives hfuel hprogram hentry hkind depth).bind fun _ hspread => ?_
      exact hrest.bind fun _ h => .pure ⟨hspread, h⟩
    next hkind =>
      exact hrest.imp fun _ h => ⟨.of_no_calls (by simp only [Body.callsOf, hkind]), h⟩

end Level

/-- **Every level.** -/
theorem renderEntries_measures {program : Program} (hprogram : env.index.program? 0 = some program)
    (fuel : Nat) : Measures env program fuel := by
  induction fuel with
  | zero =>
    -- Without fuel nothing is rendered, and everything is deep enough.
    exact fun b _ _ _ => ⟨fun _ => nofun, fun _ hstop =>
      Or.inr ⟨(Except.error.inj hstop).symm, trivial⟩⟩
  | succ fuel ih =>
    intro b depth line
    have hentries := entryFields_gives ih hprogram (List.Subset.refl b.entries) depth line
    exact hentries.imp fun _ hshallow => Body.not_deep_succ hshallow

/-! ### Documents -/

/-- The fields of a schema that the entry file declares. -/
def Declares (env : Environment) (program : Program) (b : Body) : Prop :=
  env.index.program? 0 = some program ∧ ∃ declared, schemas program env.config = .ok declared ∧
    ∃ d ∈ declared, b = ⟨[], d.entries⟩

theorem schemaBlock_gives {program : Program} (hprogram : env.index.program? 0 = some program)
    (fuel : Nat) (d : SchemaDecl) :
    Gives env (Body.Stops env program fuel ⟨[], d.entries⟩) (schemaBlock fuel program d)
      fun _ => Body.WrittenOut program env.config ⟨[], d.entries⟩ →
        ¬Body.Deep program env.config fuel ⟨[], d.entries⟩ :=
  (renderEntries_measures hprogram fuel ⟨[], d.entries⟩ 0 none).bind fun _ h => .pure h

theorem subSections_gives {program : Program} (hprogram : env.index.program? 0 = some program)
    (fuel : Nat) (ds : List SchemaDecl) :
    Gives env (fun stop => ∃ d ∈ ds, Body.Stops env program fuel ⟨[], d.entries⟩ stop)
      (subSections fuel program ds) fun _ => ∀ d ∈ ds,
        Body.WrittenOut program env.config ⟨[], d.entries⟩ →
          ¬Body.Deep program env.config fuel ⟨[], d.entries⟩ := by
  induction ds with
  | nil => exact .pure fun _ hd => absurd hd List.not_mem_nil
  | cons d ds ih =>
    refine ((schemaBlock_gives hprogram fuel d).imp_reason
      fun _ h => ⟨d, List.mem_cons_self, h⟩).bind fun _ hd => ?_
    refine (ih.imp_reason fun _ ⟨d', hd', h⟩ => ⟨d', List.mem_cons_of_mem d hd', h⟩).bind
      fun _ hds => .pure ?_
    exact List.forall_mem_cons.mpr ⟨hd, hds⟩

/-- The sections of the schemas: there is a reason to stop in one of them, or there is none. -/
theorem schemaSections_gives {program : Program} (hprogram : env.index.program? 0 = some program)
    (fuel : Nat) :
    Gives env (fun stop => (∃ b, Declares env program b ∧ b.Stops env program fuel stop) ∨
        (stop ≠ .exhausted ∧ ∀ b, ¬Declares env program b))
      (schemaSections fuel program) fun _ => ∀ b, Declares env program b →
        b.WrittenOut program env.config → ¬b.Deep program env.config fuel := by
  refine Gives.config.bind ?_
  rintro _ rfl
  split
  next error herror =>
    refine .fail (Or.inr ⟨nofun, ?_⟩)
    rintro b ⟨-, declared, hdeclared, -⟩
    exact absurd (herror.symm.trans hdeclared) nofun
  next declared hdeclared =>
    have hdeclares {b : Body} (h : Declares env program b) :
        ∃ d ∈ declared, b = ⟨[], d.entries⟩ := by
      obtain ⟨-, declared', hdeclared', hd⟩ := h
      obtain rfl := Except.ok.inj (hdeclared.symm.trans hdeclared')
      exact hd
    split
    next hlast =>
      refine .fail (Or.inr ⟨nofun, fun b h => ?_⟩)
      obtain ⟨d, hd, -⟩ := hdeclares h
      rw [List.getLast?_eq_none_iff.mp hlast] at hd
      exact absurd hd List.not_mem_nil
    next main hlast =>
      have hsplit : declared.dropLast ++ [main] = declared := List.dropLast_append_getLast? main hlast
      have hreason (d : SchemaDecl) (hd : d ∈ declared) (stop : Stop)
          (h : Body.Stops env program fuel ⟨[], d.entries⟩ stop) :
          (∃ b, Declares env program b ∧ b.Stops env program fuel stop) ∨
            (stop ≠ .exhausted ∧ ∀ b, ¬Declares env program b) :=
        Or.inl ⟨_, ⟨hprogram, declared, hdeclared, d, hd, rfl⟩, h⟩
      refine (Gives.info _).bind fun _ _ => ?_
      -- The main schema comes first in the document, though it is the last one declared.
      refine ((schemaBlock_gives hprogram fuel main).imp_reason
        (hreason main (hsplit ▸ by simp))).bind fun _ hmain => ?_
      refine ((subSections_gives hprogram fuel declared.dropLast).imp_reason
        fun stop ⟨d, hd, h⟩ => hreason d (List.dropLast_subset declared hd) stop h).bind
          fun _ hsubs => ?_
      refine .pure fun b h => ?_
      obtain ⟨d, hd, rfl⟩ := hdeclares h
      rw [← hsplit] at hd
      rcases List.mem_append.mp hd with hd | hd
      · exact hsubs d hd
      · obtain rfl := List.mem_singleton.mp hd
        exact hmain

/-- Rendering with some fuel stops because of a schema, or because there is none. -/
theorem renderWithin_gives (fuel : Nat) :
    Gives env (fun stop => (∃ program b, Declares env program b ∧ b.Stops env program fuel stop) ∨
        (stop ≠ .exhausted ∧ ∀ program b, ¬Declares env program b))
      (renderWithin fuel) fun _ => ∀ program b, Declares env program b →
        b.WrittenOut program env.config → ¬b.Deep program env.config fuel := by
  refine (entryProgram_gives.imp_reason ?_).bind fun program hprogram => ?_
  · rintro stop ⟨rfl, hnone⟩
    exact Or.inr ⟨nofun, fun program b h => absurd (hnone.symm.trans h.1) nofun⟩
  have heq {program' : Program} {b : Body} (h : Declares env program' b) : program' = program :=
    Option.some.inj (h.1.symm.trans hprogram)
  refine ((schemaSections_gives hprogram fuel).imp_reason ?_).bind fun _ hshallow => .pure ?_
  · rintro stop (⟨b, h⟩ | ⟨hne, hnone⟩)
    · exact Or.inl ⟨program, b, h⟩
    · refine Or.inr ⟨hne, fun program' b h => ?_⟩
      obtain rfl := heq h
      exact hnone b h
  · intro program' b h
    obtain rfl := heq h
    exact hshallow b h

/-! ### More fuel does no harm -/

/-- Two ways to render entries that agree unless the first one runs out of fuel. -/
def RenderersAgree (env : Environment) (r r' : Renderer) : Prop :=
  ∀ splicing depth line entries s,
    AgreeUnlessExhausted env (r splicing depth line entries) (r' splicing depth line entries) s

section Agreement

variable {r r' : Renderer} (hr : RenderersAgree env r r') {s : Session}

include hr

theorem childFields_agree (splicing : List String) (depth : Nat) (children : Children) :
    AgreeUnlessExhausted env (childFields r splicing depth children)
      (childFields r' splicing depth children) s := by
  cases children with
  | none => exact .refl
  | entries entries line => exact hr splicing depth line entries s
  | values fields => exact .refl

theorem field_agree (splicing : List String) (depth : Nat) (line : Option Nat) (key : String)
    (entry : Entry) :
    AgreeUnlessExhausted env (field r splicing depth line key entry)
      (field r' splicing depth line key entry) s := by
  refine .bind .refl fun shape _ => .bind .refl fun text _ => ?_
  exact .bind (childFields_agree hr splicing (depth + 1) shape.children) fun _ _ => .refl

theorem spread_agree (splicing : List String) (depth : Nat) (e : Expr) :
    AgreeUnlessExhausted env (spread r splicing depth e) (spread r' splicing depth e) s := by
  refine .bind .refl fun program s' => ?_
  split
  next name entries hspliced => exact hr (name :: splicing) depth none entries s'
  next => exact .refl

theorem entryFields_agree (splicing : List String) (depth : Nat) (line : Option Nat)
    (entries : List Entry) :
    AgreeUnlessExhausted env (entryFields r splicing depth line entries)
      (entryFields r' splicing depth line entries) s := by
  induction entries generalizing s with
  | nil => exact .refl
  | cons entry entries ih =>
    simp only [entryFields]
    split
    next key hkind =>
      exact .bind (field_agree hr splicing depth line key entry) fun _ _ =>
        .bind ih fun _ _ => .refl
    next hkind =>
      exact .bind (spread_agree hr splicing depth entry.value) fun _ _ =>
        .bind ih fun _ _ => .refl
    next hkind => exact ih

end Agreement

theorem renderEntries_agree (fuel more : Nat) :
    RenderersAgree env (renderEntries fuel) (renderEntries (fuel + more)) := by
  induction fuel with
  | zero => exact fun _ _ _ _ _ hended => absurd rfl hended
  | succ fuel ih =>
    intro splicing depth line entries s
    rw [Nat.succ_add]
    exact entryFields_agree ih splicing depth line entries

theorem schemaBlock_agree (fuel more : Nat) (program : Program) (d : SchemaDecl) (s : Session) :
    AgreeUnlessExhausted env (schemaBlock fuel program d) (schemaBlock (fuel + more) program d) s :=
  .bind (renderEntries_agree fuel more [] 0 none d.entries s) fun _ _ => .refl

theorem subSections_agree (fuel more : Nat) (program : Program) (ds : List SchemaDecl)
    (s : Session) :
    AgreeUnlessExhausted env (subSections fuel program ds) (subSections (fuel + more) program ds)
      s := by
  induction ds generalizing s with
  | nil => exact .refl
  | cons d ds ih =>
    exact .bind (schemaBlock_agree fuel more program d s) fun _ s' =>
      .bind (ih s') fun _ _ => .refl

theorem schemaSections_agree (fuel more : Nat) (program : Program) (s : Session) :
    AgreeUnlessExhausted env (schemaSections fuel program) (schemaSections (fuel + more) program)
      s := by
  refine .bind .refl fun config _ => ?_
  split
  next => exact .refl
  next declared hdeclared =>
    split
    next => exact .refl
    next main hmain =>
      refine .bind .refl fun _ s₁ => ?_
      refine .bind (schemaBlock_agree fuel more program main s₁) fun _ s₂ => ?_
      exact .bind (subSections_agree fuel more program declared.dropLast s₂) fun _ _ => .refl

/-- **More fuel does no harm**: what is rendered with enough fuel is rendered with any more. -/
theorem renderWithin_add {fuel : Nat} {s : Session}
    (h : (renderWithin fuel env s).1 ≠ .error .exhausted) (more : Nat) :
    renderWithin (fuel + more) env s = renderWithin fuel env s := by
  suffices hagree : AgreeUnlessExhausted env (renderWithin fuel) (renderWithin (fuel + more)) s from
    hagree h
  exact .bind .refl fun program s' =>
    .bind (schemaSections_agree fuel more program s') fun _ _ => .refl

/-! ### The search for enough fuel -/

theorem ended?_eq_some {α : Type} {result result' : Except Stop α × Session}
    (h : ended? result = some result') : result' = result ∧ result.1 ≠ .error .exhausted := by
  unfold ended? at h
  split at h
  next => exact absurd h nofun
  next hnot =>
    obtain rfl := Option.some.inj h
    exact ⟨rfl, fun hexhausted => hnot result.2 (Prod.ext hexhausted rfl)⟩

theorem ended?_isSome {α : Type} {result : Except Stop α × Session}
    (h : result.1 ≠ .error .exhausted) : (ended? result).isSome := by
  unfold ended?
  split
  next => exact absurd rfl h
  next => rfl

theorem found_render (env : Environment) (s : Session) :
    Found (fun fuel => ended? (renderWithin fuel env s)) (render env s) :=
  (search (fun fuel => ended? (renderWithin fuel env s)) firstFuel).property

/-- The search finds what fuel that is enough gives, whichever it is. -/
theorem render_eq_some {fuel : Nat} {s : Session}
    (h : (renderWithin fuel env s).1 ≠ .error .exhausted) :
    render env s = some (renderWithin fuel env s) := by
  have hfound := found_render env s
  cases hrender : render env s with
  | some result =>
    rw [hrender] at hfound
    obtain ⟨fuel', hfuel'⟩ := hfound
    obtain ⟨rfl, hended⟩ := ended?_eq_some hfuel'
    -- Both amounts are enough, so each of them gives what they give together.
    rw [← renderWithin_add hended fuel, Nat.add_comm, renderWithin_add h fuel']
  | none =>
    rw [hrender] at hfound
    obtain ⟨fuel', hle, hfuel'⟩ := hfound fuel
    obtain ⟨more, rfl⟩ := Nat.exists_eq_add_of_le hle
    have hnone : ended? (renderWithin fuel env s) = none := renderWithin_add h more ▸ hfuel'
    have hended := ended?_isSome h
    rw [hnone] at hended
    exact absurd hended nofun

/-- **A document is what some fuel gives.** -/
theorem render_eq_some_iff {s : Session} {result : Except Stop String × Session} :
    render env s = some result ↔
      ∃ fuel, renderWithin fuel env s = result ∧ result.1 ≠ .error .exhausted := by
  constructor
  · intro h
    have hfound := found_render env s
    rw [h] at hfound
    obtain ⟨fuel, hfuel⟩ := hfound
    obtain ⟨rfl, hended⟩ := ended?_eq_some hfuel
    exact ⟨fuel, rfl, hended⟩
  · rintro ⟨fuel, rfl, hended⟩
    exact render_eq_some hended

/-- What is rendered for a text, if some fuel is enough. -/
def documentOf? (fuel : Nat) (text : String) : Option (ModuleIndex × String) :=
  match ModuleIndex.ofText (.empty []) text "model.js" (.empty false) with
  | .error _ => none
  | .ok (index, _) =>
    match renderWithin fuel ⟨index, .standard⟩ (Session.start (.empty false)) with
    | (.ok document, _) => some (index, document)
    | (.error _, _) => none

theorem render_of_documentOf? {fuel : Nat} {text document : String} {index : ModuleIndex}
    (h : documentOf? fuel text = some (index, document)) :
    (∃ log, ModuleIndex.ofText (.empty []) text "model.js" (.empty false) = .ok (index, log)) ∧
      ∃ s, render ⟨index, .standard⟩ (Session.start (.empty false)) = some (.ok document, s) := by
  unfold documentOf? at h
  split at h
  · exact absurd h nofun
  next found log hindex =>
    split at h
    next document' s hrun =>
      obtain ⟨rfl, rfl⟩ := Prod.mk.inj (Option.some.inj h)
      refine ⟨⟨log, hindex⟩, s, ?_⟩
      rw [← hrun]
      exact render_eq_some (by rw [hrun]; exact nofun)
    next => exact absurd h nofun

/-! ### Which documents have an end -/

/-- Some schema of the entry file leads to fields that are nested in themselves. -/
def NestedInItself (env : Environment) : Prop :=
  ∃ program b, Declares env program b ∧ b.Endless program env.config

/-- Nothing is spread into the definition of a field of a schema of the entry file. -/
def AllWrittenOut (env : Environment) : Prop :=
  ∀ program b, Declares env program b → b.WrittenOut program env.config

/-- No schema of the entry file has a reason not to be rendered. -/
def NothingRefused (env : Environment) : Prop :=
  ∀ program b stop, Declares env program b → ¬b.Refuses env program stop

/-- Being out of fuel is not a reason not to be rendered. -/
theorem Body.Refuses.ne_exhausted {program : Program} {b : Body} {stop : Stop}
    (h : b.Refuses env program stop) : stop ≠ .exhausted := by
  rcases h with ⟨_, _, _, _, rfl⟩ | ⟨_, _, _, _, _, _, _, _, _, _, rfl⟩
  · exact nofun
  · exact nofun

/-- There is a bound on how deeply the fields of all schemas nest. -/
theorem exists_bound (h : ¬NestedInItself env) :
    ∃ n, ∀ program b, Declares env program b → ¬b.Deep program env.config n := by
  by_cases hdeclares : ∃ program declared,
      env.index.program? 0 = some program ∧ schemas program env.config = .ok declared
  · obtain ⟨program, declared, hprogram, hdeclared⟩ := hdeclares
    have hbounds (b : Body) (hb : b ∈ declared.map fun d => ⟨[], d.entries⟩) :
        ∃ n, ¬b.Deep program env.config n := by
      obtain ⟨d, hd, rfl⟩ := List.mem_map.mp hb
      by_contra! hdeep
      exact h ⟨program, _, ⟨hprogram, declared, hdeclared, d, hd, rfl⟩, Body.deep_iff.mp hdeep⟩
    obtain ⟨n, hn⟩ := Body.exists_not_deep_of_forall hbounds
    refine ⟨n, ?_⟩
    rintro program' b ⟨hprogram', declared', hdeclared', d, hd, rfl⟩
    obtain rfl := Option.some.inj (hprogram.symm.trans hprogram')
    obtain rfl := Except.ok.inj (hdeclared.symm.trans hdeclared')
    exact hn _ (List.mem_map_of_mem hd)
  -- Without an entry file that declares schemas there is nothing to bound.
  · refine ⟨0, ?_⟩
    rintro program b ⟨hprogram, declared, hdeclared, -⟩
    exact absurd ⟨program, declared, hprogram, hdeclared⟩ hdeclares

theorem render_ends (h : ¬NestedInItself env) (s : Session) :
    ∃ result s', render env s = some (result, s') := by
  obtain ⟨n, hn⟩ := exists_bound h
  have henough : (renderWithin n env s).1 ≠ .error .exhausted := by
    intro hexhausted
    rcases (renderWithin_gives n s).2 _ hexhausted with
      ⟨program, b, hdeclares, hrefuses | ⟨-, hdeep⟩⟩ | ⟨hne, -⟩
    · exact hrefuses.ne_exhausted rfl
    · exact hn program b hdeclares hdeep
    · exact hne rfl
  exact ⟨_, _, render_eq_some henough⟩

theorem render_ne_document (hwritten : AllWrittenOut env) (h : NestedInItself env) (s s' : Session)
    (text : String) : render env s ≠ some (.ok text, s') := by
  intro hrender
  obtain ⟨program, b, hdeclares, hendless⟩ := h
  obtain ⟨fuel, hfuel, -⟩ := render_eq_some_iff.mp hrender
  have hnot := (renderWithin_gives fuel s).1 text (by rw [hfuel])
  exact hnot program b hdeclares (hwritten program b hdeclares) (hendless.deep fuel)

theorem render_eq_none_iff (hwritten : AllWrittenOut env) (hrefused : NothingRefused env)
    (s : Session) : render env s = none ↔ NestedInItself env := by
  constructor
  · intro hnone
    by_contra h
    obtain ⟨result, s', hsome⟩ := render_ends h s
    exact absurd (hnone.symm.trans hsome) nofun
  · intro h
    rcases hrender : render env s with _ | ⟨stop | text, s'⟩
    · rfl
    · obtain ⟨fuel, hfuel, hne⟩ := render_eq_some_iff.mp hrender
      rcases (renderWithin_gives fuel s).2 stop (by rw [hfuel]) with
        ⟨program, b, hdeclares, hrefuses | ⟨rfl, -⟩⟩ | ⟨-, hnone⟩
      · exact absurd hrefuses (hrefused program b stop hdeclares)
      · exact absurd rfl hne
      · obtain ⟨program, b, hdeclares, -⟩ := h
        exact absurd hdeclares (hnone program b)
    · exact absurd hrender (render_ne_document hwritten h s s' text)

/-- **Which documents have an end.** There is an end to rendering unless some schema leads to fields
that are nested in themselves. If it does, and nothing is spread into the definitions of fields,
there is no document; and if moreover no module is missing and every constructor is called with a
definition that lists fields, rendering goes on for ever. -/
theorem rendering_ends_unless_nested_in_itself (env : Environment) (s : Session) :
    (¬NestedInItself env → ∃ result s', render env s = some (result, s')) ∧
      (AllWrittenOut env → NestedInItself env → ∀ text s', render env s ≠ some (.ok text, s')) ∧
      (AllWrittenOut env → NothingRefused env → (render env s = none ↔ NestedInItself env)) := by
  refine ⟨fun h => ?_, fun hwritten h text s' => ?_, fun hwritten hrefused => ?_⟩
  · exact render_ends h s
  · exact render_ne_document hwritten h s s' text
  · exact render_eq_none_iff hwritten hrefused s

/-! ### A definition that refers to itself -/

/-- An entry file that declares a definition `D` with one entry, and a schema of it. -/
def fileOf (entry : Entry) : Program :=
  let loc : Loc := ⟨0, 0, 1, 1⟩
  let schema : Expr := .call loc true (.ident loc "Schema") [.ident loc "D"]
  ⟨"", [⟨.declare false [.mk (.ident "D") (some (.object loc [entry]))], loc, .none⟩,
    ⟨.declare false [.mk (.ident "S") (some schema)], loc, .none⟩]⟩

/-- What such a file is rendered over: there are no other files. -/
def environmentOf (entry : Entry) : Environment :=
  ⟨⟨[⟨"model.js", .script (fileOf entry)⟩], []⟩, .standard⟩

/-- The entry `a: new Schema(D)`. -/
def constructsItself : Entry :=
  let loc : Loc := ⟨0, 0, 1, 1⟩
  .mk (.keyed "a") (.call loc true (.ident loc "Schema") [.ident loc "D"]) loc .none

/-- The entry `...D`. -/
def spreadsItself : Entry :=
  let loc : Loc := ⟨0, 0, 1, 1⟩
  .mk .spread (.ident loc "D") loc .none

theorem declares_environmentOf {entry : Entry} {program : Program} {b : Body} :
    Declares (environmentOf entry) program b ↔ program = fileOf entry ∧ b = ⟨[], [entry]⟩ := by
  constructor
  · rintro ⟨hprogram, declared, hdeclared, d, hd, rfl⟩
    obtain rfl : fileOf entry = program := Option.some.inj hprogram
    have hschemas : schemas (fileOf entry) (environmentOf entry).config = .ok [⟨"S", [entry]⟩] := rfl
    obtain rfl := Except.ok.inj (hschemas.symm.trans hdeclared)
    obtain rfl := List.mem_singleton.mp hd
    exact ⟨rfl, rfl⟩
  · rintro ⟨rfl, rfl⟩
    exact ⟨rfl, _, rfl, ⟨"S", [entry]⟩, List.mem_singleton_self _, rfl⟩

/-- A name that is being spliced is not spliced again. -/
theorem not_nestedInItself_spreadsItself : ¬NestedInItself (environmentOf spreadsItself) := by
  rintro ⟨program, b, hdeclares, hendless⟩
  obtain ⟨rfl, rfl⟩ := declares_environmentOf.mp hdeclares
  -- Two levels would do: `D` is spliced once, and inside of it there is nothing to splice.
  obtain ⟨b₁, hcalls₁, b₂, hcalls₂, -⟩ := hendless.deep 2
  obtain rfl : b₁ = ⟨["D"], [spreadsItself]⟩ := List.mem_singleton.mp hcalls₁
  exact absurd hcalls₂ List.not_mem_nil

theorem nestedInItself_constructsItself : NestedInItself (environmentOf constructsItself) := by
  refine ⟨_, _, declares_environmentOf.mpr ⟨rfl, rfl⟩, _, .refl, .single ?_⟩
  exact ⟨constructsItself, List.mem_singleton_self _, ⟨"a", rfl⟩, List.mem_singleton_self _⟩

/-- Nothing but the definition itself is ever reached. -/
theorem eq_of_reaches_constructsItself {b : Body}
    (h : ReflTransGen (Body.Calls (fileOf constructsItself) .standard) ⟨[], [constructsItself]⟩ b) :
    b = ⟨[], [constructsItself]⟩ := by
  induction h with
  | refl => rfl
  | tail _ hcalls ih =>
    subst ih
    exact List.mem_singleton.mp hcalls

theorem allWrittenOut_constructsItself : AllWrittenOut (environmentOf constructsItself) := by
  intro program b hdeclares b' hpath entry hentry _ loc entries hobject
  obtain ⟨rfl, rfl⟩ := declares_environmentOf.mp hdeclares
  obtain rfl := eq_of_reaches_constructsItself hpath
  obtain rfl := List.mem_singleton.mp hentry
  exact absurd hobject nofun

theorem nothingRefused_constructsItself : NothingRefused (environmentOf constructsItself) := by
  intro program b stop hdeclares hrefuses
  obtain ⟨rfl, rfl⟩ := declares_environmentOf.mp hdeclares
  rcases hrefuses with ⟨m, specifier, reason, hlink, -⟩ | ⟨b', hpath, entry, hentry, key, -, he⟩
  · exact absurd hlink nofun
  · obtain rfl := eq_of_reaches_constructsItself hpath
    obtain rfl := List.mem_singleton.mp hentry
    obtain ⟨e, hplace, error, herror, -⟩ := he
    obtain rfl := List.mem_singleton.mp hplace
    exact absurd herror nofun

/-- A definition that constructs a schema from itself has no end, from whatever session. -/
theorem render_constructsItself (s : Session) :
    render (environmentOf constructsItself) s = none :=
  (render_eq_none_iff allWrittenOut_constructsItself nothingRefused_constructsItself s).mpr
    nestedInItself_constructsItself

/-- **Not every document has an end.** -/
theorem not_every_document_has_an_end :
    ¬∀ env s, ∃ result s', render env s = some (result, s') := by
  intro h
  obtain ⟨result, s', hresult⟩ := h (environmentOf constructsItself) (Session.start (.empty true))
  exact absurd ((render_constructsItself _).symm.trans hresult) nofun

/-- A definition that spreads itself is rendered, and one that constructs itself is not. -/
theorem rendering_of_self_references :
    let s := Session.start (.empty true)
    (¬NestedInItself (environmentOf spreadsItself) ∧
      ∃ result s', render (environmentOf spreadsItself) s = some (result, s')) ∧
    (AllWrittenOut (environmentOf constructsItself) ∧
      NothingRefused (environmentOf constructsItself) ∧
      NestedInItself (environmentOf constructsItself) ∧
      render (environmentOf constructsItself) s = none) := by
  intro s
  obtain ⟨hends, -, -⟩ := rendering_ends_unless_nested_in_itself (environmentOf spreadsItself) s
  obtain ⟨-, -, hnone⟩ := rendering_ends_unless_nested_in_itself (environmentOf constructsItself) s
  have hiff := hnone allWrittenOut_constructsItself nothingRefused_constructsItself
  exact ⟨⟨not_nestedInItself_spreadsItself, hends not_nestedInItself_spreadsItself⟩,
    allWrittenOut_constructsItself, nothingRefused_constructsItself,
    nestedInItself_constructsItself, hiff.mpr nestedInItself_constructsItself⟩

end SchemaDoc.Document
