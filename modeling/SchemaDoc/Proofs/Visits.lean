import SchemaDoc.Proofs.Rendering
import SchemaDoc.Proofs.Rules

/-!
# What rendering comes to

Which entries a document shows is not a matter of what is written alone. A nested definition may
turn out to be a type, a spread may hide a type marker, and an error may come first. So "the fields
of a document" are those that rendering comes to when it is run: `Visits` says which entries these
are, at which level, and in which session they are met. It follows the recursion of rendering, with
one rule for each way on: to the entry that stands first, to the ones behind it, into nested fields,
and into the literal that a spread splices in.

Two things are known of every visit. The session is in the contexts that rendering started in, since
evaluation leaves whatever it enters (`Visits.sameContexts`); and if the rendering around it gives
texts, then the text of a field that is visited stands in one of them (`Visits.shownIn`).

How much fuel there is does not matter to what is visited, as long as there is enough of it.
`Rendered` is what rendering gives with whatever fuel it takes.
-/

namespace SchemaDoc.Document

open Relation

variable {env : Environment}

/-! ### Entry by entry -/

section Entries

variable (rec : Renderer) (splicing : List String) (depth : Nat) (line : Option Nat)

/-- The fields of one entry. -/
def entryTexts (entry : Entry) : Eval (List String) :=
  match entry.kind with
  | .keyed key => do return [← field rec splicing depth line key entry]
  | .spread => spread rec splicing depth entry.value
  | .element => return []

theorem entryFields_cons (entry : Entry) (entries : List Entry) :
    entryFields rec splicing depth line (entry :: entries) = do
      let texts ← entryTexts rec splicing depth line entry
      return texts ++ (← entryFields rec splicing depth line entries) := by
  rw [entryFields, entryTexts]
  cases entry.kind <;> simp

theorem entryFields_append (front back : List Entry) :
    entryFields rec splicing depth line (front ++ back) = do
      let texts ← entryFields rec splicing depth line front
      return texts ++ (← entryFields rec splicing depth line back) := by
  induction front with
  | nil => simp [entryFields]
  | cons entry front ih =>
    simp only [List.cons_append, entryFields_cons, ih, bind_assoc, pure_bind, List.append_assoc]

end Entries

section Fuel

variable (fuel : Nat) (splicing : List String) (depth : Nat) (line : Option Nat)

theorem renderEntries_cons (entry : Entry) (entries : List Entry) :
    renderEntries (fuel + 1) splicing depth line (entry :: entries) = do
      let texts ← entryTexts (renderEntries fuel) splicing depth line entry
      return texts ++ (← renderEntries (fuel + 1) splicing depth line entries) :=
  entryFields_cons _ splicing depth line entry entries

theorem renderEntries_append (front back : List Entry) :
    renderEntries (fuel + 1) splicing depth line (front ++ back) = do
      let texts ← renderEntries (fuel + 1) splicing depth line front
      return texts ++ (← renderEntries (fuel + 1) splicing depth line back) :=
  entryFields_append _ splicing depth line front back

variable {fuel splicing depth line}

/-- The texts of entries are those of the first one, then those of the others. -/
theorem exists_of_renderEntries_cons {entry : Entry} {entries : List Entry} {texts : List String}
    {s s' : Session}
    (h : renderEntries (fuel + 1) splicing depth line (entry :: entries) env s = (.ok texts, s')) :
    ∃ own s₁ others,
      entryTexts (renderEntries fuel) splicing depth line entry env s = (.ok own, s₁) ∧
      renderEntries (fuel + 1) splicing depth line entries env s₁ = (.ok others, s') ∧
      texts = own ++ others := by
  rw [renderEntries_cons] at h
  obtain ⟨own, s₁, hown, hrest⟩ := Eval.exists_of_run_bind_ok h
  obtain ⟨others, s₂, hothers, hpure⟩ := Eval.exists_of_run_bind_ok hrest
  cases hpure
  exact ⟨own, s₁, others, hown, hothers, rfl⟩

/-- The text of a keyed entry is that of its field. -/
theorem exists_of_entryTexts_keyed {rec : Renderer} {entry : Entry} {key : String}
    (hkey : entry.kind = .keyed key) {texts : List String} {s s' : Session}
    (h : entryTexts rec splicing depth line entry env s = (.ok texts, s')) :
    ∃ text, field rec splicing depth line key entry env s = (.ok text, s') ∧ texts = [text] := by
  simp only [entryTexts, hkey] at h
  obtain ⟨text, s₁, hfield, hpure⟩ := Eval.exists_of_run_bind_ok h
  cases hpure
  exact ⟨text, hfield, rfl⟩

end Fuel

/-! ### Visits -/

/-- An entry that rendering comes to: the names that are being spliced there, its level, the line
whose comments are claimed by the field around it, and the session that it is met in. -/
structure Visit where
  splicing : List String
  depth : Nat
  line : Option Nat
  entry : Entry
  session : Session

/-- **What rendering comes to.** Rendering entries with some fuel, from a session, comes to the
first of them; to what the others lead to, if the first one is rendered; to what the nested fields
of the first one lead to, if it has a shape and a bullet; and to what the entries lead to that it
splices in. -/
inductive Visits (env : Environment) (v : Visit) :
    Nat → List String → Nat → Option Nat → List Entry → Session → Prop
  | here {fuel : Nat} {rest : List Entry} :
    Visits env v (fuel + 1) v.splicing v.depth v.line (v.entry :: rest) v.session
  | later {fuel : Nat} {splicing : List String} {depth : Nat} {line : Option Nat} {entry : Entry}
    {rest : List Entry} {texts : List String} {s s' : Session}
    (rendered : entryTexts (renderEntries fuel) splicing depth line entry env s = (.ok texts, s'))
    (visits : Visits env v (fuel + 1) splicing depth line rest s') :
    Visits env v (fuel + 1) splicing depth line (entry :: rest) s
  | nested {fuel : Nat} {splicing : List String} {depth : Nat} {line claimed : Option Nat}
    {entry : Entry} {rest inner : List Entry} {key text : String} {shape : Shape}
    {s s₁ s₂ : Session} (keyed : entry.kind = .keyed key)
    (shaped : shapeOf key entry.value env s = (.ok shape, s₁))
    (shown : bullet key shape depth env s₁ = (.ok text, s₂))
    (children : shape.children = .entries inner claimed)
    (visits : Visits env v fuel splicing (depth + 1) claimed inner s₂) :
    Visits env v (fuel + 1) splicing depth line (entry :: rest) s
  | spliced {fuel : Nat} {splicing : List String} {depth : Nat} {line : Option Nat} {entry : Entry}
    {rest inner : List Entry} {program : Program} {name : String} {s : Session}
    (spreads : entry.kind = .spread) (program_eq : env.index.program? 0 = some program)
    (splices : spliced? program splicing entry.value = some (name, inner))
    (visits : Visits env v fuel (name :: splicing) depth none inner s) :
    Visits env v (fuel + 1) splicing depth line (entry :: rest) s

/-! ### Sessions -/

theorem entryTexts_holds {R : Rule env} {rec : Renderer} (hrec : R.Renders rec)
    (splicing : List String) (depth : Nat) (line : Option Nat) (entry : Entry) {s : Session} :
    R.Holds (entryTexts rec splicing depth line entry) s := by
  unfold entryTexts
  split
  · exact R.bind (hrec.field splicing depth line _ entry) fun _ _ => R.pure _
  · exact hrec.spread splicing depth entry.value
  · exact R.pure _

/-- **The rule of contexts**: rendering leaves the contexts that evaluation enters for it. -/
def keepsContexts (env : Environment) : Rule env where
  Holds x s := s.SameContexts (x env s).2
  pure _ := .refl _
  stop _ := .refl _
  bind := by
    intro α β x f s hx hf
    rcases Eval.run_bind_cases x f env s with ⟨a, s', hrun, hbind⟩ | ⟨e, s', hrun, hbind⟩
    · rw [hrun] at hx
      rw [hbind]
      exact hx.trans (hf a s')
    · rw [hrun] at hx
      rwa [hbind]
  entry := by
    intro α f s _ hf
    cases hprogram : env.index.program? 0 with
    | none =>
      have hentry : entryProgram env s = (.error (.error .noSchema), s) := by
        rw [run_entryProgram, hprogram]
      rw [Eval.run_bind_error hentry]
      exact .refl s
    | some program =>
      have hentry : entryProgram env s = (.ok program, s) := by rw [run_entryProgram, hprogram]
      rw [Eval.run_bind_ok hentry]
      exact hf program s
  config hx := hx
  warn _ := ⟨rfl, rfl, rfl⟩
  info _ := ⟨rfl, rfl, rfl⟩
  request r := (request_ends env r _).2

namespace Visits

variable {v : Visit} {fuel depth : Nat} {splicing : List String} {line : Option Nat}
  {entries : List Entry} {s : Session}

/-- **Whatever rendering comes to, it comes to in the contexts that it started in.** -/
theorem sameContexts (h : Visits env v fuel splicing depth line entries s) :
    s.SameContexts v.session := by
  let R := keepsContexts env
  induction h with
  | here => exact .refl _
  | @later fuel splicing depth line entry _ _ s s' rendered _ ih =>
    have hentry : s.SameContexts
        (entryTexts (renderEntries fuel) splicing depth line entry env s).2 :=
      entryTexts_holds (R.renderEntries fuel) splicing depth line entry
    rw [rendered] at hentry
    exact hentry.trans ih
  | @nested fuel splicing depth line _ entry _ _ key text shape s s₁ s₂ _ shaped shown _ _ ih =>
    have hshape : s.SameContexts (shapeOf key entry.value env s).2 := R.shapeOf key entry.value
    have hbullet : s₁.SameContexts (bullet key shape depth env s₁).2 := R.bullet key shape depth
    rw [shaped] at hshape
    rw [shown] at hbullet
    exact (hshape.trans hbullet).trans ih
  | spliced _ _ _ _ ih => exact ih

/-- A body leads to whatever fewer of its entries lead to. -/
theorem exists_reached_of_cons {program : Program} {config : Config} {entry found : Entry}
    {b : Body} (hpath : ReflTransGen (Body.Calls program config) ⟨splicing, entries⟩ b)
    (hfound : found ∈ b.entries) :
    ∃ b', ReflTransGen (Body.Calls program config) ⟨splicing, entry :: entries⟩ b' ∧
      found ∈ b'.entries := by
  rcases hpath.cases_head with rfl | ⟨b₁, hcalls, hrest⟩
  · exact ⟨_, .refl, List.mem_cons_of_mem entry hfound⟩
  · obtain ⟨caller, hcaller, hb₁⟩ := List.mem_flatMap.mp hcalls
    exact ⟨b, hrest.head (List.mem_flatMap.mpr ⟨caller, List.mem_cons_of_mem entry hcaller, hb₁⟩),
      hfound⟩

/-- **Rendering comes only to what the entries lead to as they are written.** -/
theorem exists_reached {program : Program} (hprogram : env.index.program? 0 = some program)
    (h : Visits env v fuel splicing depth line entries s) :
    ∃ b, ReflTransGen (Body.Calls program env.config) ⟨splicing, entries⟩ b ∧
      v.entry ∈ b.entries := by
  induction h with
  | here => exact ⟨_, .refl, List.mem_cons_self⟩
  | later _ _ ih =>
    obtain ⟨b, hpath, hmem⟩ := ih
    exact exists_reached_of_cons hpath hmem
  | @nested _ splicing _ _ _ entry rest inner key _ shape s _ _ keyed shaped _ children _ ih =>
    obtain ⟨b, hpath, hmem⟩ := ih
    have hnests := ((shapeOf_gives hprogram key entry.value s).1 shape (by rw [shaped])).1 inner
      (by rw [Shape.body?, children])
    have hcalls : Body.Calls program env.config ⟨splicing, entry :: rest⟩ ⟨splicing, inner⟩ :=
      Body.calls_of_nests splicing ⟨entry, List.mem_cons_self, ⟨key, keyed⟩, hnests⟩
    exact ⟨b, hpath.head hcalls, hmem⟩
  | @spliced _ splicing _ _ entry rest inner program' name _ spreads program_eq splices _ ih =>
    obtain ⟨b, hpath, hmem⟩ := ih
    obtain rfl := Option.some.inj (hprogram.symm.trans program_eq)
    have hcalls :
        Body.Calls program env.config ⟨splicing, entry :: rest⟩ ⟨name :: splicing, inner⟩ :=
      List.mem_flatMap.mpr ⟨entry, List.mem_cons_self, by simp [Body.callsOf, spreads, splices]⟩
    exact ⟨b, hpath.head hcalls, hmem⟩

end Visits

/-! ### What is shown -/

/-- A text with another one in it. -/
def Contains (whole part : String) : Prop := ∃ before after, whole = before ++ part ++ after

namespace Contains

variable {whole part inner : String}

theorem refl (text : String) : Contains text text := ⟨"", "", by simp⟩

theorem trans (h : Contains whole part) (h' : Contains part inner) : Contains whole inner := by
  obtain ⟨before, after, rfl⟩ := h
  obtain ⟨before', after', rfl⟩ := h'
  exact ⟨before ++ before', after' ++ after, by simp only [String.append_assoc]⟩

theorem append_left (h : Contains whole part) (before : String) : Contains (before ++ whole) part :=
  trans ⟨before, "", by simp⟩ h

theorem append_right (h : Contains whole part) (after : String) : Contains (whole ++ after) part :=
  trans ⟨"", after, by simp⟩ h

theorem intercalate (separator : String) {parts : List String} (h : part ∈ parts) :
    Contains (separator.intercalate parts) part := by
  induction parts with
  | nil => exact absurd h List.not_mem_nil
  | cons first rest ih =>
    cases rest with
    | nil =>
      obtain rfl := List.mem_singleton.mp h
      rw [String.intercalate_singleton]
      exact refl part
    | cons second rest =>
      rw [String.intercalate_cons_cons]
      rcases List.mem_cons.mp h with rfl | hrest
      · exact ((refl part).append_right separator).append_right _
      · exact (ih hrest).append_left _

end Contains

namespace Visits

variable {v : Visit} {fuel depth : Nat} {splicing : List String} {line : Option Nat}
  {entries : List Entry} {s : Session}

/-- The text of a field that is come to stands in one of the given texts. -/
def ShownIn (env : Environment) (v : Visit) (key : String) (texts : List String) : Prop :=
  ∃ below text t, field (renderEntries below) v.splicing v.depth v.line key v.entry env v.session =
      (.ok text, t) ∧ ∃ whole ∈ texts, Contains whole text

theorem ShownIn.mono {key : String} {texts texts' : List String} (h : ShownIn env v key texts)
    (hcontains : ∀ whole ∈ texts, ∃ whole' ∈ texts', Contains whole' whole) :
    ShownIn env v key texts' := by
  obtain ⟨below, text, t, hfield, whole, hwhole, htext⟩ := h
  obtain ⟨whole', hwhole', hpart⟩ := hcontains whole hwhole
  exact ⟨below, text, t, hfield, whole', hwhole', hpart.trans htext⟩

theorem ShownIn.of_subset {key : String} {texts texts' : List String} (h : ShownIn env v key texts)
    (hsubset : texts ⊆ texts') : ShownIn env v key texts' :=
  h.mono fun whole hwhole => ⟨whole, hsubset hwhole, .refl whole⟩

/-- **A field that rendering comes to is shown**, if there is anything to show. -/
theorem shownIn (h : Visits env v fuel splicing depth line entries s) {key : String}
    (hkey : v.entry.kind = .keyed key) {texts : List String} {s' : Session}
    (hrun : renderEntries fuel splicing depth line entries env s = (.ok texts, s')) :
    ShownIn env v key texts := by
  induction h generalizing texts s' with
  | @here fuel rest =>
    obtain ⟨own, s₁, others, hown, -, rfl⟩ := exists_of_renderEntries_cons hrun
    obtain ⟨text, hfield, rfl⟩ := exists_of_entryTexts_keyed hkey hown
    exact ⟨fuel, text, s₁, hfield, text, List.mem_cons_self, .refl text⟩
  | later rendered _ ih =>
    obtain ⟨own, s₁, others, hown, hothers, rfl⟩ := exists_of_renderEntries_cons hrun
    cases rendered.symm.trans hown
    exact (ih hothers).of_subset (List.subset_append_right _ _)
  | @nested fuel splicing depth line claimed entry rest inner key' text shape s s₁ s₂ keyed shaped
      shown children _ ih =>
    obtain ⟨own, s₃, others, hown, -, rfl⟩ := exists_of_renderEntries_cons hrun
    obtain ⟨whole, hfield, rfl⟩ := exists_of_entryTexts_keyed keyed hown
    -- The text of the field ends with those of its nested fields.
    have hnested : childFields (renderEntries fuel) splicing (depth + 1) shape.children =
        renderEntries fuel splicing (depth + 1) claimed inner := by rw [children, childFields]
    rw [field, Eval.run_bind_ok shaped, Eval.run_bind_ok shown, hnested] at hfield
    obtain ⟨texts', s₄, hinner, htext⟩ := Eval.exists_of_run_bind_ok hfield
    cases htext
    refine (ih hinner).mono fun part hpart => ⟨_, List.mem_cons_self, ?_⟩
    exact .intercalate "\n" (List.mem_cons_of_mem _ hpart)
  | @spliced fuel splicing depth line entry rest inner program name s spreads program_eq splices _
      ih =>
    obtain ⟨own, s₁, others, hown, -, rfl⟩ := exists_of_renderEntries_cons hrun
    have hentry : entryProgram env s = (.ok program, s) := by rw [run_entryProgram, program_eq]
    simp only [entryTexts, spreads, spread] at hown
    rw [Eval.run_bind_ok hentry, splices] at hown
    exact (ih hown).of_subset (List.subset_append_left _ _)

end Visits

/-! ### As much fuel as it takes -/

/-- What rendering gives with whatever fuel it takes. -/
def Rendered (env : Environment) (splicing : List String) (depth : Nat) (line : Option Nat)
    (entries : List Entry) (s : Session) (result : Except Stop (List String) × Session) : Prop :=
  ∃ fuel, renderEntries fuel splicing depth line entries env s = result ∧
    result.1 ≠ .error .exhausted

/-- What is rendered in one way is rendered in another if every fuel that is enough for the first is
matched by one for the second. -/
theorem Rendered.of_agree {splicing splicing' : List String} {depth depth' : Nat}
    {line line' : Option Nat} {entries entries' : List Entry} {s : Session}
    {result : Except Stop (List String) × Session}
    (hagree : ∀ fuel, ∃ fuel', AgreeUnlessExhausted env
      (renderEntries (fuel + 1) splicing depth line entries)
      (renderEntries (fuel' + 1) splicing' depth' line' entries') s)
    (h : Rendered env splicing depth line entries s result) :
    Rendered env splicing' depth' line' entries' s result := by
  obtain ⟨_ | fuel, rfl, hends⟩ := h
  · exact absurd rfl hends
  · obtain ⟨fuel', hfuel'⟩ := hagree fuel
    exact ⟨fuel' + 1, hfuel' hends, hends⟩

theorem entryTexts_agree (fuel more : Nat) (splicing : List String) (depth : Nat)
    (line : Option Nat) (entry : Entry) (s : Session) :
    AgreeUnlessExhausted env (entryTexts (renderEntries fuel) splicing depth line entry)
      (entryTexts (renderEntries (fuel + more)) splicing depth line entry) s := by
  have hagree : RenderersAgree env _ _ := renderEntries_agree fuel more
  unfold entryTexts
  split
  · exact .bind (field_agree hagree splicing depth line _ entry) fun _ _ => .refl
  · exact spread_agree hagree splicing depth entry.value
  · exact .refl

/-- With more fuel, rendering comes to no less. -/
theorem Visits.add {v : Visit} {fuel depth : Nat} {splicing : List String} {line : Option Nat}
    {entries : List Entry} {s : Session} (h : Visits env v fuel splicing depth line entries s)
    (more : Nat) : Visits env v (fuel + more) splicing depth line entries s := by
  induction h with
  | here =>
    rw [Nat.add_right_comm]
    exact .here
  | @later fuel splicing depth line entry _ _ s _ rendered _ ih =>
    rw [Nat.add_right_comm] at ih ⊢
    have hagree := entryTexts_agree fuel more splicing depth line entry s (by rw [rendered]; nofun)
    exact .later (hagree.trans rendered) ih
  | nested keyed shaped shown children _ ih =>
    rw [Nat.add_right_comm]
    exact .nested keyed shaped shown children ih
  | spliced spreads program_eq splices _ ih =>
    rw [Nat.add_right_comm]
    exact .spliced spreads program_eq splices ih

/-! ### Documents -/

/-- What rendering the blocks of schemas comes to, one schema after the other. -/
inductive SectionVisits (env : Environment) (v : Visit) (fuel : Nat) (program : Program) :
    List SchemaDecl → Session → Prop
  | here {d : SchemaDecl} {ds : List SchemaDecl} {s : Session}
    (visits : Visits env v fuel [] 0 none d.entries s) :
    SectionVisits env v fuel program (d :: ds) s
  | later {d : SchemaDecl} {ds : List SchemaDecl} {block : String} {s s' : Session}
    (rendered : schemaBlock fuel program d env s = (.ok block, s'))
    (visits : SectionVisits env v fuel program ds s') : SectionVisits env v fuel program (d :: ds) s

/-- The session after the main schema was announced. -/
def announced (main : SchemaDecl) (subs : List SchemaDecl) (s : Session) : Session :=
  { s with log := s.log.info s!"main schema: {main.name} ({subs.length} sub-schema(s))" }

/-- **What rendering a document comes to**: the main schema first, then the others. -/
def DocumentVisits (env : Environment) (s : Session) (v : Visit) : Prop :=
  ∃ fuel program declared main, env.index.program? 0 = some program ∧
    schemas program env.config = .ok declared ∧ declared.getLast? = some main ∧
    SectionVisits env v fuel program (main :: declared.dropLast)
      (announced main declared.dropLast s)

namespace SectionVisits

variable {v : Visit} {fuel : Nat} {program : Program} {ds : List SchemaDecl} {s : Session}

theorem add (h : SectionVisits env v fuel program ds s) (more : Nat) :
    SectionVisits env v (fuel + more) program ds s := by
  induction h with
  | here visits => exact .here (visits.add more)
  | @later d _ _ s _ rendered _ ih =>
    have hagree := schemaBlock_agree fuel more program d s (by rw [rendered]; nofun)
    exact .later (hagree.trans rendered) ih

theorem sameContexts (h : SectionVisits env v fuel program ds s) : s.SameContexts v.session := by
  induction h with
  | here visits => exact visits.sameContexts
  | @later d _ _ s _ rendered _ ih =>
    have hblock : s.SameContexts (schemaBlock fuel program d env s).2 :=
      (keepsContexts env).schemaBlock fuel program d
    rw [rendered] at hblock
    exact hblock.trans ih

end SectionVisits

/-- A block shows the fields of its schema. -/
theorem Visits.shownIn_block {v : Visit} {fuel : Nat} {program : Program} {d : SchemaDecl}
    {s s' : Session} (h : Visits env v fuel [] 0 none d.entries s) {key : String}
    (hkey : v.entry.kind = .keyed key) {block : String}
    (hrun : schemaBlock fuel program d env s = (.ok block, s')) : ShownIn env v key [block] := by
  obtain ⟨fields, s₁, hfields, hpure⟩ := Eval.exists_of_run_bind_ok hrun
  cases hpure
  exact (h.shownIn hkey hfields).mono fun whole hwhole =>
    ⟨_, List.mem_cons_self, .intercalate "\n" (List.mem_append_left _ hwhole)⟩

theorem contains_headed (heading block : String) : Contains (headed heading block) block := by
  unfold headed
  split
  next hempty =>
    rw [String.isEmpty_iff.mp hempty]
    exact ⟨heading, "", by simp⟩
  next => exact (Contains.refl block).append_left _

/-- Sections show the fields of their schemas. -/
theorem SectionVisits.shownIn {v : Visit} {fuel : Nat} {program : Program} {ds : List SchemaDecl}
    {s s' : Session} (h : SectionVisits env v fuel program ds s) {key : String}
    (hkey : v.entry.kind = .keyed key) {sections : List String}
    (hrun : subSections fuel program ds env s = (.ok sections, s')) :
    Visits.ShownIn env v key sections := by
  induction h generalizing sections s' with
  | @here d ds s visits =>
    obtain ⟨block, s₁, hblock, hrest⟩ := Eval.exists_of_run_bind_ok hrun
    obtain ⟨others, s₂, -, hpure⟩ := Eval.exists_of_run_bind_ok hrest
    cases hpure
    refine (visits.shownIn_block hkey hblock).mono fun whole hwhole => ⟨_, List.mem_cons_self, ?_⟩
    rw [List.mem_singleton.mp hwhole]
    exact contains_headed _ block
  | later rendered _ ih =>
    rw [subSections, Eval.run_bind_ok rendered] at hrun
    obtain ⟨others, s₂, hothers, hpure⟩ := Eval.exists_of_run_bind_ok hrun
    cases hpure
    exact (ih hothers).of_subset (List.subset_cons_self _ _)

/-- The sections of schemas: the block of the main one under its title, then the others. -/
theorem exists_of_schemaSections {fuel : Nat} {program : Program} {sections : List String}
    {s s' : Session} (h : schemaSections fuel program env s = (.ok sections, s')) :
    ∃ declared main block subs s₁, schemas program env.config = .ok declared ∧
      declared.getLast? = some main ∧
      schemaBlock fuel program main env (announced main declared.dropLast s) = (.ok block, s₁) ∧
      subSections fuel program declared.dropLast env s₁ = (.ok subs, s') ∧
      sections = headed ("# " ++ Name.schemaLabel main.name) block :: subs := by
  have hconfig : Eval.config env s = (.ok env.config, s) := rfl
  rw [schemaSections, Eval.run_bind_ok hconfig] at h
  cases hdeclared : schemas program env.config with
  | error e =>
    rw [hdeclared] at h
    exact absurd h nofun
  | ok declared =>
    simp only [hdeclared] at h
    cases hmain : declared.getLast? with
    | none =>
      simp only [hmain] at h
      exact absurd h nofun
    | some main =>
      simp only [hmain] at h
      obtain ⟨_, s₀, hinfo, h⟩ := Eval.exists_of_run_bind_ok h
      obtain ⟨block, s₁, hblock, h⟩ := Eval.exists_of_run_bind_ok h
      obtain ⟨subs, s₂, hsubs, hpure⟩ := Eval.exists_of_run_bind_ok h
      cases hinfo
      cases hpure
      exact ⟨declared, main, block, subs, s₁, rfl, hmain, hblock, hsubs, rfl⟩

end SchemaDoc.Document
