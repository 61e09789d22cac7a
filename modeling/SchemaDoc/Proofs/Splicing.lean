import SchemaDoc.Proofs.Visits

/-!
# Spliced literals

A spread of a name that is bound to an object literal stands for the fields of that literal. This
file says that it makes no difference whether these are spread by name or written in place
(`spread_as_written_in_place`): the fields are the same, with the same descriptions, and so are the
session after them and the reason for stopping before that.

There is one thing that spreading by name changes. While the literal is being spliced, its name is
not spliced again, but evaluated. So the two differ if rendering the literal comes to another spread
of its name, at whatever depth: inside nested documents, or by way of other literals that are spliced
in. Unless it does, the list of names that are being spliced may as well lack the name
(`renderEntries_eq_of_avoids`), since it is only ever asked about the names of spreads.
-/

namespace SchemaDoc

theorem Expr.ident?_eq_some {e : Expr} {name : String} :
    e.ident? = some name ↔ ∃ loc, e = .ident loc name := by
  constructor
  · intro h
    unfold Expr.ident? at h
    split at h
    next loc other => exact ⟨loc, by rw [Option.some.inj h]⟩
    next => exact absurd h nofun
  · rintro ⟨loc, rfl⟩
    rfl

/-- The entry `...name`. -/
def Entry.Spreads (entry : Entry) (name : String) : Prop :=
  entry.kind = .spread ∧ entry.value.ident? = some name

instance (entry : Entry) (name : String) : Decidable (entry.Spreads name) :=
  inferInstanceAs (Decidable (_ ∧ _))

namespace Document

open Relation

variable {env : Environment} {name : String}

/-! ### The names that are being spliced -/

/-- Two lists have the same names, except perhaps for one. -/
def SameBut (name : String) (splicing splicing' : List String) : Prop :=
  ∀ other, other ≠ name → (other ∈ splicing ↔ other ∈ splicing')

theorem SameBut.cons {splicing splicing' : List String} (h : SameBut name splicing splicing')
    (first : String) : SameBut name (first :: splicing) (first :: splicing') := by
  intro other hother
  rw [List.mem_cons, List.mem_cons, h other hother]

theorem sameBut_cons_self (name : String) (splicing : List String) :
    SameBut name (name :: splicing) splicing := by
  intro other hother
  simp [hother]

theorem spliced?_eq_of_sameBut {splicing splicing' : List String}
    (h : SameBut name splicing splicing') (program : Program) {e : Expr}
    (he : e.ident? ≠ some name) :
    spliced? program splicing' e = spliced? program splicing e := by
  unfold spliced?
  split
  next loc other =>
    have hother : other ≠ name := fun heq => he (congrArg some heq)
    have hcontains : splicing'.contains other = splicing.contains other := by
      rw [Bool.eq_iff_iff, List.contains_iff_mem, List.contains_iff_mem, h other hother]
    rw [hcontains]
  next => rfl

/-! ### Rendering that does not come to a name -/

/-- Rendering entries comes to no spread of a name. -/
def Avoids (env : Environment) (name : String) (fuel : Nat) (splicing : List String) (depth : Nat)
    (line : Option Nat) (entries : List Entry) (s : Session) : Prop :=
  ∀ v, Visits env v fuel splicing depth line entries s → ¬v.entry.Spreads name

/-- A spread that the entries do not lead to as they are written is not come to. -/
theorem avoids_of_written {program : Program} (hprogram : env.index.program? 0 = some program)
    {splicing : List String} {entries : List Entry}
    (h : ∀ b, ReflTransGen (Body.Calls program env.config) ⟨splicing, entries⟩ b →
      ∀ entry ∈ b.entries, ¬entry.Spreads name)
    (fuel depth : Nat) (line : Option Nat) (s : Session) :
    Avoids env name fuel splicing depth line entries s := by
  intro v hv
  obtain ⟨b, hpath, hmem⟩ := hv.exists_reached hprogram
  exact h b hpath v.entry hmem

section Level

variable {fuel depth : Nat} {splicing splicing' : List String} {line : Option Nat}

/-- What is left out for one level: rendering the levels below does not depend on the name. -/
def IgnoredBelow (env : Environment) (name : String) (fuel : Nat) : Prop :=
  ∀ {splicing splicing' : List String} {depth : Nat} {line : Option Nat} {entries : List Entry}
    {s : Session}, SameBut name splicing splicing' →
      Avoids env name fuel splicing depth line entries s →
        renderEntries fuel splicing' depth line entries env s =
          renderEntries fuel splicing depth line entries env s

variable (hbelow : IgnoredBelow env name fuel) (hsame : SameBut name splicing splicing')

include hbelow hsame

theorem field_eq_of_avoids {entry : Entry} {key : String} (hkey : entry.kind = .keyed key)
    {rest : List Entry} {s : Session}
    (havoids : Avoids env name (fuel + 1) splicing depth line (entry :: rest) s) :
    field (renderEntries fuel) splicing' depth line key entry env s =
      field (renderEntries fuel) splicing depth line key entry env s := by
  refine Eval.run_bind_congr rfl fun shape s₁ hshape => ?_
  refine Eval.run_bind_congr rfl fun text s₂ htext => ?_
  refine Eval.run_bind_congr ?_ fun _ _ _ => rfl
  cases hchildren : shape.children with
  | none => rfl
  | entries inner claimed =>
    exact hbelow hsame fun v hv => havoids v (.nested hkey hshape htext hchildren hv)
  | values fields => rfl

theorem spread_eq_of_avoids {entry : Entry} (hkind : entry.kind = .spread) {rest : List Entry}
    {s : Session} (havoids : Avoids env name (fuel + 1) splicing depth line (entry :: rest) s) :
    spread (renderEntries fuel) splicing' depth entry.value env s =
      spread (renderEntries fuel) splicing depth entry.value env s := by
  refine Eval.run_bind_congr rfl fun program s' hentry => ?_
  obtain ⟨hprogram, rfl⟩ := eq_of_entryProgram hentry
  -- The entry itself is come to, so it spreads another name or something that is no name.
  have hother : entry.value.ident? ≠ some name := fun hvalue =>
    havoids ⟨splicing, depth, line, entry, s'⟩ .here ⟨hkind, hvalue⟩
  rw [spliced?_eq_of_sameBut hsame program hother]
  rcases hspliced : spliced? program splicing entry.value with _ | ⟨other, inner⟩
  · rfl
  · exact hbelow (hsame.cons other) fun v hv => havoids v (.spliced hkind hprogram hspliced hv)

/-- **One level.** -/
theorem entryFields_eq_of_avoids {entries : List Entry} {s : Session}
    (havoids : Avoids env name (fuel + 1) splicing depth line entries s) :
    entryFields (renderEntries fuel) splicing' depth line entries env s =
      entryFields (renderEntries fuel) splicing depth line entries env s := by
  induction entries generalizing s with
  | nil => rfl
  | cons entry entries ih =>
    rw [entryFields_cons, entryFields_cons]
    have htexts : entryTexts (renderEntries fuel) splicing' depth line entry env s =
        entryTexts (renderEntries fuel) splicing depth line entry env s := by
      cases hkind : entry.kind with
      | keyed key =>
        simp only [entryTexts, hkind]
        exact Eval.run_bind_congr (field_eq_of_avoids hbelow hsame hkind havoids) fun _ _ _ => rfl
      | spread =>
        simp only [entryTexts, hkind]
        exact spread_eq_of_avoids hbelow hsame hkind havoids
      | element => simp only [entryTexts, hkind]
    refine Eval.run_bind_congr htexts fun texts s' hrun => ?_
    refine Eval.run_bind_congr (ih fun v hv => ?_) fun _ _ _ => rfl
    exact havoids v (.later (htexts.symm.trans hrun) hv)

end Level

/-- **Every level**: whether a name counts as being spliced does not matter to entries that come to
no spread of it. -/
theorem renderEntries_eq_of_avoids (env : Environment) (name : String) (fuel : Nat) :
    IgnoredBelow env name fuel := by
  induction fuel with
  | zero => exact fun _ _ => rfl
  | succ fuel ih => exact fun hsame havoids => entryFields_eq_of_avoids ih hsame havoids

/-! ### In place -/

section InPlace

variable {program : Program} (hprogram : env.index.program? 0 = some program) {loc : Loc}
  {literal : List Entry} (hinit : program.declaredInit? name = some (.object loc literal))
  {splicing : List String} (hfree : name ∉ splicing) {entry : Entry} (hentry : entry.Spreads name)
  {depth : Nat} {front back : List Entry} {s : Session}

include hprogram hinit hfree hentry

theorem entryTexts_of_spreads (rec : Renderer) (line : Option Nat) (s : Session) :
    entryTexts rec splicing depth line entry env s =
      rec (name :: splicing) depth none literal env s := by
  obtain ⟨hkind, hvalue⟩ := hentry
  have hspliced : spliced? program splicing entry.value = some (name, literal) := by
    obtain ⟨nameLoc, hident⟩ := Expr.ident?_eq_some.mp hvalue
    simp [hident, spliced?, hinit, Expr.objectEntries?, hfree]
  have hrun : entryProgram env s = (.ok program, s) := by rw [run_entryProgram, hprogram]
  simp only [entryTexts, hkind]
  refine (Eval.run_bind_ok hrun).trans ?_
  rw [hspliced]

variable (havoids : ∀ texts s₁, Rendered env splicing depth none front s (.ok texts, s₁) →
  ∀ fuel, Avoids env name fuel (name :: splicing) depth none literal s₁)

include havoids

/-- Spreading by name gives what writing in place gives, with no less fuel. -/
theorem spread_agrees_in_place (fuel : Nat) :
    AgreeUnlessExhausted env
      (renderEntries (fuel + 1) splicing depth none (front ++ entry :: back))
      (renderEntries (fuel + 1) splicing depth none (front ++ (literal ++ back))) s := by
  simp only [renderEntries_append, renderEntries_cons]
  refine .bind_of_reached .refl fun texts s₁ hfront => ?_
  refine .bind (.bind_of_reached ?_ fun _ _ _ => .bind .refl fun _ _ => .refl) fun _ _ => .refl
  have hsame := renderEntries_eq_of_avoids env name fuel (sameBut_cons_self name splicing)
    (havoids texts s₁ ⟨fuel + 1, hfront, nofun⟩ fuel)
  intro hends
  rw [entryTexts_of_spreads hprogram hinit hfree hentry] at hends ⊢
  rw [← hsame] at hends ⊢
  exact renderEntries_agree fuel 1 splicing depth none literal s₁ hends

/-- Writing in place gives what spreading by name gives, with fuel for one level more. -/
theorem in_place_agrees_spread (fuel : Nat) :
    AgreeUnlessExhausted env
      (renderEntries (fuel + 1) splicing depth none (front ++ (literal ++ back)))
      (renderEntries (fuel + 1 + 1) splicing depth none (front ++ entry :: back)) s := by
  simp only [renderEntries_append, renderEntries_cons]
  refine .bind_of_reached (renderEntries_agree (fuel + 1) 1 splicing depth none front s)
    fun texts s₁ hfront => ?_
  refine .bind (.bind_of_reached ?_ fun _ s₂ _ => ?_) fun _ _ => .refl
  · intro _
    rw [entryTexts_of_spreads hprogram hinit hfree hentry]
    exact (renderEntries_eq_of_avoids env name (fuel + 1) (sameBut_cons_self name splicing)
      (havoids texts s₁ ⟨fuel + 1, hfront, nofun⟩ (fuel + 1))).symm
  · exact .bind (renderEntries_agree (fuel + 1) 1 splicing depth none back s₂) fun _ _ => .refl

end InPlace

/-- **A spread literal is as good as one that is written in place.** Let a name be bound to an object
literal, and not be spliced already. If rendering the literal comes to no spread of the name again,
then entries among which the name is spread give what they give with the entries of the literal in
the place of the spread: the same fields with the same descriptions in the same order, or the same
reason to stop, and the same session afterwards. -/
theorem spread_as_written_in_place {env : Environment} {program : Program}
    (hprogram : env.index.program? 0 = some program) {name : String} {loc : Loc}
    {literal : List Entry} (hinit : program.declaredInit? name = some (.object loc literal))
    {splicing : List String} (hfree : name ∉ splicing) (depth : Nat) (front back : List Entry)
    {entry : Entry} (hentry : entry.Spreads name) (s : Session)
    (havoids : ∀ texts s₁, Rendered env splicing depth none front s (.ok texts, s₁) →
      ∀ fuel, Avoids env name fuel (name :: splicing) depth none literal s₁)
    (result : Except Stop (List String) × Session) :
    Rendered env splicing depth none (front ++ [entry] ++ back) s result ↔
      Rendered env splicing depth none (front ++ literal ++ back) s result := by
  rw [List.append_assoc, List.append_assoc, List.singleton_append]
  constructor
  · exact Rendered.of_agree fun fuel =>
      ⟨fuel, spread_agrees_in_place hprogram hinit hfree hentry havoids fuel⟩
  · exact Rendered.of_agree fun fuel =>
      ⟨fuel + 1, in_place_agrees_spread hprogram hinit hfree hentry havoids fuel⟩

/-! ### A literal with another one inside -/

section Stamped

/-- Where the example stands, all of it. -/
def stampedLoc : Loc := ⟨0, 0, 1, 1⟩

/-- The entry of a field with the name of a type. -/
def typed (key type : String) : Entry :=
  .mk (.keyed key) (.ident stampedLoc type) stampedLoc .none

/-- The entry that spreads a name. -/
def spreadOf (name : String) : Entry :=
  .mk .spread (.ident stampedLoc name) stampedLoc .none

/-- The entries of the nested document of `stamped`. -/
def stampedBy : List Entry := [typed "name" "String", spreadOf "role"]

/-- The entries `at: Date, by: { name: String, ...role }`. -/
def stamped : List Entry :=
  [typed "at" "Date", .mk (.keyed "by") (.object stampedLoc stampedBy) stampedLoc .none]

/-- A file that declares these entries as `stamped`, and `role` as one field. -/
def stampedFile : Program :=
  ⟨"", [⟨.declare false [.mk (.ident "role") (some (.object stampedLoc [typed "role" "Number"]))],
      stampedLoc, .none⟩,
    ⟨.declare false [.mk (.ident "stamped") (some (.object stampedLoc stamped))], stampedLoc, .none⟩]⟩

/-- What the file is rendered over. -/
def stampedEnvironment : Environment :=
  ⟨⟨[⟨"model.js", .script stampedFile⟩], []⟩, .standard⟩

/-- The bodies that are rendered for the literal. -/
def stampedBodies : List Body :=
  [⟨["stamped"], stamped⟩, ⟨["stamped"], stampedBy⟩,
    ⟨["role", "stamped"], [typed "role" "Number"]⟩]

theorem mem_stampedBodies {b : Body}
    (h : ReflTransGen (Body.Calls stampedFile .standard) ⟨["stamped"], stamped⟩ b) :
    b ∈ stampedBodies := by
  induction h with
  | refl => exact List.mem_cons_self
  | tail _ hcalls ih =>
    simp only [stampedBodies, List.mem_cons, List.not_mem_nil, or_false] at ih
    rcases ih with rfl | rfl | rfl
    · obtain rfl := List.mem_singleton.mp hcalls
      simp [stampedBodies]
    · obtain rfl := List.mem_singleton.mp hcalls
      simp [stampedBodies]
    · exact absurd hcalls List.not_mem_nil

/-- A literal with a nested document into which another literal is spliced. -/
theorem stamped_spread_as_written_in_place :
    (∀ fuel s, Avoids stampedEnvironment "stamped" fuel ["stamped"] 0 none stamped s) ∧
      ∀ s result,
        Rendered stampedEnvironment [] 0 none
            ([typed "id" "Number"] ++ [spreadOf "stamped"] ++ [spreadOf "role"]) s result ↔
          Rendered stampedEnvironment [] 0 none
            ([typed "id" "Number"] ++ stamped ++ [spreadOf "role"]) s result := by
  have havoids (fuel : Nat) (s : Session) :
      Avoids stampedEnvironment "stamped" fuel ["stamped"] 0 none stamped s := by
    have hprogram : stampedEnvironment.index.program? 0 = some stampedFile := rfl
    refine avoids_of_written hprogram (fun b hb entry hentry => ?_) fuel 0 none s
    have hnone : ∀ b ∈ stampedBodies, ∀ entry ∈ b.entries, ¬entry.Spreads "stamped" := by decide
    exact hnone b (mem_stampedBodies hb) entry hentry
  exact ⟨havoids, fun s result => spread_as_written_in_place rfl rfl List.not_mem_nil 0 _ _
    ⟨rfl, rfl⟩ s (fun _ s₁ _ fuel => havoids fuel s₁) result⟩

end Stamped

end Document

end SchemaDoc
