import Mathlib.Data.Fintype.Card
import Mathlib.Data.Fintype.EquivFin
import Mathlib.Data.Fintype.Sets
import SchemaDoc.Document.Basic
import SchemaDoc.Proofs.Termination

/-!
# How fields nest

The fields of a document nest in three ways. A definition that is an object literal nests the fields
that are written in it; a constructor call nests the fields of its definition, which may be written
elsewhere, under a name; and a spread splices in the fields of the literal that a name is bound to.
Two of these leave the literal that is being rendered, so nothing that is written bounds how deeply
fields nest.

Only one of the two is harmless. A name is not spliced while it is being spliced already, so splices
nest no deeper than there are names. Nothing keeps a constructor call from naming a definition that
is being rendered. This file says what follows: the fields of a body nest without end exactly if it
leads to entries that are **nested in themselves** (`Body.deep_iff`).

What a definition nests is mostly a matter of how it is written. The exception are object literals
into which something is spread: whether that contributes a type marker, or fields that are no
options, is known only after evaluation. For these `bodies` lists what they can nest, and for all
others what they do nest.
-/

namespace SchemaDoc.Document

open Relation

/-! ### What definitions nest -/

section Bodies

variable (program : Program) (config : Config)

/-- The entries of the object literal that a name is bound to. -/
def literal? (name : String) : Option (List Entry) :=
  (program.declaredInit? name).bind Expr.objectEntries?

/-- The entries that a constructor call lists. -/
def constructed? (e : Expr) : Option (List Entry) :=
  match schemaFields program config e "" with
  | .ok entries => entries
  | .error _ => none

/-- The entries that a type marker nests. -/
def markerBodies : Expr → List (List Entry)
  | .object _ inner => [inner]
  | .array loc entries =>
    match (throughArrays arrayLimit (.array loc entries)).2 with
    | some (.object _ inner) => [inner]
    | _ => []
  | marker => (constructed? program config marker).toList

/-- The entries that an object literal nests, given its options. -/
def slotBodies (own : List Entry) (slots : List (String × Slot)) : List (List Entry) :=
  let onlyOptions := (eraseKey config.typeMarker slots).all fun (name, _) => config.isOption name
  match lookupKey? config.typeMarker slots with
  | none => if onlyOptions then [] else [own]
  | some (.node (.object _ inner)) => if onlyOptions then [inner] else [own]
  | some (.node marker) => markerBodies program config marker
  | some (.value _) => []

/-- The options after an entry that is not a spread. -/
def writeSlot (done : List (String × Slot)) (entry : Entry) : List (String × Slot) :=
  match entry.kind with
  | .keyed name => insertKey name (.node entry.value) done
  | _ => done

/-- The options of an object literal without spreads. -/
def writtenSlots (entries : List Entry) : List (String × Slot) := entries.foldl writeSlot []

/-- The type markers of an object literal. -/
def markers (entries : List Entry) : List Expr :=
  (entries.filter fun entry => entry.kind == .keyed config.typeMarker).map Entry.value

/-- Whether an entry spreads something. -/
def spreads (entry : Entry) : Bool := entry.kind == .spread

/-- The entries that an object literal nests. If it has spreads, these are the ones that it can
nest. -/
def objectBodies (entries : List Entry) : List (List Entry) :=
  if entries.any spreads then
    entries :: (markers config entries).flatMap (markerBodies program config)
  else slotBodies program config entries (writtenSlots entries)

/-- The entries that what stands inside the arrays of a definition nests. -/
def nodeBodies : Expr → List (List Entry)
  | .object _ entries => objectBodies program config entries
  | node => (constructed? program config node).toList

/-- The entries that a definition nests. -/
def bodies (definition : Expr) : List (List Entry) :=
  match (throughArrays arrayLimit definition).2 with
  | none => []
  | some node => nodeBodies program config node

/-- A definition whose nested fields do not depend on what is spread into it. -/
def WrittenOut (definition : Expr) : Prop :=
  ∀ loc entries, (throughArrays arrayLimit definition).2 = some (.object loc entries) →
    entries.any spreads = false

/-- Entries that are nested in a field of other entries. -/
def Nests (outer inner : List Entry) : Prop :=
  ∃ entry ∈ outer, (∃ key, entry.kind = .keyed key) ∧ inner ∈ bodies program config entry.value

end Bodies

/-! ### Nested entries are smaller, or have a name -/

theorem lookupKey?_insertKey {α : Type} (key key' : String) (value : α)
    (fields : List (String × α)) :
    lookupKey? key (insertKey key' value fields) =
      if key' = key then some value else lookupKey? key fields := by
  induction fields with
  | nil => simp [insertKey, lookupKey?]
  | cons field fields ih =>
    obtain ⟨k, v⟩ := field
    by_cases hk : k = key'
    · subst hk
      by_cases hkey : k = key <;> simp [insertKey, lookupKey?, hkey]
    · by_cases hkey : k = key
      · subst hkey
        simp [insertKey, lookupKey?, hk, Ne.symm hk]
      · simp [insertKey, lookupKey?, hk, hkey, ih]

theorem sizeOf_value_lt (entry : Entry) : sizeOf entry.value < sizeOf entry := by
  obtain ⟨kind, value, loc, comments⟩ := entry
  simp only [Entry.value, Entry.mk.sizeOf_spec]
  omega

theorem sizeOf_throughArrays {limit : Nat} {e node : Expr}
    (h : (throughArrays limit e).2 = some node) : sizeOf node ≤ sizeOf e := by
  fun_induction throughArrays limit e with
  | case1 e =>
    obtain rfl : e = node := Option.some.inj h
    exact Nat.le_refl _
  | case2 limit loc => exact absurd h nofun
  | case3 limit loc first entries n element heq ih =>
    have hle := ih (by rw [heq]; exact h)
    have hlt := sizeOf_value_lt first
    simp only [Expr.array.sizeOf_spec, List.cons.sizeOf_spec]
    omega
  | case4 limit e hnot =>
    obtain rfl : e = node := Option.some.inj h
    exact Nat.le_refl _

section Sizes

variable {program : Program} {config : Config}

/-- Entries that are smaller than what they are nested in, or that a name is bound to. -/
def SmallerOrNamed (program : Program) (size : Nat) (inner : List Entry) : Prop :=
  sizeOf inner < size ∨ ∃ name, literal? program name = some inner

theorem SmallerOrNamed.mono {size size' : Nat} {inner : List Entry}
    (h : SmallerOrNamed program size inner) (hle : size ≤ size') :
    SmallerOrNamed program size' inner :=
  h.imp_left fun hlt => Nat.lt_of_lt_of_le hlt hle

theorem constructed?_smaller_or_named {e : Expr} {inner : List Entry}
    (h : constructed? program config e = some inner) :
    SmallerOrNamed program (sizeOf e) inner := by
  cases e with
  | call loc constructs callee args =>
    simp only [constructed?, schemaFields] at h
    split at h
    next entries hok =>
      subst h
      split at hok
      · exact absurd hok nofun
      · cases args with
        -- A constructor without arguments lists no fields, which is not the same as no definition.
        | nil =>
          obtain rfl : [] = inner := Option.some.inj (Except.ok.inj hok)
          left
          simp only [Expr.call.sizeOf_spec, List.nil.sizeOf_spec]
          omega
        | cons definition args =>
          simp only at hok
          split at hok
          next entries hentries =>
            obtain rfl : entries = inner := Option.some.inj (Except.ok.inj hok)
            cases definition with
            | object loc' entries' =>
              obtain rfl : entries' = entries := Option.some.inj hentries
              left
              simp only [Expr.call.sizeOf_spec, List.cons.sizeOf_spec, Expr.object.sizeOf_spec]
              omega
            | ident loc' name => exact Or.inr ⟨name, hentries⟩
            | _ => exact absurd hentries nofun
          next => exact absurd hok nofun
    next => exact absurd h nofun
  | _ => exact absurd h nofun

theorem markerBodies_smaller_or_named {marker : Expr} {inner : List Entry}
    (h : inner ∈ markerBodies program config marker) :
    SmallerOrNamed program (sizeOf marker) inner := by
  unfold markerBodies at h
  split at h
  next loc entries =>
    obtain rfl := List.mem_singleton.mp h
    left
    simp only [Expr.object.sizeOf_spec]
    omega
  next loc entries =>
    split at h
    next loc' entries' hnode =>
      obtain rfl := List.mem_singleton.mp h
      have hle := sizeOf_throughArrays hnode
      left
      simp only [Expr.object.sizeOf_spec] at hle
      omega
    next => exact absurd h List.not_mem_nil
  next => exact constructed?_smaller_or_named (Option.mem_toList.mp h)

theorem mem_slotBodies {own inner : List Entry} {slots : List (String × Slot)}
    (h : inner ∈ slotBodies program config own slots) :
    inner = own ∨ ∃ marker, lookupKey? config.typeMarker slots = some (.node marker) ∧
      inner ∈ markerBodies program config marker := by
  unfold slotBodies at h
  simp only at h
  split at h
  next =>
    split at h
    · exact absurd h List.not_mem_nil
    · exact Or.inl (List.mem_singleton.mp h)
  next loc entries hmarker =>
    split at h
    · exact Or.inr ⟨_, hmarker, h⟩
    · exact Or.inl (List.mem_singleton.mp h)
  next marker _ hmarker => exact Or.inr ⟨_, hmarker, h⟩
  next => exact absurd h List.not_mem_nil

/-- Options whose type marker, if it is written, is one of the given ones. -/
def MarkerAmong (config : Config) (written : List Expr) (slots : List (String × Slot)) : Prop :=
  ∀ marker, lookupKey? config.typeMarker slots = some (.node marker) → marker ∈ written

theorem MarkerAmong.insertKey {written : List Expr} {slots : List (String × Slot)} {key : String}
    {slot : Slot} (h : MarkerAmong config written slots)
    (hslot : ∀ marker, slot = .node marker → key = config.typeMarker → marker ∈ written) :
    MarkerAmong config written (insertKey key slot slots) := by
  intro marker hmarker
  rw [lookupKey?_insertKey] at hmarker
  split at hmarker
  next hkey => exact hslot marker (Option.some.inj hmarker) hkey
  next => exact h marker hmarker

theorem mem_markers {entries : List Entry} {entry : Entry} (hmem : entry ∈ entries)
    (hkind : entry.kind = .keyed config.typeMarker) : entry.value ∈ markers config entries :=
  List.mem_map_of_mem (List.mem_filter.mpr ⟨hmem, by simp [hkind]⟩)

theorem MarkerAmong.writeSlot {entries : List Entry} {slots : List (String × Slot)} {entry : Entry}
    (h : MarkerAmong config (markers config entries) slots) (hmem : entry ∈ entries) :
    MarkerAmong config (markers config entries) (writeSlot slots entry) := by
  unfold Document.writeSlot
  split
  next name hkind =>
    refine h.insertKey fun marker hmarker hname => ?_
    obtain rfl := Slot.node.inj hmarker
    exact mem_markers hmem (hname ▸ hkind)
  next => exact h

theorem writtenSlots_markerAmong (entries : List Entry) :
    MarkerAmong config (markers config entries) (writtenSlots entries) := by
  refine List.foldlRecOn entries writeSlot (fun _ hnone => absurd hnone nofun) ?_
  intro slots hslots entry hentry
  exact hslots.writeSlot hentry

theorem mem_objectBodies {entries inner : List Entry}
    (h : inner ∈ objectBodies program config entries) :
    inner = entries ∨
      ∃ marker ∈ markers config entries, inner ∈ markerBodies program config marker := by
  unfold objectBodies at h
  split at h
  · rcases List.mem_cons.mp h with h | h
    · exact Or.inl h
    · exact Or.inr (List.mem_flatMap.mp h)
  · rcases mem_slotBodies h with h | ⟨marker, hmarker, h⟩
    · exact Or.inl h
    · exact Or.inr ⟨marker, writtenSlots_markerAmong entries marker hmarker, h⟩

theorem sizeOf_marker_lt {entries : List Entry} {marker : Expr}
    (h : marker ∈ markers config entries) : sizeOf marker < sizeOf entries := by
  obtain ⟨entry, hentry, rfl⟩ := List.mem_map.mp h
  have hmem := List.sizeOf_lt_of_mem (List.mem_of_mem_filter hentry)
  have hvalue := sizeOf_value_lt entry
  omega

theorem nodeBodies_smaller_or_named {node : Expr} {inner : List Entry}
    (h : inner ∈ nodeBodies program config node) : SmallerOrNamed program (sizeOf node) inner := by
  unfold nodeBodies at h
  split at h
  next loc entries =>
    rcases mem_objectBodies h with rfl | ⟨marker, hmarker, h⟩
    · left
      simp only [Expr.object.sizeOf_spec]
      omega
    · have hlt := sizeOf_marker_lt hmarker
      refine (markerBodies_smaller_or_named h).mono ?_
      simp only [Expr.object.sizeOf_spec]
      omega
  next => exact constructed?_smaller_or_named (Option.mem_toList.mp h)

theorem bodies_smaller_or_named {definition : Expr} {inner : List Entry}
    (h : inner ∈ bodies program config definition) :
    SmallerOrNamed program (sizeOf definition) inner := by
  unfold bodies at h
  split at h
  next => exact absurd h List.not_mem_nil
  next node hnode => exact (nodeBodies_smaller_or_named h).mono (sizeOf_throughArrays hnode)

/-- **Whatever is nested in entries is smaller, or has a name.** -/
theorem Nests.smaller_or_named {outer inner : List Entry} (h : Nests program config outer inner) :
    SmallerOrNamed program (sizeOf outer) inner := by
  obtain ⟨entry, hentry, -, hinner⟩ := h
  have hmem := List.sizeOf_lt_of_mem hentry
  have hvalue := sizeOf_value_lt entry
  exact (bodies_smaller_or_named hinner).mono (by omega)

theorem mem_names_of_literal? {name : String} {entries : List Entry}
    (h : literal? program name = some entries) : name ∈ program.names := by
  obtain ⟨init, hinit, -⟩ := Option.bind_eq_some_iff.mp h
  obtain ⟨statement, hstatement, hfound⟩ := List.exists_of_findSome?_eq_some hinit
  refine List.mem_flatMap.mpr ⟨statement, hstatement, ?_⟩
  split at hfound
  next exported ds hkind =>
    obtain ⟨d, hd, hinit⟩ := List.exists_of_findSome?_eq_some hfound
    rw [Statement.names_of_declare hkind]
    refine List.mem_flatMap.mpr ⟨d, hd, ?_⟩
    unfold Program.initOf? at hinit
    split at hinit
    next n hbinding =>
      have hn : n = name := by
        by_contra hne
        simp [hne] at hinit
      rw [hbinding]
      exact List.mem_singleton.mpr hn.symm
    next => exact absurd hinit nofun
  next => exact absurd hfound nofun

end Sizes

/-! ### Bodies -/

/-- Entries in the course of rendering, with the names that are being spliced around them. -/
structure Body where
  splicing : List String
  entries : List Entry

namespace Body

section Calls

variable (program : Program) (config : Config)

/-- The bodies that are rendered for an entry. -/
def callsOf (splicing : List String) (entry : Entry) : List Body :=
  match entry.kind with
  | .keyed _ => (bodies program config entry.value).map (Body.mk splicing)
  | .spread =>
    match spliced? program splicing entry.value with
    | some (name, entries) => [⟨name :: splicing, entries⟩]
    | none => []
  | .element => []

/-- The bodies that are rendered as part of a body, one level below it. -/
def calls (b : Body) : List Body := b.entries.flatMap (callsOf program config b.splicing)

/-- One body is rendered as part of another one, one level below it. -/
def Calls (b b' : Body) : Prop := b' ∈ b.calls program config

/-- The fields of a body nest at least so many levels deep. -/
def Deep : Nat → Body → Prop
  | 0, _ => True
  | n + 1, b => ∃ b', b.Calls program config b' ∧ Deep n b'

/-- A body that leads to entries that are nested in themselves. -/
def Endless (b : Body) : Prop :=
  ∃ b', ReflTransGen (Calls program config) b b' ∧
    TransGen (Nests program config) b'.entries b'.entries

end Calls

variable {program : Program} {config : Config}

theorem calls_of_nests {outer inner : List Entry} (splicing : List String)
    (h : Nests program config outer inner) :
    Calls program config ⟨splicing, outer⟩ ⟨splicing, inner⟩ := by
  obtain ⟨entry, hentry, ⟨key, hkind⟩, hinner⟩ := h
  refine List.mem_flatMap.mpr ⟨entry, hentry, ?_⟩
  simp only [callsOf, hkind]
  exact List.mem_map_of_mem hinner

theorem of_spliced? {splicing : List String} {e : Expr} {name : String} {entries : List Entry}
    (h : spliced? program splicing e = some (name, entries)) :
    name ∈ program.names ∧ name ∉ splicing := by
  unfold spliced? at h
  split at h
  next loc n =>
    split at h
    next found hfound =>
      split at h
      · exact absurd h nofun
      next hnew =>
        obtain ⟨rfl, rfl⟩ := Prod.ext_iff.mp (Option.some.inj h)
        exact ⟨mem_names_of_literal? hfound, by simpa using hnew⟩
    next => exact absurd h nofun
  next => exact absurd h nofun

/-- A level below, either the same names are being spliced, or one more. -/
theorem Calls.cases {b b' : Body} (h : Calls program config b b') :
    (b'.splicing = b.splicing ∧ Nests program config b.entries b'.entries) ∨
      ∃ name ∈ program.names, name ∉ b.splicing ∧ b'.splicing = name :: b.splicing := by
  obtain ⟨entry, hentry, hb'⟩ := List.mem_flatMap.mp h
  unfold callsOf at hb'
  split at hb'
  next key hkind =>
    obtain ⟨inner, hinner, rfl⟩ := List.mem_map.mp hb'
    exact Or.inl ⟨rfl, entry, hentry, ⟨key, hkind⟩, hinner⟩
  next =>
    split at hb'
    next name entries hspliced =>
      obtain rfl := List.mem_singleton.mp hb'
      obtain ⟨hname, hnew⟩ := of_spliced? hspliced
      exact Or.inr ⟨name, hname, hnew, rfl⟩
    next => exact absurd hb' List.not_mem_nil
  next => exact absurd hb' List.not_mem_nil

/-! ### Depth -/

theorem Deep.of_succ {n : Nat} {b : Body} (h : Deep program config (n + 1) b) :
    Deep program config n b := by
  induction n generalizing b with
  | zero => trivial
  | succ n ih =>
    obtain ⟨b', hcalls, hdeep⟩ := h
    exact ⟨b', hcalls, ih hdeep⟩

theorem Deep.mono {m n : Nat} {b : Body} (h : Deep program config n b) (hle : m ≤ n) :
    Deep program config m b := by
  induction hle with
  | refl => exact h
  | step _ ih => exact ih h.of_succ

/-- There is one bound for finitely many bodies. -/
theorem exists_not_deep_of_forall {bs : List Body}
    (h : ∀ b ∈ bs, ∃ n, ¬Deep program config n b) : ∃ n, ∀ b ∈ bs, ¬Deep program config n b := by
  induction bs with
  | nil => exact ⟨0, fun _ hb => absurd hb List.not_mem_nil⟩
  | cons b bs ih =>
    obtain ⟨m, hm⟩ := h b List.mem_cons_self
    obtain ⟨n, hn⟩ := ih fun b' hb' => h b' (List.mem_cons_of_mem b hb')
    refine ⟨max m n, fun b' hb' hdeep => ?_⟩
    rcases List.mem_cons.mp hb' with rfl | hb'
    · exact hm (hdeep.mono (Nat.le_max_left m n))
    · exact hn b' hb' (hdeep.mono (Nat.le_max_right m n))

theorem exists_not_deep_of_acc {b : Body}
    (h : Acc (fun b' b => Calls program config b b') b) : ∃ n, ¬Deep program config n b := by
  induction h with
  | intro b _ ih =>
    obtain ⟨n, hn⟩ := exists_not_deep_of_forall ih
    refine ⟨n + 1, ?_⟩
    rintro ⟨b', hcalls, hdeep⟩
    exact hn b' hcalls hdeep

theorem deep_of_cycle {cycle : List Entry} (hcycle : TransGen (Nests program config) cycle cycle)
    (splicing : List String) (n : Nat) {entries : List Entry}
    (h : ReflTransGen (Nests program config) entries cycle) :
    Deep program config n ⟨splicing, entries⟩ := by
  induction n generalizing entries with
  | zero => trivial
  | succ n ih =>
    -- There is a next step: towards the cycle, or along it once it is reached.
    obtain ⟨inner, hstep, hrest⟩ : ∃ inner, Nests program config entries inner ∧
        ReflTransGen (Nests program config) inner cycle := by
      rcases h.cases_head with rfl | h
      · exact TransGen.head'_iff.mp hcycle
      · exact h
    exact ⟨_, calls_of_nests splicing hstep, ih hrest⟩

theorem Endless.deep {b : Body} (h : b.Endless program config) (n : Nat) :
    Deep program config n b := by
  obtain ⟨b', hpath, hcycle⟩ := h
  induction hpath using ReflTransGen.head_induction_on generalizing n with
  | refl => exact deep_of_cycle hcycle b'.splicing n .refl
  | head hcalls _ ih => exact Deep.of_succ ⟨_, hcalls, ih n⟩

/-! ### Only a cycle has no end -/

/-- What ends below every level: no chain of calls goes on for ever. -/
def Ends (program : Program) (config : Config) (b : Body) : Prop :=
  Acc (fun b' b => Calls program config b b') b

/-- How many names are left to be spliced. -/
def unspliced (program : Program) (b : Body) : Nat :=
  (program.names.toFinset \ b.splicing.toFinset).card

theorem reaches_of_nests (splicing : List String) {root entries : List Entry}
    (h : ReflTransGen (Nests program config) root entries) :
    ReflTransGen (Calls program config) ⟨splicing, root⟩ ⟨splicing, entries⟩ :=
  h.lift (Body.mk splicing) fun _ _ => calls_of_nests splicing

theorem not_endless_of_reaches {b b' : Body} (h : ¬b.Endless program config)
    (hpath : ReflTransGen (Calls program config) b b') : ¬b'.Endless program config := by
  rintro ⟨cycle, hcycle, hnested⟩
  exact h ⟨cycle, hpath.trans hcycle, hnested⟩

/-- The entries below a root end if the names that it leads to do, and whatever is spliced. -/
theorem ends_below {splicing : List String} {root : List Entry}
    (hspliced : ∀ b', ReflTransGen (Calls program config) ⟨splicing, root⟩ b' →
      b'.unspliced program < unspliced program ⟨splicing, root⟩ → b'.Ends program config)
    (hnamed : ∀ name entries, literal? program name = some entries →
      TransGen (Nests program config) root entries → Ends program config ⟨splicing, entries⟩)
    {entries : List Entry} (h : ReflTransGen (Nests program config) root entries) :
    Ends program config ⟨splicing, entries⟩ := by
  induction hsize : sizeOf entries using Nat.strong_induction_on generalizing entries with
  | _ size ih =>
    refine Acc.intro _ fun b' hcalls => ?_
    rcases hcalls.cases with ⟨hsame, hnests⟩ | ⟨name, hname, hnew, hmore⟩
    -- A field: what it nests is smaller, or leaves the literal for one that has a name.
    · obtain ⟨splicing', inner⟩ := b'
      obtain rfl : splicing' = splicing := hsame
      rcases hnests.smaller_or_named with hlt | ⟨name, hname⟩
      · exact ih (sizeOf inner) (hsize ▸ hlt) (h.tail hnests) rfl
      · exact hnamed name inner hname (TransGen.tail' h hnests)
    -- A splice takes a name, and there is one less left.
    · refine hspliced b' ((reaches_of_nests splicing h).tail hcalls) ?_
      rw [unspliced, hmore]
      exact card_sdiff_cons_lt (List.mem_toFinset.mpr hname) hnew

/-- One name leads to another one: the fields of the second one are nested in those of the first one,
which are not nested in themselves. -/
def Leads (program : Program) (config : Config) (name name' : {n // n ∈ program.names}) :
    Prop :=
  ∃ entries entries', literal? program name = some entries ∧
    literal? program name' = some entries' ∧ TransGen (Nests program config) entries entries' ∧
    ¬TransGen (Nests program config) entries entries

/-- There are only finitely many names, so leading from one to the next comes to an end. -/
theorem leads_wellFounded (program : Program) (config : Config) :
    WellFounded fun name' name => Leads program config name name' := by
  have htrans : IsTrans _ fun name' name => Leads program config name name' := by
    refine ⟨fun c b a hcb hba => ?_⟩
    obtain ⟨entries, entries', h, h', hnests, hnot⟩ := hba
    obtain ⟨_, entries'', h₁, h'', hnests', -⟩ := hcb
    obtain rfl := Option.some.inj (h'.symm.trans h₁)
    exact ⟨entries, entries'', h, h'', hnests.trans hnests', hnot⟩
  have hirrefl : Std.Irrefl fun name' name => Leads program config name name' := by
    refine ⟨fun a h => ?_⟩
    obtain ⟨entries, entries', h, h', hnests, hnot⟩ := h
    obtain rfl := Option.some.inj (h.symm.trans h')
    exact hnot hnests
  exact Finite.wellFounded_of_trans_of_irrefl _

/-- **What leads to nothing that is nested in itself ends.** The induction is on the names that are
left to be spliced; while none is spliced, on the names that lead to each other; and inside a literal
on its size. -/
theorem ends_of_not_endless {b : Body} (h : ¬b.Endless program config) :
    b.Ends program config := by
  induction hleft : b.unspliced program using Nat.strong_induction_on generalizing b with
  | _ left ih =>
    obtain ⟨splicing, root⟩ := b
    have hspliced {root : List Entry} (h : ¬Endless program config ⟨splicing, root⟩)
        (b' : Body) (hpath : ReflTransGen (Calls program config) ⟨splicing, root⟩ b')
        (hlt : b'.unspliced program < unspliced program ⟨splicing, root⟩) :
        b'.Ends program config :=
      ih _ (hleft ▸ hlt) (not_endless_of_reaches h hpath) rfl
    have hnamed (name : {n // n ∈ program.names}) : ∀ entries,
        literal? program name = some entries → ¬Endless program config ⟨splicing, entries⟩ →
        Ends program config ⟨splicing, entries⟩ := by
      induction name using (leads_wellFounded program config).induction with
      | _ name ihname =>
        intro entries hentries hends
        refine ends_below (hspliced hends) (fun name' entries' hname' hnests => ?_) .refl
        -- Only a name that does not lead back to itself leads to another one.
        have hcycle : ¬TransGen (Nests program config) entries entries := fun hcycle =>
          hends ⟨_, .refl, hcycle⟩
        exact ihname ⟨name', mem_names_of_literal? hname'⟩
          ⟨entries, entries', hentries, hname', hnests, hcycle⟩ entries' hname'
          (not_endless_of_reaches hends (reaches_of_nests splicing hnests.to_reflTransGen))
    refine ends_below (hspliced h) (fun name entries hname hnests => ?_) .refl
    exact hnamed ⟨name, mem_names_of_literal? hname⟩ entries hname
      (not_endless_of_reaches h (reaches_of_nests splicing hnests.to_reflTransGen))

/-- **The fields of a body nest without end exactly if it leads to entries that are nested in
themselves.** -/
theorem deep_iff {b : Body} : (∀ n, Deep program config n b) ↔ b.Endless program config := by
  constructor
  · intro hdeep
    by_contra hnot
    obtain ⟨n, hn⟩ := exists_not_deep_of_acc (ends_of_not_endless hnot)
    exact hn (hdeep n)
  · exact Endless.deep

end Body

end SchemaDoc.Document
