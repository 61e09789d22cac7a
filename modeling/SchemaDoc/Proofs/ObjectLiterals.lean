import SchemaDoc.Proofs.Definitions

/-!
# What an object literal means

An object literal is evaluated entry by entry, and every entry may add fields or replace the values
of fields that are already there, a spread many of them at once. In the end each key has one place
and one value, and these need not come from the same entry: the place is that of the first entry
that supplies the key, the value that of the last one.

The loop is opened once: the values of the entries are found one after the other (`InTurn`), and the
fields are all that they supply, put together in this order (`exists_inTurn_of_object`). What is
left is a fact about putting fields together, `keys_merge` for the places and `lookupKey?_merge` for
the values.
-/

namespace SchemaDoc

open Evaluate
open Document (lookupKey?_insertKey lookupKey?_eq_none_iff)

/-! ### Fields put into fields -/

section Fields

variable {α : Type}

theorem keys_insertKey (key : String) (value : α) (fields : List (String × α)) :
    (insertKey key value fields).map Prod.fst =
      if key ∈ fields.map Prod.fst then fields.map Prod.fst else fields.map Prod.fst ++ [key] := by
  induction fields with
  | nil => rfl
  | cons field fields ih =>
    by_cases hkey : field.1 = key
    · simp [insertKey, hkey]
    · simp only [insertKey, beq_iff_eq, hkey, if_false, List.map_cons, ih, List.mem_cons,
        Ne.symm hkey, false_or]
      split <;> rfl

theorem nodup_keys_insertKey {fields : List (String × α)} (h : (fields.map Prod.fst).Nodup)
    (key : String) (value : α) : ((insertKey key value fields).map Prod.fst).Nodup := by
  rw [keys_insertKey]
  split
  next => exact h
  next hnew => exact List.nodup_append.mpr ⟨h, List.nodup_singleton key, by grind⟩

theorem lookupKey?_append (key : String) (fields more : List (String × α)) :
    lookupKey? key (fields ++ more) = (lookupKey? key fields).or (lookupKey? key more) := by
  induction fields with
  | nil => rfl
  | cons field fields ih =>
    rw [List.cons_append, lookupKey?, lookupKey?, ih]
    split <;> rfl

end Fields

theorem nodup_keys_merge {fields : List (String × Value)} (h : (fields.map Prod.fst).Nodup)
    (more : List (String × Value)) : ((merge fields more).map Prod.fst).Nodup := by
  induction more generalizing fields with
  | nil => exact h
  | cons field more ih => exact ih (nodup_keys_insertKey h field.1 field.2)

/-- **Places**: a key stays where it was put first. -/
theorem keys_merge {fields : List (String × Value)} {keys : List String}
    (h : fields.map Prod.fst = keys.eraseDups) (more : List (String × Value)) :
    (merge fields more).map Prod.fst = (keys ++ more.map Prod.fst).eraseDups := by
  induction more generalizing fields keys with
  | nil => rw [List.map_nil, List.append_nil]; exact h
  | cons field more ih =>
    have hstep : (insertKey field.1 field.2 fields).map Prod.fst =
        (keys ++ [field.1]).eraseDups := by
      rw [keys_insertKey, h, List.eraseDups_append]
      by_cases hkey : field.1 ∈ keys <;> simp [List.removeAll, List.eraseDups_cons, hkey]
    rw [List.map_cons, List.append_cons]
    exact ih hstep

/-- **Values**: the last one that was put under a key is there. -/
theorem lookupKey?_merge (key : String) (fields more : List (String × Value)) :
    lookupKey? key (merge fields more) =
      (lookupKey? key more.reverse).or (lookupKey? key fields) := by
  induction more generalizing fields with
  | nil => rfl
  | cons field more ih =>
    have hstep : merge fields (field :: more) = merge (insertKey field.1 field.2 fields) more := rfl
    rw [hstep, ih, lookupKey?_insertKey, List.reverse_cons, lookupKey?_append, Option.or_assoc]
    congr 1
    rw [lookupKey?, lookupKey?]
    by_cases hkey : field.1 = key <;> simp [hkey]

/-! ### What entries supply -/

/-- **What an entry of an object literal supplies**: a keyed one its value under its key, and a
spread the fields of a mapping, or the items of a list under their indices. A spread of anything
else supplies nothing. -/
def Entry.supplied (entry : Entry) (v : Value) : List (String × Value) :=
  match entry.kind, v with
  | .keyed key, v => [(key, v)]
  | .spread, .map fields => fields
  | .spread, .list items => items.zipIdx.map fun (item, i) => (toString i, item)
  | _, _ => []

/-- An entry supplies a key. -/
def Entry.Supplies (entry : Entry) (v : Value) (key : String) : Prop :=
  key ∈ (entry.supplied v).map Prod.fst

/-- All that entries supply, each with its value, one after the other. -/
def supplied (read : List (Entry × Value)) : List (String × Value) :=
  read.flatMap fun (entry, v) => entry.supplied v

/-- The last entry that supplies a key supplies a value under it. -/
def LastSupplied (read : List (Entry × Value)) (key : String) (value : Value) : Prop :=
  ∃ before entry v after, read = before ++ (entry, v) :: after ∧
    lookupKey? key (entry.supplied v).reverse = some value ∧
    ∀ later ∈ after, ¬later.1.Supplies later.2 key

theorem supplies_iff {read : List (Entry × Value)} {key : String} :
    key ∈ (supplied read).map Prod.fst ↔ ∃ pair ∈ read, pair.1.Supplies pair.2 key := by
  simp only [supplied, List.map_flatMap, List.mem_flatMap, Entry.Supplies]

theorem lastSupplied_cons {entry : Entry} {v : Value} {read : List (Entry × Value)} {key : String}
    {value : Value} : LastSupplied ((entry, v) :: read) key value ↔
      LastSupplied read key value ∨ lookupKey? key (entry.supplied v).reverse = some value ∧
        ∀ later ∈ read, ¬later.1.Supplies later.2 key := by
  constructor
  · rintro ⟨before, other, w, after, hread, hvalue, hlast⟩
    cases before with
    | nil =>
      cases hread
      exact .inr ⟨hvalue, hlast⟩
    | cons first before =>
      cases hread
      exact .inl ⟨before, other, w, after, rfl, hvalue, hlast⟩
  · rintro (⟨before, other, w, after, rfl, hvalue, hlast⟩ | ⟨hvalue, hlast⟩)
    · exact ⟨(entry, v) :: before, other, w, after, rfl, hvalue, hlast⟩
    · exact ⟨[], entry, v, read, rfl, hvalue, hlast⟩

/-- Looking from behind, one comes upon the last entry first. -/
theorem lookupKey?_supplied_iff {read : List (Entry × Value)} {key : String} {value : Value} :
    lookupKey? key (supplied read).reverse = some value ↔ LastSupplied read key value := by
  induction read with
  | nil => simp [supplied, lookupKey?, LastSupplied]
  | cons pair read ih =>
    obtain ⟨entry, v⟩ := pair
    have hnone : lookupKey? key (supplied read).reverse = none ↔
        ∀ later ∈ read, ¬later.1.Supplies later.2 key := by
      rw [lookupKey?_eq_none_iff, List.map_reverse, List.mem_reverse, supplies_iff]
      push Not
      rfl
    have hsplit : (supplied ((entry, v) :: read)).reverse =
        (supplied read).reverse ++ (entry.supplied v).reverse := List.reverse_append
    rw [hsplit, lookupKey?_append, Option.or_eq_some_iff, ih, hnone, lastSupplied_cons, and_comm]

/-! ### One entry after the other -/

section Evaluation

variable (enter : Evaluator Session) (env : Environment) (m : ModuleId) (scope : Scope)

/-- An unknown value that is spread is reported. -/
def noteSpread (entry : Entry) (v : Value) : Eval Unit :=
  match entry.kind, v with
  | .spread, .unknown => warnAt m entry.loc "spread of an unresolved value is ignored"
  | _, _ => return

/-- **Entries are evaluated in turn**, each to the value beside it. -/
inductive InTurn : Session → List (Entry × Value) → Session → Prop
  | nil {s : Session} : InTurn s [] s
  | cons {s s₁ s₂ s₃ : Session} {entry : Entry} {v : Value} {read : List (Entry × Value)}
    (value : expression enter m scope entry.value env s = (.ok v, s₁))
    (note : noteSpread m entry v env s₁ = (.ok (), s₂)) (rest : InTurn s₂ read s₃) :
    InTurn s ((entry, v) :: read) s₃

variable {enter env m scope}

/-- The value of an entry is found when those before it have been. -/
theorem InTurn.value_at {s s' : Session} {before after : List (Entry × Value)} {entry : Entry}
    {v : Value} (h : InTurn enter env m scope s (before ++ (entry, v) :: after) s') :
    ∃ t t', InTurn enter env m scope s before t ∧
      expression enter m scope entry.value env t = (.ok v, t') := by
  induction before generalizing s with
  | nil =>
    cases h with
    | cons value note rest => exact ⟨s, _, .nil, value⟩
  | cons first before ih =>
    cases h with
    | cons value note rest =>
      obtain ⟨t, t', hbefore, hvalue⟩ := ih rest
      exact ⟨t, t', .cons value note hbefore, hvalue⟩

theorem indexed_eq (i : Nat) (items : List Value) :
    indexed i items = (items.zipIdx i).map fun (item, i) => (toString i, item) := by
  induction items generalizing i with
  | nil => rfl
  | cons item items ih => rw [indexed, ih]; rfl

theorem spreadFields_eq {entry : Entry} (hkind : entry.kind = .spread)
    (fields : List (String × Value)) (v : Value) :
    (spreadFields m entry.loc fields v : Eval _) = do
      noteSpread m entry v
      return merge fields (entry.supplied v) := by
  cases v <;> simp only [spreadFields, noteSpread, Entry.supplied, hkind, indexed_eq] <;> rfl

/-- **The fields of an object literal** are all that its entries supply, put together in turn. -/
theorem exists_inTurn_of_object {entries : List Entry}
    (hkinds : ∀ entry ∈ entries, entry.kind ≠ .element) {fields result : List (String × Value)}
    {s s' : Session} (hrun : object enter m scope fields entries env s = (.ok result, s')) :
    ∃ read, read.map Prod.fst = entries ∧ InTurn enter env m scope s read s' ∧
      result = merge fields (supplied read) := by
  induction entries generalizing fields s with
  | nil =>
    cases hrun
    exact ⟨[], rfl, .nil, rfl⟩
  | cons entry entries ih =>
    obtain ⟨hkind, hkinds⟩ := List.forall_mem_cons.mp hkinds
    -- What one entry does is the same for both kinds; then the rest goes on from there.
    obtain ⟨v, s₁, s₂, hvalue, hnote, hrest⟩ : ∃ v s₁ s₂,
        expression enter m scope entry.value env s = (.ok v, s₁) ∧
          noteSpread m entry v env s₁ = (.ok (), s₂) ∧
          object enter m scope (merge fields (entry.supplied v)) entries env s₂ =
            (.ok result, s') := by
      obtain ⟨kind, e, loc, comments⟩ := entry
      cases kind with
      | keyed key =>
        rw [object] at hrun
        obtain ⟨v, s₁, hvalue, hrest⟩ := Eval.exists_of_run_bind_ok hrun
        exact ⟨v, s₁, s₁, hvalue, rfl, hrest⟩
      | spread =>
        rw [object] at hrun
        obtain ⟨v, s₁, hvalue, hrest⟩ := Eval.exists_of_run_bind_ok hrun
        obtain ⟨fields', s₂, hspread, hrest⟩ := Eval.exists_of_run_bind_ok hrest
        have heq := @spreadFields_eq m (.mk .spread e loc comments) rfl fields v
        rw [show spreadFields m loc fields v = _ from heq] at hspread
        obtain ⟨⟨⟩, s₃, hnote, hfields⟩ := Eval.exists_of_run_bind_ok hspread
        cases hfields
        exact ⟨v, s₁, s₂, hvalue, hnote, hrest⟩
      | element => exact absurd rfl hkind
    obtain ⟨read, hread, hturn, hresult⟩ := ih hkinds hrest
    refine ⟨(entry, v) :: read, congrArg _ hread, .cons hvalue hnote hturn, ?_⟩
    rw [hresult]
    exact List.foldl_append.symm

/-! ### Entries that are written under a key -/

theorem entryValue?_eq_none_iff {key : String} {entries : List Entry} :
    entryValue? key entries = none ↔ ∀ entry ∈ entries, entry.key? ≠ some key := by
  simp [entryValue?]

theorem entryValue?_of_last {key : String} {before after : List Entry} {entry : Entry}
    (hkey : entry.key? = some key) (hlast : ∀ later ∈ after, later.key? ≠ some key) :
    entryValue? key (before ++ entry :: after) = some entry.value := by
  have hafter : after.reverse.find? (·.key? == some key) = none := by
    simpa using hlast
  simp [entryValue?, hafter, hkey]

/-- An entry that is no spread supplies nothing but its value under its key. -/
theorem Entry.supplied_eq {entry : Entry} (hkind : entry.kind ≠ .spread) (v : Value) :
    entry.supplied v = (entry.key?.map (·, v)).toList := by
  unfold Entry.supplied Entry.key?
  cases h : entry.kind with
  | keyed key => rfl
  | spread => exact absurd h hkind
  | element => rfl

theorem Entry.supplies_iff_key? {entry : Entry} (hkind : entry.kind ≠ .spread) {v : Value}
    {key : String} : entry.Supplies v key ↔ entry.key? = some key := by
  rw [Entry.Supplies, Entry.supplied_eq hkind]
  simp

/-- Without spreads, the last entry that supplies a key is the last one that is written under it. -/
theorem LastSupplied.entryValue? {read : List (Entry × Value)}
    (hnospread : ∀ pair ∈ read, pair.1.kind ≠ .spread) {key : String} {value : Value}
    (h : LastSupplied read key value) :
    ∃ before entry after, read = before ++ (entry, value) :: after ∧
      entryValue? key (read.map Prod.fst) = some entry.value := by
  obtain ⟨before, entry, v, after, rfl, hvalue, hlast⟩ := h
  have hkind : entry.kind ≠ .spread := hnospread (entry, v) (by simp)
  obtain ⟨hkey, rfl⟩ : entry.key? = some key ∧ v = value := by
    rw [Entry.supplied_eq hkind] at hvalue
    cases hkey : entry.key? with
    | none => simp [hkey, lookupKey?] at hvalue
    | some other => simpa [hkey, lookupKey?] using hvalue
  refine ⟨before, entry, after, rfl, ?_⟩
  rw [List.map_append, List.map_cons]
  refine entryValue?_of_last hkey fun later hlater hsame => ?_
  obtain ⟨pair, hpair, rfl⟩ := List.mem_map.mp hlater
  exact hlast pair hpair ((Entry.supplies_iff_key? (hnospread pair (by simp [hpair]))).mpr hsame)

/-- **First places, last values.** If an object literal of keyed entries and spreads has a value,
then the entries have values, found in turn, and the literal is a mapping with distinct keys. A key
is in it if some entry supplies it; its value is the one that the last such entry supplies, and its
place is that of the first. Without spreads, the value under a key is that of the last expression
that is written under it. -/
theorem object_literal_has_first_places_and_last_values {loc : Loc} {entries : List Entry}
    (hkinds : ∀ entry ∈ entries, entry.kind ≠ .element) {s s' : Session} {v : Value}
    (hrun : expression enter m scope (.object loc entries) env s = (.ok v, s')) :
    ∃ read fields, v = .map fields ∧ read.map Prod.fst = entries ∧
      InTurn enter env m scope s read s' ∧
      (fields.map Prod.fst).Nodup ∧
      (∀ key, key ∈ fields.map Prod.fst ↔ ∃ pair ∈ read, pair.1.Supplies pair.2 key) ∧
      (∀ key value, lookupKey? key fields = some value ↔ LastSupplied read key value) ∧
      fields.map Prod.fst = ((supplied read).map Prod.fst).eraseDups ∧
      ((∀ entry ∈ entries, entry.kind ≠ .spread) → ∀ key,
        (entryValue? key entries = none ↔ key ∉ fields.map Prod.fst) ∧
        ∀ e, entryValue? key entries = some e → ∃ before entry value after t t',
          read = before ++ (entry, value) :: after ∧ entry.value = e ∧
            InTurn enter env m scope s before t ∧
            expression enter m scope e env t = (.ok value, t') ∧
            lookupKey? key fields = some value) := by
  rw [expression] at hrun
  obtain ⟨fields, s₁, hobject, hrun⟩ := Eval.exists_of_run_bind_ok hrun
  cases hrun
  obtain ⟨read, rfl, hturn, rfl⟩ := exists_inTurn_of_object hkinds hobject
  have hplaces : (merge [] (supplied read)).map Prod.fst =
      ((supplied read).map Prod.fst).eraseDups := @keys_merge [] [] rfl (supplied read)
  have hpresent (key : String) : key ∈ (merge [] (supplied read)).map Prod.fst ↔
      ∃ pair ∈ read, pair.1.Supplies pair.2 key := by
    rw [hplaces, List.mem_eraseDups, supplies_iff]
  have hvalues (key : String) (value : Value) :
      lookupKey? key (merge [] (supplied read)) = some value ↔ LastSupplied read key value := by
    rw [lookupKey?_merge, ← lookupKey?_supplied_iff]
    simp [lookupKey?]
  refine ⟨read, _, rfl, rfl, hturn, @nodup_keys_merge [] List.nodup_nil _, hpresent, hvalues,
    hplaces, fun hnospread key => ?_⟩
  have hnospread : ∀ pair ∈ read, pair.1.kind ≠ .spread := fun pair hpair =>
    hnospread _ (List.mem_map_of_mem hpair)
  have hnone : entryValue? key (read.map Prod.fst) = none ↔
      key ∉ (merge [] (supplied read)).map Prod.fst := by
    rw [hpresent, entryValue?_eq_none_iff, List.forall_mem_map]
    push Not
    exact forall₂_congr fun pair hpair =>
      not_congr (Entry.supplies_iff_key? (hnospread pair hpair)).symm
  refine ⟨hnone, fun e he => ?_⟩
  cases hlookup : lookupKey? key (merge [] (supplied read)) with
  | none => rw [hnone.mpr (lookupKey?_eq_none_iff.mp hlookup)] at he; cases he
  | some value =>
    obtain ⟨before, entry, after, hread, hentry⟩ :=
      ((hvalues key value).mp hlookup).entryValue? hnospread
    obtain rfl := Option.some.inj (hentry.symm.trans he)
    obtain ⟨t, t', hbefore, hvalue⟩ := (hread ▸ hturn : InTurn enter env m scope s
      (before ++ (entry, value) :: after) s').value_at
    exact ⟨before, entry, value, after, t, t', hread, rfl, hbefore, hvalue, rfl⟩

end Evaluation

/-- Two spreads between two entries whose keys one of them supplies as well. -/
theorem overrides_around_spreads :
    let loc : Loc := ⟨0, 0, 1, 1⟩
    let text (s : String) : Expr := .lit loc (.string s)
    let keyed (key : String) (e : Expr) : Entry := .mk (.keyed key) e loc .none
    let spread (e : Expr) : Entry := .mk .spread e loc .none
    let entries : List Entry :=
      [keyed "b" (text "zero"),
        spread (.object loc [keyed "a" (text "one"), keyed "b" (text "two")]),
        spread (.array loc [.mk .element (text "first") loc .none]), spread (text "nothing"),
        keyed "a" (text "last")]
    let fields : List (String × Value) :=
      [("b", .str "two"), ("a", .str "last"), ("0", .str "first")]
    let env : Environment := ⟨⟨[], []⟩, .standard⟩
    let s : Session := .start (.empty true)
    (∀ entry ∈ entries, entry.kind ≠ .element) ∧
      expression (evaluate 0) 0 none (.object loc entries) env s = (.ok (.map fields), s) ∧
      ∃ read, read.map Prod.fst = entries ∧ InTurn (evaluate 0) env 0 none s read s ∧
        LastSupplied read "b" (.str "two") ∧ LastSupplied read "a" (.str "last") ∧
        ["b", "a", "0"] = ((supplied read).map Prod.fst).eraseDups := by
  intro loc text keyed spread entries fields env s
  have hkinds : ∀ entry ∈ entries, entry.kind ≠ .element := by decide
  have hrun : expression (evaluate 0) 0 none (.object loc entries) env s = (.ok (.map fields), s) :=
    rfl
  obtain ⟨read, found, hfound, hread, hturn, -, -, hvalues, hplaces, -⟩ :=
    object_literal_has_first_places_and_last_values hkinds hrun
  obtain rfl := Value.map.inj hfound
  exact ⟨hkinds, hrun, read, hread, hturn, (hvalues "b" _).mp rfl, (hvalues "a" _).mp rfl, hplaces⟩

end SchemaDoc
