import Mathlib.Data.List.Forall2
import SchemaDoc.Proofs.Discipline
import SchemaDoc.Value.Printer

/-!
# Similar values

Two evaluations of the same expression need not give equal values: a function is a closure, and the
frame that its scope names has whatever number it got when it was created. What the numbers stand
for can be the same nevertheless. This file says what that means, for values and for frames.

* Two values are **similar** if they only differ in the scopes of the functions in them, and the
  frames that these name are paired. `Value.erase` forgets the scopes; nothing that operators or the
  printer see of a value depends on them.
* Paired frames **match** if they bind the same names to similar values, inside scopes that are
  paired again. Then a name is bound in both of two paired scopes or in none, and to similar values
  (`Frames.Match.lookup?`).

The modules that functions belong to are restricted by a predicate on the way, since two evaluations
are compared inside a part of an index.
-/

namespace SchemaDoc

/-! ### Fields -/

/-- Fields with the same keys, and related values. -/
abbrev FieldsRel {α β : Type} (r : α → β → Prop) : List (String × α) → List (String × β) → Prop :=
  List.Forall₂ fun p q => p.1 = q.1 ∧ r p.2 q.2

namespace FieldsRel

variable {α β : Type} {r : α → β → Prop} {fields : List (String × α)}
  {fields' : List (String × β)}

theorem insertKey (h : FieldsRel r fields fields') (key : String) {a : α} {b : β} (hab : r a b) :
    FieldsRel r (insertKey key a fields) (insertKey key b fields') := by
  induction h with
  | nil => exact .cons ⟨rfl, hab⟩ .nil
  | @cons p q fields fields' hpq htail ih =>
    obtain ⟨k, v⟩ := p
    obtain ⟨k', v'⟩ := q
    obtain ⟨rfl, hv⟩ := hpq
    simp only [SchemaDoc.insertKey]
    split
    · exact .cons ⟨rfl, hab⟩ htail
    · exact .cons ⟨rfl, hv⟩ ih

theorem lookupKey? (h : FieldsRel r fields fields') (key : String) :
    Option.Rel r (lookupKey? key fields) (lookupKey? key fields') := by
  induction h with
  | nil => exact .none
  | @cons p q fields fields' hpq htail ih =>
    obtain ⟨k, v⟩ := p
    obtain ⟨k', v'⟩ := q
    obtain ⟨rfl, hv⟩ := hpq
    simp only [SchemaDoc.lookupKey?]
    split
    · exact .some hv
    · exact ih

end FieldsRel

namespace Value

/-! ### Values without their scopes -/

mutual
/-- A value with all functions in it moved to the top level. -/
def erase : Value → Value
  | null => null
  | bool b => bool b
  | num x => num x
  | str s => str s
  | bigint digits => bigint digits
  | typeLabel name => typeLabel name
  | map fields => map (eraseFields fields)
  | list items => list (eraseItems items)
  | pattern source flags => pattern source flags
  | function f m _ => function f m none
  | native name => native name
  | unknown => unknown

/-- The items of a list without the scopes in them. -/
def eraseItems : List Value → List Value
  | [] => []
  | item :: items => erase item :: eraseItems items

/-- The fields of a mapping without the scopes in them. -/
def eraseFields : List (String × Value) → List (String × Value)
  | [] => []
  | (key, field) :: fields => (key, erase field) :: eraseFields fields
end

theorem eraseItems_eq_map (items : List Value) : eraseItems items = items.map erase := by
  induction items with
  | nil => rfl
  | cons item items ih => rw [eraseItems, ih, List.map_cons]

theorem eraseFields_eq_map (fields : List (String × Value)) :
    eraseFields fields = fields.map fun p => (p.1, p.2.erase) := by
  induction fields with
  | nil => rfl
  | cons p fields ih => rw [eraseFields, ih, List.map_cons]

/-! What operators and the printer see of a value is the same without the scopes. -/

mutual
theorem text?_erase : (v : Value) → v.erase.text? = v.text?
  | null => rfl
  | bool _ => rfl
  | num _ => rfl
  | str _ => rfl
  | bigint _ => rfl
  | typeLabel _ => rfl
  | map _ => rfl
  | list items => congrArg (Option.map (",".intercalate ·)) (texts?_eraseItems items)
  | pattern _ _ => rfl
  | function _ _ _ => rfl
  | native _ => rfl
  | unknown => rfl

theorem texts?_eraseItems : (items : List Value) → texts? (eraseItems items) = texts? items
  | [] => rfl
  | item :: items => by
    have hitem := text?_erase item
    have hitems := texts?_eraseItems items
    cases item <;> simp only [eraseItems, erase, texts?, hitems] <;> simp only [erase] at hitem <;>
      rw [hitem]
end

mutual
theorem print_erase : (v : Value) → v.erase.print = v.print
  | null => rfl
  | bool _ => rfl
  | num _ => rfl
  | str _ => rfl
  | bigint _ => rfl
  | typeLabel _ => rfl
  | map [] => rfl
  | map (field :: fields) =>
    congrArg ("\x7b " ++ ", ".intercalate · ++ " \x7d") (printFields_erase (field :: fields))
  | list [] => rfl
  | list (item :: items) =>
    congrArg ("[ " ++ ", ".intercalate · ++ " ]") (printItems_erase (item :: items))
  | pattern _ _ => rfl
  | function _ _ _ => rfl
  | native _ => rfl
  | unknown => rfl

theorem printItems_erase : (items : List Value) → printItems (eraseItems items) = printItems items
  | [] => rfl
  | item :: items => congrArg₂ List.cons (print_erase item) (printItems_erase items)

theorem printFields_erase : (fields : List (String × Value)) →
    printFields (eraseFields fields) = printFields fields
  | [] => rfl
  | (key, field) :: fields =>
    congrArg₂ (fun text texts => (printKey key ++ ": " ++ text) :: texts) (print_erase field)
      (printFields_erase fields)
end

theorem isUnknown_erase (v : Value) : v.erase.isUnknown = v.isUnknown := by cases v <;> rfl

theorem truthy?_erase (v : Value) : v.erase.truthy? = v.truthy? := by cases v <;> rfl

theorem typeOf?_erase (v : Value) : v.erase.typeOf? = v.typeOf? := by cases v <;> rfl

theorem number?_erase (v : Value) : v.erase.number? = v.number? := by cases v <;> rfl

theorem joinsText_erase (v : Value) : v.erase.joinsText = v.joinsText := by cases v <;> rfl

theorem strictEquals?_erase (a b : Value) : strictEquals? a.erase b.erase = strictEquals? a b := by
  cases a <;> cases b <;> rfl

theorem looseEquals?_erase (a b : Value) : looseEquals? a.erase b.erase = looseEquals? a b := by
  cases a <;> cases b <;> rfl

theorem compare?_erase (a b : Value) : compare? a.erase b.erase = compare? a b := by
  cases a <;> cases b <;> rfl

theorem arithmetic_erase (f : Double → Double → Double) (a b : Value) :
    arithmetic f a.erase b.erase = arithmetic f a b := by
  rw [arithmetic, number?_erase, number?_erase, ← arithmetic]

theorem add_erase (a b : Value) : add a.erase b.erase = add a b := by
  rw [add, joinsText_erase, joinsText_erase, text?_erase, text?_erase, arithmetic_erase, ← add]

theorem binary_erase (op : Script.BinaryOp) (a b : Value) :
    binary op a.erase b.erase = binary op a b := by
  cases op <;> simp only [binary, add_erase, arithmetic_erase, strictEquals?_erase,
    looseEquals?_erase, compares?, compare?_erase]

theorem unary_erase (op : Script.UnaryOp) (a : Value) : unary op a.erase = unary op a := by
  cases op <;> simp only [unary, number?_erase, truthy?_erase, typeOf?_erase]

theorem callType_erase (name : String) (args : List Value) :
    callType name (eraseItems args) = callType name args := by
  have hfirst : (eraseItems args).head?.getD unknown = (args.head?.getD unknown).erase := by
    cases args <;> rfl
  simp only [callType, hfirst, text?_erase, number?_erase, truthy?_erase]
  split
  · rfl
  · rfl
  · rfl
  · rcases args with _ | ⟨first, _ | ⟨second, rest⟩⟩
    · rfl
    · cases first <;> rfl
    · cases first <;> cases second <;> rfl
  · rfl

/-! ### Kinds -/

/-- The kinds of values. -/
inductive Kind where
  | null | bool | num | str | bigint | typeLabel | map | list | pattern | function | native
  | unknown
deriving DecidableEq

/-- The kind of a value. -/
def kind : Value → Kind
  | null => .null
  | bool _ => .bool
  | num _ => .num
  | str _ => .str
  | bigint _ => .bigint
  | typeLabel _ => .typeLabel
  | map _ => .map
  | list _ => .list
  | pattern _ _ => .pattern
  | function _ _ _ => .function
  | native _ => .native
  | unknown => .unknown

theorem kind_erase (v : Value) : v.erase.kind = v.kind := by cases v <;> rfl

/-- Two values of the same kind that are printed in the same way. -/
def SameForm (v w : Value) : Prop := v.kind = w.kind ∧ v.print = w.print

instance (v w : Value) : Decidable (SameForm v w) :=
  inferInstanceAs (Decidable (v.kind = w.kind ∧ v.print = w.print))

/-! ### Similarity -/

/-- Whether a value has no values and no scopes in it. -/
def isAtom : Value → Bool
  | map _ => false
  | list _ => false
  | function _ _ _ => false
  | _ => true

-- Fields and items are compared position by position: that keeps the definition an ordinary inductive
-- one, with the induction that comes with it. `similar_map_iff` and `similar_list_iff` give it back as
-- a relation between lists.
/-- **Similar values**: the same, but that functions may have different scopes, if those are paired.
All functions belong to modules that satisfy `code`. -/
inductive Similar (code : ModuleId → Prop) (pairs : Nat → Nat → Prop) : Value → Value → Prop
  | atom {v : Value} (h : v.isAtom = true) : Similar code pairs v v
  | map {fields fields' : List (String × Value)}
      (hkeys : fields.map Prod.fst = fields'.map Prod.fst)
      (h : ∀ (i : Nat) key v key' v', fields[i]? = some (key, v) → fields'[i]? = some (key', v') →
        Similar code pairs v v') : Similar code pairs (.map fields) (.map fields')
  | list {items items' : List Value} (hlength : items.length = items'.length)
      (h : ∀ (i : Nat) v v', items[i]? = some v → items'[i]? = some v' →
        Similar code pairs v v') : Similar code pairs (.list items) (.list items')
  | function {f : FunctionLit} {m : ModuleId} {scope scope' : Scope} (hcode : code m)
      (hscope : Option.Rel pairs scope scope') :
      Similar code pairs (.function f m scope) (.function f m scope')

theorem isAtom_ofBool? (b : Option Bool) : (ofBool? b).isAtom = true := by
  cases b <;> rfl

theorem isAtom_getD {α : Type} (x : Option α) {f : α → Value} (hf : ∀ a, (f a).isAtom = true) :
    ((x.map f).getD unknown).isAtom = true := by
  cases x with
  | none => rfl
  | some a => exact hf a

theorem isAtom_arithmetic (f : Double → Double → Double) (a b : Value) :
    (arithmetic f a b).isAtom = true := by
  unfold arithmetic
  split <;> rfl

theorem isAtom_add (a b : Value) : (add a b).isAtom = true := by
  unfold add
  split
  · split <;> rfl
  · exact isAtom_arithmetic _ a b

theorem isAtom_binary (op : Script.BinaryOp) (a b : Value) : (binary op a b).isAtom = true := by
  cases op <;>
    first | exact isAtom_add a b | exact isAtom_arithmetic _ a b | exact isAtom_ofBool? _ | rfl

theorem isAtom_unary (op : Script.UnaryOp) (a : Value) : (unary op a).isAtom = true := by
  cases op with
  | not => exact isAtom_ofBool? _
  | _ => exact isAtom_getD _ fun _ => rfl

theorem isAtom_callType (name : String) (args : List Value) :
    (callType name args).isAtom = true := by
  unfold callType
  split
  · exact isAtom_getD _ fun _ => rfl
  · exact isAtom_getD _ fun _ => rfl
  · exact isAtom_ofBool? _
  · split <;> rfl
  · rfl

section Similar

variable {code code' : ModuleId → Prop} {pairs pairs' : Nat → Nat → Prop} {v w : Value}

theorem similar_map_iff {fields fields' : List (String × Value)} :
    Similar code pairs (.map fields) (.map fields') ↔
      FieldsRel (Similar code pairs) fields fields' := by
  rw [FieldsRel, List.forall₂_iff_get]
  constructor
  · rintro (⟨⟨⟩⟩ | ⟨hkeys, h⟩)
    refine ⟨by simpa using congrArg List.length hkeys, fun i hi hi' => ⟨?_, ?_⟩⟩
    · have hkey := congrArg (·[i]?) hkeys
      simpa [hi, hi'] using hkey
    · exact h i _ _ _ _ (List.getElem?_eq_getElem hi) (List.getElem?_eq_getElem hi')
  · rintro ⟨hlength, h⟩
    refine .map (List.ext_getElem (by simpa using hlength) fun i hi hi' => ?_)
      fun i key v key' v' hv hv' => ?_
    · simpa using (h i (by simpa using hi) (by simpa using hi')).1
    · obtain ⟨hi, hi_eq⟩ := List.getElem?_eq_some_iff.mp hv
      obtain ⟨hi', hi'_eq⟩ := List.getElem?_eq_some_iff.mp hv'
      simpa [hi_eq, hi'_eq] using (h i hi hi').2

theorem similar_list_iff {items items' : List Value} :
    Similar code pairs (.list items) (.list items') ↔
      List.Forall₂ (Similar code pairs) items items' := by
  rw [List.forall₂_iff_get]
  constructor
  · rintro (⟨⟨⟩⟩ | _ | ⟨hlength, h⟩)
    exact ⟨hlength, fun i hi hi' =>
      h i _ _ (List.getElem?_eq_getElem hi) (List.getElem?_eq_getElem hi')⟩
  · rintro ⟨hlength, h⟩
    refine .list hlength fun i v v' hv hv' => ?_
    obtain ⟨hi, rfl⟩ := List.getElem?_eq_some_iff.mp hv
    obtain ⟨hi', rfl⟩ := List.getElem?_eq_some_iff.mp hv'
    exact h i hi hi'

namespace Similar

theorem unknown : Similar code pairs .unknown .unknown := .atom rfl

theorem mono (h : Similar code pairs v w) (hcode : ∀ m, code m → code' m)
    (hpairs : ∀ i j, pairs i j → pairs' i j) : Similar code' pairs' v w := by
  induction h with
  | atom h => exact .atom h
  | map hkeys _ ih => exact .map hkeys ih
  | list hlength _ ih => exact .list hlength ih
  | function hm hscope =>
    refine .function (hcode _ hm) ?_
    cases hscope with
    | none => exact .none
    | some h => exact .some (hpairs _ _ h)

/-- **Similar values are the same without their scopes.** -/
theorem erase_eq (h : Similar code pairs v w) : v.erase = w.erase := by
  induction h with
  | atom h => rfl
  | @map fields fields' hkeys _ ih =>
    rw [erase, erase, eraseFields_eq_map, eraseFields_eq_map]
    congr 1
    refine List.ext_getElem (by simpa using congrArg List.length hkeys) fun i hi hi' => ?_
    have hkey := congrArg (·[i]?) hkeys
    simp only [List.length_map] at hi hi'
    have hvalue := ih i _ _ _ _ (List.getElem?_eq_getElem hi) (List.getElem?_eq_getElem hi')
    simp only [List.getElem?_map, List.getElem?_eq_getElem hi, List.getElem?_eq_getElem hi',
      Option.map_some, Option.some.injEq] at hkey
    simp only [List.getElem_map]
    exact Prod.ext hkey hvalue
  | @list items items' hlength _ ih =>
    rw [erase, erase, eraseItems_eq_map, eraseItems_eq_map]
    congr 1
    refine List.ext_getElem (by simpa using hlength) fun i hi hi' => ?_
    simp only [List.length_map] at hi hi'
    have hvalue := ih i _ _ (List.getElem?_eq_getElem hi) (List.getElem?_eq_getElem hi')
    simpa only [List.getElem_map] using hvalue
  | function hm hscope => rfl

theorem isUnknown_eq (h : Similar code pairs v w) : v.isUnknown = w.isUnknown := by
  rw [← v.isUnknown_erase, h.erase_eq, w.isUnknown_erase]

theorem truthy?_eq (h : Similar code pairs v w) : v.truthy? = w.truthy? := by
  rw [← v.truthy?_erase, h.erase_eq, w.truthy?_erase]

theorem text?_eq (h : Similar code pairs v w) : v.text? = w.text? := by
  rw [← v.text?_erase, h.erase_eq, w.text?_erase]

theorem sameForm (h : Similar code pairs v w) : SameForm v w := by
  constructor
  · rw [← v.kind_erase, h.erase_eq, w.kind_erase]
  · rw [← v.print_erase, h.erase_eq, w.print_erase]

theorem field? (h : Similar code pairs v w) (key : String) :
    Option.Rel (Similar code pairs) (v.field? key) (w.field? key) := by
  cases h with
  | @atom v h => cases v <;> first | exact .none | cases h
  | map hkeys h => exact (similar_map_iff.mp (.map hkeys h)).lookupKey? key
  | list _ _ => exact .none
  | function _ _ => exact .none

theorem member (h : Similar code pairs v w) (property : String) :
    Similar code pairs (v.member property) (w.member property) := by
  have hfield := h.field? property
  unfold Value.member
  revert hfield
  generalize v.field? property = found, w.field? property = found'
  rintro (hfound | _)
  · exact hfound
  · cases h with
    | @atom v h => cases v <;> exact .atom rfl
    | _ => exact .atom rfl

theorem unary (h : Similar code pairs v w) (op : Script.UnaryOp) :
    Similar code pairs (v.unary op) (w.unary op) := by
  rw [← unary_erase op v, h.erase_eq, unary_erase]
  exact .atom (isAtom_unary op w)

theorem binary {v' w' : Value} (h : Similar code pairs v w) (h' : Similar code pairs v' w')
    (op : Script.BinaryOp) : Similar code pairs (v.binary op v') (w.binary op w') := by
  rw [← binary_erase op v, h.erase_eq, h'.erase_eq, binary_erase]
  exact .atom (isAtom_binary op w w')

theorem callType {args args' : List Value} (h : List.Forall₂ (Similar code pairs) args args')
    (name : String) : Similar code pairs (callType name args) (callType name args') := by
  have herase : eraseItems args = eraseItems args' := by
    have hlist := (similar_list_iff.mpr h).erase_eq
    simpa only [erase, list.injEq] using hlist
  rw [← callType_erase, herase, callType_erase]
  exact .atom (isAtom_callType name args')

theorem getD {x y : Option Value} (h : Option.Rel (Similar code pairs) x y) :
    Similar code pairs (x.getD .unknown) (y.getD .unknown) := by
  cases h with
  | none => exact .unknown
  | some h => exact h

end Similar

/-- A value without functions is similar to itself. -/
theorem similar_ofJson : (json : Json) → Similar code pairs (ofJson json) (ofJson json)
  | .null => .atom rfl
  | .bool _ => .atom rfl
  | .number _ => .atom rfl
  | .string _ => .atom rfl
  | .array items => similar_list_iff.mpr (items_similar items)
  | .object fields => similar_map_iff.mpr (fields_similar fields)
where
  items_similar : (items : List Json) →
      List.Forall₂ (Similar code pairs) (ofJsonItems items) (ofJsonItems items)
    | [] => .nil
    | item :: items => .cons (similar_ofJson item) (items_similar items)
  fields_similar : (fields : List (String × Json)) →
      FieldsRel (Similar code pairs) (ofJsonFields fields) (ofJsonFields fields)
    | [] => .nil
    | (_, field) :: fields => .cons ⟨rfl, similar_ofJson field⟩ (fields_similar fields)

end Similar

end Value

/-! ### What evaluation does with values -/

namespace Evaluate

open Value

variable {code : ModuleId → Prop} {pairs : Nat → Nat → Prop}

theorem similar_literal (literal : Script.Literal) :
    Similar code pairs (Evaluate.literal literal) (Evaluate.literal literal) := by
  cases literal <;> exact .atom rfl

theorem similar_constant? (name : String) :
    Option.Rel (Similar code pairs) (constant? name) (constant? name) := by
  unfold constant?
  split
  · exact .some .unknown
  · split
    · exact .some (.atom rfl)
    · split
      · exact .some (.atom rfl)
      · exact .none

theorem similar_select {v w : Value} (h : Similar code pairs v w) (binding : Script.ImportBinding) :
    Similar code pairs (select v binding) (select w binding) := by
  cases binding with
  | named imported _ => exact .getD (h.field? imported)
  | default _ =>
    have hfield := h.field? "default"
    simp only [select]
    revert hfield
    generalize v.field? "default" = found, w.field? "default" = found'
    rintro (hfound | _)
    · exact hfound
    · exact h
  | whole _ => exact h

theorem similar_exportNamed {exports exports' v w : Value}
    (hexports : Similar code pairs exports exports') (name : String) (h : Similar code pairs v w) :
    Similar code pairs (exportNamed exports name v) (exportNamed exports' name w) := by
  cases hexports with
  | @atom exports hatom =>
    cases exports with
    | map fields => cases hatom
    | _ => exact .atom hatom
  | map hkeys hfields =>
    exact similar_map_iff.mpr ((similar_map_iff.mp (.map hkeys hfields)).insertKey name h)
  | list hlength hitems => exact .list hlength hitems
  | function hm hscope => exact .function hm hscope

theorem similar_store {exports exports' v w : Value}
    (hexports : Similar code pairs exports exports') (targets : List ExportTarget)
    (h : Similar code pairs v w) :
    Similar code pairs (store exports targets v) (store exports' targets w) := by
  induction targets with
  | nil => exact hexports
  | cons target targets ih =>
    cases target with
    | whole => exact h
    | named name => exact similar_exportNamed ih name h

theorem similar_merge {fields fields' more more' : List (String × Value)}
    (h : FieldsRel (Similar code pairs) fields fields')
    (hmore : FieldsRel (Similar code pairs) more more') :
    FieldsRel (Similar code pairs) (merge fields more) (merge fields' more') := by
  induction hmore generalizing fields fields' with
  | nil => exact h
  | @cons p q more more' hpq _ ih =>
    obtain ⟨key, v⟩ := p
    obtain ⟨key', v'⟩ := q
    obtain ⟨rfl, hv⟩ := hpq
    exact ih (h.insertKey key hv)

theorem similar_indexed {items items' : List Value}
    (h : List.Forall₂ (Similar code pairs) items items') (i : Nat) :
    FieldsRel (Similar code pairs) (indexed i items) (indexed i items') := by
  induction h generalizing i with
  | nil => exact .nil
  | cons hitem _ ih => exact .cons ⟨rfl, hitem⟩ (ih (i + 1))

end Evaluate

/-! ### Frames -/

/-- Two frames that match: they bind the same names to similar values, inside paired scopes that are
older than they are. -/
structure Frame.Match (code : ModuleId → Prop) (pairs : Nat → Nat → Prop) (id id' : Nat)
    (frame frame' : Frame) : Prop where
  bindings : FieldsRel (Value.Similar code pairs) frame.bindings frame'.bindings
  parents : Option.Rel pairs frame.parent frame'.parent
  older : ∀ parent ∈ frame.parent, parent < id
  older' : ∀ parent ∈ frame'.parent, parent < id'

/-- All paired frames are there, and match. -/
def Frames.Match (code : ModuleId → Prop) (pairs : Nat → Nat → Prop) (fs fs' : Frames) : Prop :=
  ∀ id id', pairs id id' → ∃ frame frame', fs.frames[id]? = some frame ∧
    fs'.frames[id']? = some frame' ∧ frame.Match code pairs id id' frame'

/-- Options that are related stay related in a larger relation. -/
theorem optionRel_mono {α β : Type} {r r' : α → β → Prop} (h : ∀ a b, r a b → r' a b)
    {x : Option α} {y : Option β} (hxy : Option.Rel r x y) : Option.Rel r' x y := by
  cases hxy with
  | none => exact .none
  | some hab => exact .some (h _ _ hab)

theorem optionRel_isSome {α β : Type} {r : α → β → Prop} {x : Option α} {y : Option β}
    (h : Option.Rel r x y) : x.isSome = y.isSome := by
  cases h <;> rfl

theorem Frame.Match.mono {code code' : ModuleId → Prop} {pairs pairs' : Nat → Nat → Prop}
    {id id' : Nat} {frame frame' : Frame} (h : frame.Match code pairs id id' frame')
    (hcode : ∀ m, code m → code' m) (hpairs : ∀ i j, pairs i j → pairs' i j) :
    frame.Match code' pairs' id id' frame' where
  bindings := h.bindings.imp fun _ _ hpq => ⟨hpq.1, hpq.2.mono hcode hpairs⟩
  parents := optionRel_mono hpairs h.parents
  older := h.older
  older' := h.older'

namespace Frames.Match

variable {code : ModuleId → Prop} {pairs : Nat → Nat → Prop} {fs fs' gs gs' : Frames}

theorem lt (h : fs.Match code pairs fs') {id id' : Nat} (hpair : pairs id id') :
    id < fs.frames.size ∧ id' < fs'.frames.size := by
  obtain ⟨frame, frame', hframe, hframe', -⟩ := h id id' hpair
  exact ⟨(Array.getElem?_eq_some_iff.mp hframe).1, (Array.getElem?_eq_some_iff.mp hframe').1⟩

/-- Nothing is paired. -/
theorem empty (fs fs' : Frames) : fs.Match code (fun _ _ => False) fs' := fun _ _ h => h.elim

/-- Only the frames that are paired matter. -/
theorem congr (h : fs.Match code pairs fs')
    (hleft : ∀ id id', pairs id id' → gs.frames[id]? = fs.frames[id]?)
    (hright : ∀ id id', pairs id id' → gs'.frames[id']? = fs'.frames[id']?) :
    gs.Match code pairs gs' := by
  intro id id' hpair
  rw [hleft id id' hpair, hright id id' hpair]
  exact h id id' hpair

/-- Frames that are paired for two reasons. -/
theorem union {code' : ModuleId → Prop} {pairs' : Nat → Nat → Prop} (h : fs.Match code pairs fs')
    (h' : fs.Match code' pairs' fs') (hcode : ∀ m, code' m → code m) :
    fs.Match code (fun i j => pairs i j ∨ pairs' i j) fs' := by
  rintro id id' (hpair | hpair)
  · obtain ⟨frame, frame', hframe, hframe', hmatch⟩ := h id id' hpair
    exact ⟨frame, frame', hframe, hframe', hmatch.mono (fun _ hm => hm) fun _ _ => .inl⟩
  · obtain ⟨frame, frame', hframe, hframe', hmatch⟩ := h' id id' hpair
    exact ⟨frame, frame', hframe, hframe', hmatch.mono hcode fun _ _ => .inr⟩

theorem lookupWithin_none (fs : Frames) (name : String) (fuel : Nat) :
    fs.lookupWithin name fuel none = none := by
  cases fuel <;> rfl

-- The two searches go through as many frames, but may have different bounds; what a bound has to
-- exceed is the number of the frame, since frames get older on the way.
theorem lookupWithin (h : fs.Match code pairs fs') (name : String) {fuel fuel' : Nat}
    {scope scope' : Scope} (hscope : Option.Rel pairs scope scope')
    (hfuel : ∀ id ∈ scope, id < fuel) (hfuel' : ∀ id ∈ scope', id < fuel') :
    Option.Rel (Value.Similar code pairs) (fs.lookupWithin name fuel scope)
      (fs'.lookupWithin name fuel' scope') := by
  induction fuel generalizing fuel' scope scope' with
  | zero =>
    cases hscope with
    | none =>
      rw [lookupWithin_none, lookupWithin_none]
      exact .none
    | some hpair => exact absurd (hfuel _ rfl) (Nat.not_lt_zero _)
  | succ fuel ih =>
    cases hscope with
    | none =>
      rw [lookupWithin_none, lookupWithin_none]
      exact .none
    | @some id id' hpair =>
      obtain ⟨fuel', rfl⟩ := Nat.exists_eq_add_one_of_ne_zero (Nat.ne_zero_of_lt (hfuel' _ rfl))
      obtain ⟨frame, frame', hframe, hframe', hmatch⟩ := h id id' hpair
      have hfound := hmatch.bindings.lookupKey? name
      simp only [Frames.lookupWithin, hframe, hframe']
      revert hfound
      generalize lookupKey? name frame.bindings = found, lookupKey? name frame'.bindings = found'
      rintro (hfound | _)
      · exact .some hfound
      · have hid := hfuel id rfl
        have hid' := hfuel' id' rfl
        refine ih hmatch.parents (fun parent hparent => ?_) fun parent hparent => ?_
        · exact Nat.lt_of_lt_of_le (hmatch.older parent hparent) (Nat.le_of_lt_succ hid)
        · exact Nat.lt_of_lt_of_le (hmatch.older' parent hparent) (Nat.le_of_lt_succ hid')

/-- **A name is bound in both of two paired scopes or in none**, and to similar values. -/
theorem lookup? (h : fs.Match code pairs fs') (name : String) {scope scope' : Scope}
    (hscope : Option.Rel pairs scope scope') :
    Option.Rel (Value.Similar code pairs) (fs.lookup? scope name) (fs'.lookup? scope' name) := by
  refine h.lookupWithin name hscope (fun id hid => ?_) fun id' hid' => ?_
  · cases hscope with
    | none => cases hid
    | some hpair => cases hid; exact (h.lt hpair).1
  · cases hscope with
    | none => cases hid'
    | some hpair => cases hid'; exact (h.lt hpair).2

/-- **New frames** inside paired scopes are paired. -/
theorem child (h : fs.Match code pairs fs') {scope scope' : Scope}
    (hscope : Option.Rel pairs scope scope') :
    (fs.child scope []).1.Match code
      (fun i j => pairs i j ∨ i = fs.frames.size ∧ j = fs'.frames.size)
      (fs'.child scope' []).1 := by
  rintro id id' (hpair | ⟨rfl, rfl⟩)
  · obtain ⟨hid, hid'⟩ := h.lt hpair
    obtain ⟨frame, frame', hframe, hframe', hmatch⟩ := h id id' hpair
    refine ⟨frame, frame', ?_, ?_, hmatch.mono (fun _ hm => hm) fun _ _ => .inl⟩
    · rw [Frames.child, Array.getElem?_push_lt hid, ← hframe, Array.getElem?_eq_getElem hid]
    · rw [Frames.child, Array.getElem?_push_lt hid', ← hframe', Array.getElem?_eq_getElem hid']
  · refine ⟨_, _, Array.getElem?_push_size, Array.getElem?_push_size, .nil,
      optionRel_mono (fun _ _ => .inl) hscope, fun parent hparent => ?_, fun parent hparent => ?_⟩
    · cases hscope with
      | none => cases hparent
      | some hpair => cases hparent; exact (h.lt hpair).1
    · cases hscope with
      | none => cases hparent
      | some hpair => cases hparent; exact (h.lt hpair).2

/-- **Binding a name** in two frames that are paired with each other and with no other ones. -/
theorem bind (h : fs.Match code pairs fs') {id id' : Nat} (hpair : pairs id id')
    (honly : ∀ j, pairs id j → j = id') (honly' : ∀ i, pairs i id' → i = id) (name : String)
    {v w : Value} (hvw : Value.Similar code pairs v w) :
    (fs.bind (some id) name v).Match code pairs (fs'.bind (some id') name w) := by
  intro i j hij
  obtain ⟨frame, frame', hframe, hframe', hmatch⟩ := h i j hij
  by_cases hi : i = id
  · obtain rfl := hi
    obtain rfl := honly j hij
    obtain ⟨hlt, hlt'⟩ := h.lt hij
    refine ⟨{ frame with bindings := insertKey name v frame.bindings },
      { frame' with bindings := insertKey name w frame'.bindings }, ?_, ?_,
      { hmatch with bindings := hmatch.bindings.insertKey name hvw }⟩
    · simp only [Frames.bind, hframe, Array.getElem?_setIfInBounds_self_of_lt hlt]
    · simp only [Frames.bind, hframe', Array.getElem?_setIfInBounds_self_of_lt hlt']
  · have hj : id' ≠ j := fun hj => hi (honly' i (hj ▸ hij))
    refine ⟨frame, frame', ?_, ?_, hmatch⟩
    · rwa [getElem?_bind_of_ne (Ne.symm hi)]
    · rwa [getElem?_bind_of_ne hj]

end Frames.Match

end SchemaDoc
