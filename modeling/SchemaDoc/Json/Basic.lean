import SchemaDoc.Number.Notation

/-!
# JSON values

A JSON value whose objects keep their keys in the order of first appearance.
-/

namespace SchemaDoc

/-- A JSON value. -/
inductive Json where
  | null
  | bool (b : Bool)
  | number (x : Double)
  | string (s : String)
  | array (items : List Json)
  | object (fields : List (String × Json))

/-- Puts a value under a key: a key that is already there keeps its place and takes the new value,
a new key comes last. -/
def insertKey {α : Type} (key : String) (value : α) : List (String × α) → List (String × α)
  | [] => [(key, value)]
  | (k, v) :: fields =>
    if k == key then (k, value) :: fields else (k, v) :: insertKey key value fields

/-- The value under a key. -/
def lookupKey? {α : Type} (key : String) : List (String × α) → Option α
  | [] => none
  | (k, v) :: fields => if k == key then some v else lookupKey? key fields

theorem mem_of_lookupKey? {α : Type} {key : String} {a : α} {fields : List (String × α)}
    (h : lookupKey? key fields = some a) : (key, a) ∈ fields := by
  induction fields with
  | nil => exact absurd h nofun
  | cons field fields ih =>
    obtain ⟨k, b⟩ := field
    rw [lookupKey?] at h
    split at h
    next hk =>
      obtain rfl := beq_iff_eq.mp hk
      obtain rfl := Option.some.inj h
      exact List.mem_cons_self
    next => exact List.mem_cons_of_mem _ (ih h)

theorem forall_mem_insertKey {α : Type} {P : α → Prop} {fields : List (String × α)}
    (h : ∀ field ∈ fields, P field.2) (key : String) {value : α} (hvalue : P value) :
    ∀ field ∈ insertKey key value fields, P field.2 := by
  induction fields with
  | nil => exact List.forall_mem_singleton.mpr hvalue
  | cons field fields ih =>
    obtain ⟨hfield, hfields⟩ := List.forall_mem_cons.mp h
    rw [insertKey]
    split
    · exact List.forall_mem_cons.mpr ⟨hvalue, hfields⟩
    · exact List.forall_mem_cons.mpr ⟨hfield, ih hfields⟩

namespace Json

/-- The value under a key of an object. -/
def field? (key : String) : Json → Option Json
  | object fields => lookupKey? key fields
  | _ => none

end Json

end SchemaDoc
