import Mathlib.Data.String.Basic
import SchemaDoc.Proofs.Conversions
import SchemaDoc.Proofs.NumberLine
import SchemaDoc.Proofs.UnitOrder
import SchemaDoc.Value.Operators

/-!
# What comparisons mean

The comparisons of a script, for primitive values (`Comparison.Holds`). Two texts are compared by
their units, a text and an integer without bounds as integers, and all else by the places on the line
that the values are converted to (`Primitive.Numeric`): a value that is converted to a NaN has none,
and nothing compares with it. Null is equal to nothing but itself, though it has a place.

Comparisons that convert both sides (`Comparison.Converting`) are relations between two places
(`Comparison.holds_iff`).
-/

namespace SchemaDoc

open Numeral

/-! ### Primitive values -/

/-- The primitive values of a script. -/
inductive Primitive where
  | null
  | bool (b : Bool)
  | num (x : Double)
  | str (s : String)
  | bigint (n : ℤ)

namespace Primitive

/-- The value that stands for a primitive one. An integer without bounds is kept by its digits. -/
def toValue : Primitive → Value
  | null => .null
  | bool b => .bool b
  | num x => .num x
  | str s => .str s
  | bigint n => .bigint n.repr

def isText : Primitive → Bool
  | str _ => true
  | _ => false

def isInteger : Primitive → Bool
  | bigint _ => true
  | _ => false

/-- The place on the line that a value is converted to. What is converted to a NaN has none. -/
inductive Numeric : Primitive → Quantity → Prop
  | null : Numeric null (.ofRat 0)
  | bool (b : Bool) : Numeric (bool b) (.ofRat (if b then 1 else 0))
  | num {x : Double} (h : x.isNaN = false) : Numeric (num x) x.quantity
  | str {s : String} {x : Double} (h : ScriptReads s.toList x) : Numeric (str s) x.quantity
  | bigint (n : ℤ) : Numeric (bigint n) (.ofRat n)

/-- Whether two values are compared as numbers: two texts are not, and a text beside an integer
without bounds is read as such an integer. -/
def AsNumbers : Primitive → Primitive → Prop
  | str _, str _ => False
  | str _, bigint _ => False
  | bigint _, str _ => False
  | _, _ => True

/-- **Less than.** The answer is missing if one of the values is converted to a NaN, or if a text
beside an integer without bounds is none. -/
inductive Less : Primitive → Primitive → Bool → Prop
  | texts {s t : String} {r : Bool}
    (hr : r = true ↔ Text.textUnits s.toList < Text.textUnits t.toList) : Less (str s) (str t) r
  | integerText {n m : ℤ} {s : String} {r : Bool} (h : ScriptReadsInteger s.toList m)
    (hr : r = true ↔ n < m) : Less (bigint n) (str s) r
  | textInteger {n m : ℤ} {s : String} {r : Bool} (h : ScriptReadsInteger s.toList m)
    (hr : r = true ↔ m < n) : Less (str s) (bigint n) r
  | numbers {a b : Primitive} {p q : Quantity} {r : Bool} (hab : AsNumbers a b) (ha : Numeric a p)
    (hb : Numeric b q) (hr : r = true ↔ p < q) : Less a b r

/-- **Strict equality**: of the same kind and equal. -/
inductive StrictlyEqual : Primitive → Primitive → Prop
  | null : StrictlyEqual null null
  | bool (b : Bool) : StrictlyEqual (bool b) (bool b)
  | num {x y : Double} (hx : x.isNaN = false) (hy : y.isNaN = false)
    (h : x.quantity = y.quantity) : StrictlyEqual (num x) (num y)
  | str (s : String) : StrictlyEqual (str s) (str s)
  | bigint (n : ℤ) : StrictlyEqual (bigint n) (bigint n)

/-- **Loose equality**: equal after conversion. Null is converted to nothing. -/
inductive LooselyEqual : Primitive → Primitive → Prop
  | null : LooselyEqual null null
  | texts (s : String) : LooselyEqual (str s) (str s)
  | integerText {n : ℤ} {s : String} (h : ScriptReadsInteger s.toList n) :
    LooselyEqual (bigint n) (str s)
  | textInteger {n : ℤ} {s : String} (h : ScriptReadsInteger s.toList n) :
    LooselyEqual (str s) (bigint n)
  | numbers {a b : Primitive} {p : Quantity} (ha' : a ≠ null) (hb' : b ≠ null)
    (hab : AsNumbers a b) (ha : Numeric a p) (hb : Numeric b p) : LooselyEqual a b

end Primitive

/-- The comparisons of a script. -/
inductive Comparison where
  | strictEq
  | strictNotEq
  | eq
  | notEq
  | lt
  | le
  | gt
  | ge
deriving DecidableEq

namespace Comparison

open Primitive

/-- The operator of a comparison. -/
def op : Comparison → Script.BinaryOp
  | strictEq => .strictEq
  | strictNotEq => .strictNotEq
  | eq => .eq
  | notEq => .notEq
  | lt => .lt
  | le => .le
  | gt => .gt
  | ge => .ge

/-- Whether a comparison is one of the two loose equalities. -/
def isLoose : Comparison → Bool
  | eq => true
  | notEq => true
  | _ => false

/-- Whether a comparison asks for the order. -/
def isRelational : Comparison → Bool
  | lt => true
  | le => true
  | gt => true
  | ge => true
  | _ => false

/-- **What a comparison means.** The ones that ask for the order are all put down to one being less
than the other; a missing answer makes each of them false. -/
def Holds : Comparison → Primitive → Primitive → Prop
  | strictEq, a, b => StrictlyEqual a b
  | strictNotEq, a, b => ¬StrictlyEqual a b
  | eq, a, b => LooselyEqual a b
  | notEq, a, b => ¬LooselyEqual a b
  | lt, a, b => Less a b true
  | gt, a, b => Less b a true
  | le, a, b => Less b a false
  | ge, a, b => Less a b false

/-- A comparison in a linear order. -/
def Relates {α : Type} [LinearOrder α] : Comparison → α → α → Prop
  | lt, p, q => p < q
  | le, p, q => p ≤ q
  | gt, p, q => q < p
  | ge, p, q => q ≤ p
  | _, p, q => p = q

/-- The comparison read from right to left. -/
def swap : Comparison → Comparison
  | lt => gt
  | le => ge
  | gt => lt
  | ge => le
  | c => c

@[simp] theorem swap_swap (c : Comparison) : c.swap.swap = c := by
  cases c <;> rfl

theorem isLoose_swap (c : Comparison) : c.swap.isLoose = c.isLoose := by
  cases c <;> rfl

theorem isRelational_swap (c : Comparison) : c.swap.isRelational = c.isRelational := by
  cases c <;> rfl

theorem relates_swap {α : Type} [LinearOrder α] (c : Comparison) {p q : α} :
    c.swap.Relates p q ↔ c.Relates q p := by
  cases c with
  | lt => exact Iff.rfl
  | le => exact Iff.rfl
  | gt => exact Iff.rfl
  | ge => exact Iff.rfl
  | _ => exact eq_comm

variable {a b : Primitive}

theorem asNumbers_symm (h : AsNumbers a b) : AsNumbers b a := by
  cases a <;> cases b <;> trivial

theorem looselyEqual_symm (h : LooselyEqual a b) : LooselyEqual b a := by
  cases h with
  | null => exact .null
  | texts s => exact .texts s
  | integerText h => exact .textInteger h
  | textInteger h => exact .integerText h
  | numbers ha hb hab hp hq => exact .numbers hb ha (asNumbers_symm hab) hq hp

theorem holds_swap {c : Comparison} (hc : (c.isLoose || c.isRelational) = true) :
    c.swap.Holds a b ↔ c.Holds b a := by
  cases c with
  | strictEq => cases hc
  | strictNotEq => cases hc
  | eq => exact ⟨looselyEqual_symm, looselyEqual_symm⟩
  | notEq => exact not_congr ⟨looselyEqual_symm, looselyEqual_symm⟩
  | _ => exact Iff.rfl

/-! ### Comparisons of numbers -/

theorem less_iff (hab : AsNumbers a b) {r : Bool} :
    Less a b r ↔ ∃ p q, Numeric a p ∧ Numeric b q ∧ (r = true ↔ p < q) := by
  constructor
  · intro h
    cases h with
    | texts _ => exact hab.elim
    | integerText _ _ => exact hab.elim
    | textInteger _ _ => exact hab.elim
    | numbers _ ha hb hr => exact ⟨_, _, ha, hb, hr⟩
  · rintro ⟨p, q, ha, hb, hr⟩
    exact .numbers hab ha hb hr

theorem less_swap_iff (hab : AsNumbers a b) {r : Bool} :
    Less b a r ↔ ∃ p q, Numeric a p ∧ Numeric b q ∧ (r = true ↔ q < p) := by
  rw [less_iff (asNumbers_symm hab)]
  constructor
  · rintro ⟨q, p, hb, ha, hr⟩
    exact ⟨p, q, ha, hb, hr⟩
  · rintro ⟨p, q, ha, hb, hr⟩
    exact ⟨q, p, hb, ha, hr⟩

theorem looselyEqual_iff (hab : AsNumbers a b) (ha : a ≠ .null) (hb : b ≠ .null) :
    LooselyEqual a b ↔ ∃ p, Numeric a p ∧ Numeric b p := by
  constructor
  · intro h
    cases h with
    | null => exact absurd rfl ha
    | texts _ => exact hab.elim
    | integerText _ => exact hab.elim
    | textInteger _ => exact hab.elim
    | numbers _ _ _ hp hq => exact ⟨_, hp, hq⟩
  · rintro ⟨p, hp, hq⟩
    exact .numbers ha hb hab hp hq

/-- Whether a comparison is about the numbers that two values are converted to. -/
def Converting (c : Comparison) (a b : Primitive) : Prop :=
  AsNumbers a b ∧ (c.isRelational = true ∨ c = eq ∧ a ≠ .null ∧ b ≠ .null)

theorem Converting.notStrict {c : Comparison} (h : c.Converting a b) :
    (c.isLoose || c.isRelational) = true := by
  obtain ⟨-, hc | ⟨rfl, -, -⟩⟩ := h
  · rw [hc, Bool.or_true]
  · rfl

theorem Converting.not_isText {c : Comparison} {s : String} (h : c.Converting (.str s) b) :
    b.isText = false := by
  cases b with
  | str t => exact h.1.elim
  | _ => rfl

theorem Converting.num_left {c : Comparison} {s : String} (h : c.Converting (.str s) b)
    (x : Double) : c.Converting (.num x) b := by
  obtain ⟨-, hc⟩ := h
  refine ⟨by cases b <;> trivial, hc.imp_right ?_⟩
  rintro ⟨rfl, -, hb⟩
  exact ⟨rfl, by rintro ⟨⟩, hb⟩

theorem Converting.swap {c : Comparison} (h : c.Converting a b) : c.swap.Converting b a := by
  obtain ⟨hab, hc⟩ := h
  refine ⟨asNumbers_symm hab, hc.imp ?_ ?_⟩
  · rw [isRelational_swap]
    exact id
  · rintro ⟨rfl, ha, hb⟩
    exact ⟨rfl, hb, ha⟩

theorem holds_iff {c : Comparison} (h : c.Converting a b) :
    c.Holds a b ↔ ∃ p q, Numeric a p ∧ Numeric b q ∧ c.Relates p q := by
  obtain ⟨hab, hc | ⟨rfl, ha, hb⟩⟩ := h
  · cases c with
    | lt => simpa [Holds, Relates] using less_iff hab (r := true)
    | le => simpa [Holds, Relates] using less_swap_iff hab (r := false)
    | gt => simpa [Holds, Relates] using less_swap_iff hab (r := true)
    | ge => simpa [Holds, Relates] using less_iff hab (r := false)
    | _ => cases hc
  · simpa [Holds, Relates] using looselyEqual_iff hab ha hb

theorem numeric_num_iff {x : Double} {p : Quantity} :
    Numeric (.num x) p ↔ x.isNaN = false ∧ x.quantity = p := by
  constructor
  · rintro ⟨⟩
    exact ⟨‹_›, rfl⟩
  · rintro ⟨hnan, rfl⟩
    exact .num hnan

theorem holds_num_left_iff {c : Comparison} {x : Double} (h : c.Converting (.num x) b) :
    c.Holds (.num x) b ↔ x.isNaN = false ∧ ∃ q, Numeric b q ∧ c.Relates x.quantity q := by
  rw [holds_iff h]
  constructor
  · rintro ⟨p, q, hp, hq, hrelates⟩
    obtain ⟨hnan, rfl⟩ := numeric_num_iff.mp hp
    exact ⟨hnan, q, hq, hrelates⟩
  · rintro ⟨hnan, q, hq, hrelates⟩
    exact ⟨_, q, .num hnan, hq, hrelates⟩

/-! ### Other comparisons -/

theorem less_texts_iff {s t : String} {r : Bool} :
    Less (.str s) (.str t) r ↔ (r = true ↔ Text.textUnits s.toList < Text.textUnits t.toList) := by
  constructor
  · intro h
    cases h with
    | texts hr => exact hr
    | numbers hab _ _ _ => exact hab.elim
  · exact .texts

theorem holds_texts_iff {c : Comparison} (hc : c.isRelational = true) {s t : String} :
    c.Holds (.str s) (.str t) ↔
      c.Relates (Text.textUnits s.toList) (Text.textUnits t.toList) := by
  cases c with
  | lt => simp [Holds, Relates, less_texts_iff]
  | le => simp [Holds, Relates, less_texts_iff]
  | gt => simp [Holds, Relates, less_texts_iff]
  | ge => simp [Holds, Relates, less_texts_iff]
  | _ => cases hc

theorem looselyEqual_texts_iff {s t : String} : LooselyEqual (.str s) (.str t) ↔ s = t := by
  constructor
  · intro h
    cases h with
    | texts _ => rfl
    | numbers _ _ hab _ _ => exact hab.elim
  · rintro rfl
    exact .texts s

theorem numeric_bigint_iff {n : ℤ} {p : Quantity} :
    Numeric (.bigint n) p ↔ p = .ofRat n := by
  constructor
  · rintro ⟨⟩
    rfl
  · rintro rfl
    exact .bigint n

theorem looselyEqual_integers_iff {n m : ℤ} : LooselyEqual (.bigint n) (.bigint m) ↔ n = m := by
  have hab : AsNumbers (.bigint n) (.bigint m) := trivial
  rw [looselyEqual_iff hab (by rintro ⟨⟩) (by rintro ⟨⟩)]
  simp only [numeric_bigint_iff]
  constructor
  · rintro ⟨p, rfl, h⟩
    exact Int.cast_injective (WithTop.coe_injective (WithBot.coe_injective h))
  · rintro rfl
    exact ⟨_, rfl, rfl⟩

theorem not_looselyEqual_null_left (hb : b ≠ .null) : ¬LooselyEqual .null b := by
  intro h
  cases h with
  | null => exact hb rfl
  | numbers ha _ _ _ _ => exact ha rfl

end Comparison

end SchemaDoc
