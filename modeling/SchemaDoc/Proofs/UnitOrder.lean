import Mathlib.Logic.Basic
import Mathlib.Tactic.SplitIfs
import SchemaDoc.Text.Unit

/-!
# The order of texts by 16-bit units

A character beyond the first `0x10000` is spelled by two units, both of them surrogates, and the
surrogates stand below the last characters that are spelled by one unit. So the order of texts by
units is their order by code points, unless the first two characters that differ are one from either
side (`Crosses`): then it is the other way round (`textUnits_lt_iff`).
-/

namespace SchemaDoc.Text

/-- The 16-bit units that spell a character. -/
def units (c : Char) : List Nat :=
  if c.toNat < 0x10000 then [c.toNat]
  else [0xD800 + (c.toNat - 0x10000) / 0x400, 0xDC00 + (c.toNat - 0x10000) % 0x400]

/-- The units that spell a text. -/
def textUnits (cs : List Char) : List Nat := cs.flatMap units

/-- Two characters whose order by units is not the order of their code points. -/
def Crossed (c d : Char) : Prop :=
  (0x10000 ≤ c.toNat ∧ 0xE000 ≤ d.toNat ∧ d.toNat < 0x10000) ∨
    (0x10000 ≤ d.toNat ∧ 0xE000 ≤ c.toNat ∧ c.toNat < 0x10000)

/-- Two texts whose first difference is between such characters. -/
inductive Crosses : List Char → List Char → Prop
  | here {c d : Char} {s t : List Char} (h : Crossed c d) : Crosses (c :: s) (d :: t)
  | later {c : Char} {s t : List Char} (h : Crosses s t) : Crosses (c :: s) (c :: t)

theorem Crosses.symm {s t : List Char} (h : Crosses s t) : Crosses t s := by
  induction h with
  | here h => exact .here h.symm
  | later _ ih => exact .later ih

theorem not_crossed_self (c : Char) : ¬Crossed c c := by
  rw [Crossed]
  omega

theorem crosses_cons_self {c : Char} {s t : List Char} :
    Crosses (c :: s) (c :: t) ↔ Crosses s t := by
  constructor
  · intro h
    cases h with
    | here h => exact absurd h (not_crossed_self c)
    | later h => exact h
  · exact .later

theorem crosses_cons_of_ne {c d : Char} {s t : List Char} (hne : c ≠ d) :
    Crosses (c :: s) (d :: t) ↔ Crossed c d := by
  constructor
  · intro h
    cases h with
    | here h => exact h
    | later h => exact absurd rfl hne
  · exact .here

theorem toNat_lt_or_lt (c : Char) : c.toNat < 0xD800 ∨ 0xDFFF < c.toNat ∧ c.toNat < 0x110000 :=
  c.valid

theorem char_lt_iff {c d : Char} : c < d ↔ c.toNat < d.toNat := Iff.rfl

/-- Different characters decide about the order of the units. -/
theorem units_append_lt_iff {c d : Char} (hne : c ≠ d) (us vs : List Nat) :
    units c ++ us < units d ++ vs ↔ (c < d ↔ ¬Crossed c d) := by
  have hne' : c.toNat ≠ d.toNat := fun h => hne (Char.toNat_inj.mp h)
  have hc := toNat_lt_or_lt c
  have hd := toNat_lt_or_lt d
  rw [char_lt_iff, Crossed, units, units]
  split_ifs
  all_goals
    simp only [List.cons_append, List.nil_append, List.cons_lt_cons_iff]
    omega

theorem units_append_lt_self_iff {c : Char} {us vs : List Nat} :
    units c ++ us < units c ++ vs ↔ us < vs := by
  rw [units]
  split <;> simp

theorem nil_lt_units_append (c : Char) (us : List Nat) : [] < units c ++ us := by
  rw [units]
  split <;> exact List.nil_lt_cons _ _

theorem textUnits_cons (c : Char) (s : List Char) : textUnits (c :: s) = units c ++ textUnits s :=
  List.flatMap_cons

/-- **The order by units** is the order by code points, turned around where the texts cross. -/
theorem textUnits_lt_iff {s t : List Char} :
    textUnits s < textUnits t ↔ (s < t ↔ ¬Crosses s t) := by
  induction s generalizing t with
  | nil =>
    have hcrosses : ¬Crosses [] t := by rintro ⟨⟩
    cases t with
    | nil => simp [hcrosses]
    | cons d t =>
      rw [textUnits_cons]
      exact iff_of_true (nil_lt_units_append d _) (iff_of_true (List.nil_lt_cons d t) hcrosses)
  | cons c s ih =>
    cases t with
    | nil =>
      have hcrosses : ¬Crosses (c :: s) [] := by rintro ⟨⟩
      simp [hcrosses, textUnits]
    | cons d t =>
      rw [textUnits_cons, textUnits_cons, List.cons_lt_cons_iff]
      rcases eq_or_ne c d with rfl | hne
      · rw [units_append_lt_self_iff, crosses_cons_self, ih]
        simp
      · rw [units_append_lt_iff hne, crosses_cons_of_ne hne]
        simp [hne]

end SchemaDoc.Text
