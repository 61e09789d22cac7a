import SchemaDoc.Proofs.ComparisonMeaning

/-!
# Comparisons

How evaluation answers comparisons of primitive values, against what they mean
(`Comparison.Holds`). Only the order of integers without bounds is left unknown. Every other answer
is known, and it is right unless it is one of these slips (`Comparison.Slip`):

* an integer without bounds is never found equal to a value of another kind;
* texts are ordered by code points and not by units;
* a text beside a value of another kind is misread.

Values that are converted are compared by their places on the line, so that a known answer can only be
wrong by a conversion, and only that of texts is (`Comparison.numbers_right_iff_not_slip`).
-/

namespace SchemaDoc

open Numeral

namespace Comparison

open Primitive

/-! ### Slips -/

/-- **The comparisons that are answered wrongly.** -/
inductive Slip (c : Comparison) : Primitive → Primitive → Prop
  /-- An integer without bounds is equal to a value of another kind. -/
  | integer {a b : Primitive} (hc : c.isLoose = true) (hab : a.isInteger ≠ b.isInteger)
    (h : LooselyEqual a b) : Slip c a b
  /-- The order of two texts is not that of their code points. -/
  | units {s t : String} (hc : c.isRelational = true) (h : Text.Crosses s.toList t.toList) :
    Slip c (str s) (str t)
  /-- A text is misread, and it makes a difference whether it stands for that number or for a NaN. -/
  | left {s : String} {b : Primitive} {x : Double} (hc : (c.isLoose || c.isRelational) = true)
    (hb : b.isText = false ∧ b.isInteger = false) (hs : Misread s.toList x)
    (h : ¬(c.Holds (num x) b ↔ c.Holds (num Double.nan) b)) : Slip c (str s) b
  | right {a : Primitive} {t : String} {y : Double} (hc : (c.isLoose || c.isRelational) = true)
    (ha : a.isText = false ∧ a.isInteger = false) (ht : Misread t.toList y)
    (h : ¬(c.Holds a (num y) ↔ c.Holds a (num Double.nan))) : Slip c a (str t)

end Comparison

/-! ### Conversion -/

namespace Primitive

variable {a b : Primitive}

/-- The place on the line that a value is converted to when it is evaluated. -/
def Converts (a : Primitive) (q : Quantity) : Prop :=
  ∃ x, a.toValue.number? = some x ∧ x.isNaN = false ∧ x.quantity = q

/-- Only integers without bounds are converted to no number. -/
theorem exists_number? (ha : a.isInteger = false) : ∃ x, a.toValue.number? = some x := by
  cases a with
  | bigint n => cases ha
  | _ => exact ⟨_, rfl⟩

theorem number?_eq_none (ha : a.isInteger = true) : a.toValue.number? = none := by
  cases a with
  | bigint n => rfl
  | _ => cases ha

theorem eq_str_of_isText (h : a.isText = true) : ∃ s, a = .str s := by
  cases a with
  | str s => exact ⟨s, rfl⟩
  | _ => cases h

/-- But for texts the conversions agree. -/
theorem converts_iff (ht : a.isText = false) (hi : a.isInteger = false) {q : Quantity} :
    a.Converts q ↔ Numeric a q := by
  cases a with
  | null =>
    constructor
    · rintro ⟨x, ⟨⟩, -, rfl⟩
      exact Double.quantity_zero false ▸ .null
    · rintro ⟨⟩
      exact ⟨_, rfl, by decide, Double.quantity_zero false⟩
  | bool b =>
    have hquantity : (if b then Double.ofNat 1 else Double.zero false).quantity =
        .ofRat (if b then 1 else 0) := by
      cases b
      · exact Double.quantity_zero false
      · exact Double.quantity_one
    constructor
    · rintro ⟨x, ⟨⟩, -, rfl⟩
      exact hquantity ▸ .bool b
    · rintro ⟨⟩
      refine ⟨_, rfl, ?_, hquantity⟩
      cases b <;> decide +kernel
  | num x =>
    constructor
    · rintro ⟨x, ⟨⟩, hnan, rfl⟩
      exact .num hnan
    · rintro ⟨⟩
      exact ⟨x, rfl, ‹_›, rfl⟩
  | str s => cases ht
  | bigint n => cases hi

theorem converts_str_iff {s : String} {q : Quantity} :
    (str s).Converts q ↔ ∃ x, Reads s.toList x ∧ x.quantity = q := by
  constructor
  · rintro ⟨x, hx, hnan, hq⟩
    cases hx
    exact ⟨_, (ofText_eq_iff hnan).mp rfl, hq⟩
  · rintro ⟨x, hx, hq⟩
    have hnan := hx.isNaN_eq_false
    exact ⟨x, congrArg some ((ofText_eq_iff hnan).mpr hx), hnan, hq⟩

theorem numeric_str_iff {s : String} {q : Quantity} :
    Numeric (str s) q ↔ ∃ x, ScriptReads s.toList x ∧ x.quantity = q := by
  constructor
  · rintro ⟨⟩
    exact ⟨_, ‹_›, rfl⟩
  · rintro ⟨x, hx, rfl⟩
    exact .str hx

/-- A text is converted to the right place, as far as some property of it goes, unless it is
misread as a number with that property. -/
theorem exists_converts_iff {s : String} (T : Quantity → Prop) :
    ((∃ q, (str s).Converts q ∧ T q) ↔ ∃ q, Numeric (str s) q ∧ T q) ↔
      ¬∃ x, Misread s.toList x ∧ T x.quantity := by
  have hplace (P : Double → Prop) :
      (∃ q, (∃ x, P x ∧ x.quantity = q) ∧ T q) ↔ ∃ x, P x ∧ T x.quantity := by
    constructor
    · rintro ⟨q, ⟨x, hx, rfl⟩, hT⟩
      exact ⟨x, hx, hT⟩
    · rintro ⟨x, hx, hT⟩
      exact ⟨_, ⟨x, hx, rfl⟩, hT⟩
  simp only [converts_str_iff, numeric_str_iff, hplace]
  exact exists_reads_iff fun x => T x.quantity

theorem converts_iff_of_number? {x : Double} (h : a.toValue.number? = some x) {q : Quantity} :
    a.Converts q ↔ x.isNaN = false ∧ x.quantity = q := by
  constructor
  · rintro ⟨y, hy, hnan, hq⟩
    cases h.symm.trans hy
    exact ⟨hnan, hq⟩
  · rintro ⟨hnan, hq⟩
    exact ⟨x, h, hnan, hq⟩

end Primitive

/-! ### Answers -/

namespace Comparison

open Primitive

variable {a b : Primitive}

/-- The outcomes that make a comparison true. -/
def test : Comparison → Ordering → Bool
  | lt => (·.isLT)
  | le => (·.isLE)
  | gt => (·.isGT)
  | ge => (·.isGE)
  | _ => (·.isEq)

theorem test_cmp {α : Type} [LinearOrder α] (c : Comparison) (p q : α) :
    c.test (cmp p q) = true ↔ c.Relates p q := by
  rcases lt_trichotomy p q with h | rfl | h
  · rw [(cmp_eq_lt_iff p q).mpr h]
    cases c <;> simp [test, Relates, h, h.le, h.not_gt, h.ne]
  · rw [cmp_self_eq_eq]
    cases c <;> simp [test, Relates]
  · rw [(cmp_eq_gt_iff p q).mpr h]
    cases c <;> simp [test, Relates, h, h.le, h.not_gt, h.ne']

/-- A comparison of doubles compares their places on the line. -/
theorem any_compare? (c : Comparison) (x y : Double) :
    (x.compare? y).any c.test = true ↔
      x.isNaN = false ∧ y.isNaN = false ∧ c.Relates x.quantity y.quantity := by
  by_cases hnan : x.isNaN = false ∧ y.isNaN = false
  · rw [Double.compare?_eq hnan.1 hnan.2, Option.any_some, test_cmp]
    exact ⟨fun h => ⟨hnan.1, hnan.2, h⟩, fun h => h.2.2⟩
  · have hnone : x.compare? y = none := by
      rw [Double.compare?, if_pos]
      rwa [← Bool.not_eq_false, Bool.or_eq_false_iff]
    rw [hnone]
    exact iff_of_false Bool.false_ne_true fun h => hnan ⟨h.1, h.2.1⟩

/-- Both sides are converted, and the answer is about their places. -/
theorem exists_answer (c : Comparison) (ha : a.isInteger = false) (hb : b.isInteger = false) :
    ∃ x y, a.toValue.number? = some x ∧ b.toValue.number? = some y ∧
      ((x.compare? y).any c.test = true ↔ ∃ p q, a.Converts p ∧ b.Converts q ∧ c.Relates p q) := by
  obtain ⟨x, hx⟩ := exists_number? ha
  obtain ⟨y, hy⟩ := exists_number? hb
  refine ⟨x, y, hx, hy, ?_⟩
  rw [any_compare?]
  constructor
  · rintro ⟨hnx, hny, h⟩
    exact ⟨_, _, (converts_iff_of_number? hx).mpr ⟨hnx, rfl⟩,
      (converts_iff_of_number? hy).mpr ⟨hny, rfl⟩, h⟩
  · rintro ⟨p, q, hp, hq, h⟩
    obtain ⟨hnx, rfl⟩ := (converts_iff_of_number? hx).mp hp
    obtain ⟨hny, rfl⟩ := (converts_iff_of_number? hy).mp hq
    exact ⟨hnx, hny, h⟩

theorem binary_relational {c : Comparison} (hc : c.isRelational = true) (v w : Value) :
    Value.binary c.op v w = Value.ofBool? ((Value.compare? v w).map (·.any c.test)) := by
  have hanswer (test : Ordering → Bool) :
      Value.compares? test v w = (Value.compare? v w).map (·.any test) := by
    rw [Value.compares?]
    congr 1
    funext o
    cases o <;> rfl
  rw [← hanswer]
  cases c with
  | lt => rfl
  | le => rfl
  | gt => rfl
  | ge => rfl
  | _ => cases hc

/-! ### Right and wrong answers -/

/-- A text on the left is compared wrongly if it is misread as a number that makes the comparison
true. -/
theorem slip_left_iff {c : Comparison} {s : String} (h : c.Converting (.str s) b)
    (hb : b.isInteger = false) :
    c.Slip (.str s) b ↔
      ∃ x, Misread s.toList x ∧ ∃ q, Numeric b q ∧ c.Relates x.quantity q := by
  have hnan : ¬c.Holds (.num Double.nan) b := by
    rw [holds_num_left_iff (h.num_left Double.nan)]
    exact fun hnan => absurd hnan.1 (by decide)
  have hbt := h.not_isText
  constructor
  · intro hslip
    cases hslip with
    | integer _ hab _ => exact absurd hb.symm hab
    | units _ _ => cases hbt
    | left _ _ hs hdiffers =>
      refine ⟨_, hs, ?_⟩
      by_contra hnone
      refine hdiffers (iff_of_false ?_ hnan)
      rw [holds_num_left_iff (h.num_left _)]
      exact fun hholds => hnone hholds.2
    | right _ _ _ _ => cases hbt
  · rintro ⟨x, hs, hrelates⟩
    refine .left h.notStrict ⟨hbt, hb⟩ hs fun hiff => hnan (hiff.mp ?_)
    exact (holds_num_left_iff (h.num_left x)).mpr ⟨hs.isNaN_eq_false, hrelates⟩

theorem not_slip {c : Comparison} (hab : a.isInteger = b.isInteger) (ha : a.isText = false)
    (hb : b.isText = false) : ¬c.Slip a b := by
  intro hslip
  cases hslip with
  | integer _ hne _ => exact hne hab
  | units _ _ => cases ha
  | left _ _ _ _ => cases ha
  | right _ _ _ _ => cases hb

theorem Slip.swap {c : Comparison} (h : c.Slip a b) : c.swap.Slip b a := by
  have hswap : (c.swap.isLoose || c.swap.isRelational) = (c.isLoose || c.isRelational) := by
    rw [isLoose_swap, isRelational_swap]
  cases h with
  | integer hc hab h => exact .integer (by rwa [isLoose_swap]) hab.symm (looselyEqual_symm h)
  | units hc h => exact .units (by rwa [isRelational_swap]) h.symm
  | left hc hb hs h =>
    refine .right (hswap.trans hc) hb hs ?_
    rwa [holds_swap hc, holds_swap hc]
  | right hc ha ht h =>
    refine .left (hswap.trans hc) ha ht ?_
    rwa [holds_swap hc, holds_swap hc]

theorem slip_swap_iff {c : Comparison} : c.swap.Slip b a ↔ c.Slip a b := by
  refine ⟨fun h => ?_, Slip.swap⟩
  rw [← c.swap_swap]
  exact h.swap

/-- A comparison of a text with a value of another kind is answered rightly unless the text is
misread. -/
theorem text_right_iff_not_slip {c : Comparison} {s : String} (h : c.Converting (.str s) b)
    (hb : b.isInteger = false) :
    ((∃ p q, (str s).Converts p ∧ b.Converts q ∧ c.Relates p q) ↔ c.Holds (.str s) b) ↔
      ¬c.Slip (.str s) b := by
  simp only [holds_iff h, slip_left_iff h hb, converts_iff h.not_isText hb, exists_and_left]
  exact exists_converts_iff fun p => ∃ q, Numeric b q ∧ c.Relates p q

/-- **Comparisons of numbers** are answered rightly but for misread texts. -/
theorem numbers_right_iff_not_slip {c : Comparison} (h : c.Converting a b) (ha : a.isInteger = false)
    (hb : b.isInteger = false) :
    ((∃ p q, a.Converts p ∧ b.Converts q ∧ c.Relates p q) ↔ c.Holds a b) ↔ ¬c.Slip a b := by
  cases hat : a.isText with
  | true =>
    obtain ⟨s, rfl⟩ := eq_str_of_isText hat
    exact text_right_iff_not_slip h hb
  | false =>
    cases hbt : b.isText with
    | true =>
      obtain ⟨t, rfl⟩ := eq_str_of_isText hbt
      have hswap : (∃ p q, a.Converts p ∧ (str t).Converts q ∧ c.Relates p q) ↔
          ∃ q p, (str t).Converts q ∧ a.Converts p ∧ c.swap.Relates q p := by
        simp only [relates_swap]
        constructor
        · rintro ⟨p, q, hp, hq, hrelates⟩
          exact ⟨q, p, hq, hp, hrelates⟩
        · rintro ⟨q, p, hq, hp, hrelates⟩
          exact ⟨p, q, hp, hq, hrelates⟩
      -- Read from right to left, the text is on the left.
      rw [hswap, ← slip_swap_iff, ← holds_swap h.notStrict]
      exact text_right_iff_not_slip h.swap ha
    | false =>
      simp only [holds_iff h, converts_iff hat ha, converts_iff hbt hb]
      exact iff_of_true trivial (not_slip (ha.trans hb.symm) hat hbt)

/-! ### Texts -/

theorem compareText_eq (s t : String) : Value.compareText s t = cmp s t := by
  rw [Value.compareText]
  rcases lt_trichotomy s t with h | rfl | h
  · rw [if_pos h, (cmp_eq_lt_iff s t).mpr h]
  · rw [if_neg (lt_irrefl s), beq_self_eq_true, if_pos rfl, cmp_self_eq_eq]
  · rw [if_neg h.not_gt, beq_false_of_ne h.ne', if_neg Bool.false_ne_true,
      (cmp_eq_gt_iff s t).mpr h]

theorem slip_texts_iff {c : Comparison} {s t : String} :
    c.Slip (.str s) (.str t) ↔ c.isRelational = true ∧ Text.Crosses s.toList t.toList := by
  constructor
  · intro hslip
    cases hslip with
    | integer _ hne _ => exact absurd rfl hne
    | units hc h => exact ⟨hc, h⟩
    | left _ hb _ _ => cases hb.1
    | right _ ha _ _ => cases ha.1
  · rintro ⟨hc, h⟩
    exact .units hc h

/-- **Comparisons of texts** are answered rightly unless the texts cross. -/
theorem relates_texts_iff {c : Comparison} (hc : c.isRelational = true) {s t : String} :
    (c.Relates s t ↔ c.Holds (.str s) (.str t)) ↔ ¬c.Slip (.str s) (.str t) := by
  have hlt {s t : String} : Text.textUnits s.toList < Text.textUnits t.toList ↔
      (s < t ↔ ¬Text.Crosses s.toList t.toList) := by
    rw [Text.textUnits_lt_iff, String.lt_iff_toList_lt]
  have hsymm : Text.Crosses t.toList s.toList ↔ Text.Crosses s.toList t.toList :=
    ⟨.symm, .symm⟩
  rw [holds_texts_iff hc, slip_texts_iff, and_iff_right hc]
  cases c with
  | lt =>
    rw [Relates, Relates, hlt]
    tauto
  | le =>
    rw [Relates, Relates, ← not_lt, ← not_lt, hlt, hsymm]
    tauto
  | gt =>
    rw [Relates, Relates, hlt, hsymm]
    tauto
  | ge =>
    rw [Relates, Relates, ← not_lt, ← not_lt, hlt]
    tauto
  | _ => cases hc

/-! ### Order -/

theorem asNumbers_of_isText_eq_false (ha : a.isInteger = false) (hb : b.isInteger = false)
    (h : a.isText = false ∨ b.isText = false) : AsNumbers a b := by
  cases a <;> cases b <;> simp_all [AsNumbers, isInteger, isText]

/-- Values that are not both texts are compared by the numbers that they are converted to. -/
theorem compare?_eq_of_not_texts (h : a.isText = false ∨ b.isText = false) :
    Value.compare? a.toValue b.toValue =
      a.toValue.number?.bind fun x => b.toValue.number?.map fun y => x.compare? y := by
  cases a with
  | str s =>
    cases b with
    | str t => simp [isText] at h
    | _ => rfl
  | _ => rfl

theorem eq_bigint_of_isInteger (h : a.isInteger = true) : ∃ n, a = .bigint n := by
  cases a with
  | bigint n => exact ⟨n, rfl⟩
  | _ => cases h

theorem isText_of_isInteger (h : a.isInteger = true) : a.isText = false := by
  cases a with
  | bigint n => rfl
  | _ => cases h

theorem compare?_eq_none (h : a.isInteger = true ∨ b.isInteger = true) :
    Value.compare? a.toValue b.toValue = none := by
  rw [compare?_eq_of_not_texts (h.imp isText_of_isInteger isText_of_isInteger)]
  obtain h | h := h
  · rw [number?_eq_none h, Option.bind_none]
  · simp only [number?_eq_none h, Option.map_none, Option.bind_fun_none]

theorem exists_relational {c : Comparison} (hc : c.isRelational = true)
    (ha : a.isInteger = false) (hb : b.isInteger = false) :
    ∃ r, Value.binary c.op a.toValue b.toValue = .bool r ∧
      ((r = true ↔ c.Holds a b) ↔ ¬c.Slip a b) := by
  rw [binary_relational hc]
  by_cases htexts : a.isText = false ∨ b.isText = false
  · obtain ⟨x, y, hx, hy, hanswer⟩ := exists_answer c ha hb
    refine ⟨(x.compare? y).any c.test, ?_, ?_⟩
    · rw [compare?_eq_of_not_texts htexts, hx, hy]
      rfl
    · rw [hanswer]
      exact numbers_right_iff_not_slip ⟨asNumbers_of_isText_eq_false ha hb htexts, .inl hc⟩ ha hb
  · rw [not_or, Bool.not_eq_false, Bool.not_eq_false] at htexts
    obtain ⟨s, rfl⟩ := eq_str_of_isText htexts.1
    obtain ⟨t, rfl⟩ := eq_str_of_isText htexts.2
    refine ⟨c.test (cmp s t), ?_, ?_⟩
    · rw [← compareText_eq]
      rfl
    · rw [test_cmp]
      exact relates_texts_iff hc

/-! ### Equality -/

theorem equals_eq (x y : Double) : x.equals y = (x.compare? y).any eq.test := by
  rw [Double.equals]
  rcases x.compare? y with _ | o
  · rfl
  · cases o <;> rfl

theorem toList_repr (n : ℤ) :
    n.repr.toList = (if n < 0 then ['-'] else []) ++ Nat.toDigits 10 n.natAbs := by
  have hnat (k : Nat) : k.repr.toList = Nat.toDigits 10 k := by
    rw [Nat.repr_eq_ofList_toDigits, String.toList_ofList]
  cases n with
  | ofNat n => exact hnat n
  | negSucc n =>
    rw [Int.repr, String.toList_append, hnat, if_pos (Int.negSucc_lt_zero n)]
    rfl

theorem toDigits_inj {n m : Nat} (h : Nat.toDigits 10 n = Nat.toDigits 10 m) : n = m := by
  rw [← natural_toDigits n, h, natural_toDigits]

/-- An integer is determined by its decimal text. -/
theorem repr_inj {n m : ℤ} : n.repr = m.repr ↔ n = m := by
  have hminus (k : Nat) : '-' ∉ Nat.toDigits 10 k :=
    fun hmem => absurd (allDigits_toDigits k '-' hmem) (by decide)
  constructor
  · intro h
    have hchars := congrArg String.toList h
    rw [toList_repr, toList_repr] at hchars
    split_ifs at hchars with hn hm hm
    · have habs := toDigits_inj (List.append_cancel_left hchars)
      omega
    · refine absurd ?_ (hminus m.natAbs)
      rw [List.nil_append] at hchars
      exact hchars ▸ List.mem_cons_self
    · refine absurd ?_ (hminus n.natAbs)
      rw [List.nil_append] at hchars
      exact hchars ▸ List.mem_cons_self
    · have habs := toDigits_inj (List.append_cancel_left hchars)
      omega
  · rintro rfl
    rfl

theorem exists_strictEquals? (a b : Primitive) :
    ∃ r, Value.strictEquals? a.toValue b.toValue = some r ∧ (r = true ↔ StrictlyEqual a b) := by
  cases a with
  | null =>
    cases b with
    | null => exact ⟨true, rfl, iff_of_true rfl .null⟩
    | _ => exact ⟨false, rfl, iff_of_false Bool.false_ne_true (by rintro ⟨⟩)⟩
  | bool x =>
    cases b with
    | bool y =>
      refine ⟨x == y, rfl, beq_iff_eq.trans ⟨?_, ?_⟩⟩
      · rintro rfl
        exact .bool x
      · rintro ⟨⟩
        rfl
    | _ => exact ⟨false, rfl, iff_of_false Bool.false_ne_true (by rintro ⟨⟩)⟩
  | num x =>
    cases b with
    | num y =>
      refine ⟨x.equals y, rfl, ?_⟩
      rw [equals_eq, any_compare?]
      constructor
      · rintro ⟨hx, hy, h⟩
        exact .num hx hy h
      · intro h
        cases h with
        | num hx hy h => exact ⟨hx, hy, h⟩
    | _ => exact ⟨false, rfl, iff_of_false Bool.false_ne_true (by rintro ⟨⟩)⟩
  | str s =>
    cases b with
    | str t =>
      refine ⟨s == t, rfl, beq_iff_eq.trans ⟨?_, ?_⟩⟩
      · rintro rfl
        exact .str s
      · rintro ⟨⟩
        rfl
    | _ => exact ⟨false, rfl, iff_of_false Bool.false_ne_true (by rintro ⟨⟩)⟩
  | bigint n =>
    cases b with
    | bigint m =>
      refine ⟨n.repr == m.repr, rfl, (beq_iff_eq.trans repr_inj).trans ⟨?_, ?_⟩⟩
      · rintro rfl
        exact .bigint n
      · rintro ⟨⟩
        rfl
    | _ => exact ⟨false, rfl, iff_of_false Bool.false_ne_true (by rintro ⟨⟩)⟩

/-- Beside a value of another kind an integer without bounds is never found equal. -/
theorem looseEquals?_mixed (h : a.isInteger ≠ b.isInteger) :
    Value.looseEquals? a.toValue b.toValue = some false := by
  cases a with
  | bigint n =>
    cases b with
    | bigint m => exact absurd rfl h
    | _ => rfl
  | _ =>
    cases b with
    | bigint m => rfl
    | _ => exact absurd rfl h

theorem slip_mixed_iff (hab : a.isInteger ≠ b.isInteger) : eq.Slip a b ↔ LooselyEqual a b := by
  constructor
  · intro hslip
    cases hslip with
    | integer _ _ h => exact h
    | units hc _ => cases hc
    | left _ hb _ _ => exact absurd hb.2.symm hab
    | right _ ha _ _ => exact absurd ha.2 hab
  · exact .integer rfl hab

/-- Nothing but null is equal to null, and no reading of a text changes that. -/
theorem not_slip_null_left (hb : b.isInteger = false) : ¬eq.Slip .null b := by
  intro hslip
  cases hslip with
  | integer _ hne _ => exact hne hb.symm
  | right _ _ _ h =>
    exact h (iff_of_false (not_looselyEqual_null_left (by rintro ⟨⟩))
      (not_looselyEqual_null_left (by rintro ⟨⟩)))

/-- Values other than null and texts are equal if the numbers are that they are converted to. -/
theorem looseEquals?_eq_of_not_texts (ha : a.isInteger = false) (hb : b.isInteger = false)
    (ha' : a ≠ .null) (hb' : b ≠ .null) (h : a.isText = false ∨ b.isText = false) :
    Value.looseEquals? a.toValue b.toValue = Value.numericEquals? a.toValue b.toValue := by
  cases a <;> cases b <;> simp_all [isInteger, isText] <;> rfl

theorem looseEquals?_null_left (hb : b.isInteger = false) (hb' : b ≠ .null) :
    Value.looseEquals? .null b.toValue = some false := by
  cases b with
  | null => exact absurd rfl hb'
  | bigint n => cases hb
  | _ => rfl

theorem looseEquals?_null_right (ha : a.isInteger = false) (ha' : a ≠ .null) :
    Value.looseEquals? a.toValue .null = some false := by
  cases a with
  | null => exact absurd rfl ha'
  | bigint n => cases ha
  | _ => rfl

/-- Without integers without bounds, loose equality is answered rightly but for misread texts. -/
theorem exists_looseEquals?_of_not_integer (ha : a.isInteger = false) (hb : b.isInteger = false) :
    ∃ r, Value.looseEquals? a.toValue b.toValue = some r ∧
      ((r = true ↔ LooselyEqual a b) ↔ ¬eq.Slip a b) := by
  by_cases ha' : a = .null
  · subst ha'
    by_cases hb' : b = .null
    · subst hb'
      exact ⟨true, rfl, iff_of_true (iff_of_true rfl .null) (not_slip_null_left rfl)⟩
    · have hfalse := not_looselyEqual_null_left hb'
      exact ⟨false, looseEquals?_null_left hb hb',
        iff_of_true (iff_of_false Bool.false_ne_true hfalse) (not_slip_null_left hb)⟩
  by_cases hb' : b = .null
  · subst hb'
    have hfalse := fun h => not_looselyEqual_null_left ha' (looselyEqual_symm h)
    exact ⟨false, looseEquals?_null_right ha ha', iff_of_true
      (iff_of_false Bool.false_ne_true hfalse) fun h => not_slip_null_left ha h.swap⟩
  by_cases htexts : a.isText = false ∨ b.isText = false
  · obtain ⟨x, y, hx, hy, hanswer⟩ := exists_answer eq ha hb
    refine ⟨x.equals y, ?_, ?_⟩
    · rw [looseEquals?_eq_of_not_texts ha hb ha' hb' htexts, Value.numericEquals?, hx, hy]
      rfl
    · have hab := asNumbers_of_isText_eq_false ha hb htexts
      rw [equals_eq, hanswer]
      exact numbers_right_iff_not_slip ⟨hab, .inr ⟨rfl, ha', hb'⟩⟩ ha hb
  · rw [not_or, Bool.not_eq_false, Bool.not_eq_false] at htexts
    obtain ⟨s, rfl⟩ := eq_str_of_isText htexts.1
    obtain ⟨t, rfl⟩ := eq_str_of_isText htexts.2
    refine ⟨s == t, rfl, ?_⟩
    rw [beq_iff_eq, looselyEqual_texts_iff, slip_texts_iff]
    exact iff_of_true Iff.rfl fun h => Bool.false_ne_true h.1

theorem exists_looseEquals? (a b : Primitive) :
    ∃ r, Value.looseEquals? a.toValue b.toValue = some r ∧
      ((r = true ↔ LooselyEqual a b) ↔ ¬eq.Slip a b) := by
  by_cases hmixed : a.isInteger ≠ b.isInteger
  -- The answer is no without any conversion, so that it is wrong whenever the values are equal.
  · refine ⟨false, looseEquals?_mixed hmixed, ?_⟩
    rw [slip_mixed_iff hmixed]
    simp
  rw [not_not] at hmixed
  cases hint : a.isInteger with
  | true =>
    obtain ⟨n, rfl⟩ := eq_bigint_of_isInteger hint
    obtain ⟨m, rfl⟩ := eq_bigint_of_isInteger (hmixed ▸ hint)
    refine ⟨n.repr == m.repr, rfl, ?_⟩
    rw [beq_iff_eq, repr_inj, looselyEqual_integers_iff]
    exact iff_of_true Iff.rfl (not_slip rfl rfl rfl)
  | false => exact exists_looseEquals?_of_not_integer hint (hmixed ▸ hint)

theorem slip_notEq_iff : notEq.Slip a b ↔ eq.Slip a b := by
  constructor
  · intro h
    cases h with
    | integer _ hab h => exact .integer rfl hab h
    | units hc _ => cases hc
    | left _ hb hs h => exact .left rfl hb hs fun hiff => h (not_congr hiff)
    | right _ ha ht h => exact .right rfl ha ht fun hiff => h (not_congr hiff)
  · intro h
    cases h with
    | integer _ hab h => exact .integer rfl hab h
    | units hc _ => cases hc
    | left _ hb hs h => exact .left rfl hb hs fun hiff => h (not_iff_not.mp hiff)
    | right _ ha ht h => exact .right rfl ha ht fun hiff => h (not_iff_not.mp hiff)

theorem not_slip_strict {c : Comparison} (hc : (c.isLoose || c.isRelational) = false) :
    ¬c.Slip a b := by
  rw [Bool.or_eq_false_iff] at hc
  intro h
  cases h with
  | integer h _ _ => exact Bool.false_ne_true (hc.1.symm.trans h)
  | units h _ => exact Bool.false_ne_true (hc.2.symm.trans h)
  | left h _ _ _ => simp [hc] at h
  | right h _ _ _ => simp [hc] at h

/-- **Known comparisons are right unless they slip.** Whether one primitive value stands in some
relation to another is unknown exactly if it is about the order and one of them is an integer without
bounds. Otherwise the answer is known, and it is the right one exactly if the comparison does not
slip. -/
theorem known_comparisons_are_right_unless_they_slip (c : Comparison) (a b : Primitive) :
    if c.isRelational = true ∧ (a.isInteger = true ∨ b.isInteger = true) then
      Value.binary c.op a.toValue b.toValue = .unknown
    else
      ∃ r, Value.binary c.op a.toValue b.toValue = .bool r ∧
        ((r = true ↔ c.Holds a b) ↔ ¬c.Slip a b) := by
  split
  next h =>
    rw [binary_relational h.1, compare?_eq_none h.2]
    rfl
  next h =>
    cases c with
    | strictEq =>
      obtain ⟨r, hr, hiff⟩ := exists_strictEquals? a b
      exact ⟨r, congrArg Value.ofBool? hr, iff_of_true hiff (not_slip_strict rfl)⟩
    | strictNotEq =>
      obtain ⟨r, hr, hiff⟩ := exists_strictEquals? a b
      refine ⟨!r, congrArg (fun o : Option Bool => Value.ofBool? (o.map (!·))) hr,
        iff_of_true ?_ (not_slip_strict rfl)⟩
      rw [Bool.not_eq_true', ← Bool.not_eq_true]
      exact not_congr hiff
    | eq =>
      obtain ⟨r, hr, hiff⟩ := exists_looseEquals? a b
      exact ⟨r, congrArg Value.ofBool? hr, hiff⟩
    | notEq =>
      obtain ⟨r, hr, hiff⟩ := exists_looseEquals? a b
      refine ⟨!r, congrArg (fun o : Option Bool => Value.ofBool? (o.map (!·))) hr, ?_⟩
      rw [slip_notEq_iff, ← hiff, Bool.not_eq_true', ← Bool.not_eq_true]
      exact not_iff_not
    | _ =>
      simp only [isRelational, true_and, not_or, Bool.not_eq_true] at h
      exact exists_relational rfl h.1 h.2

/-- The number one is equal to the integer one, but they are known not to be equal. -/
theorem not_every_known_comparison_is_right :
    ¬∀ (c : Comparison) (a b : Primitive) (r : Bool),
      Value.binary c.op a.toValue b.toValue = .bool r → (r = true ↔ c.Holds a b) := by
  intro h
  have hnumber : Numeric (.num (Double.ofNat 1)) (.ofRat (1 : ℤ)) := by
    rw [Int.cast_one, ← Double.quantity_one]
    exact .num (by decide +kernel)
  have hequal : LooselyEqual (.num (Double.ofNat 1)) (.bigint 1) :=
    .numbers (by rintro ⟨⟩) (by rintro ⟨⟩) trivial hnumber (.bigint 1)
  exact Bool.false_ne_true ((h eq _ _ false rfl).mpr hequal)

end Comparison

end SchemaDoc
