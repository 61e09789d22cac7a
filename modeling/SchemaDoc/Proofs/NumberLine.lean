import Mathlib.Order.Compare
import Mathlib.Order.WithBot
import SchemaDoc.Proofs.Numerals

/-!
# Numbers on the line

A double other than a NaN stands on the line of rational numbers or at one of its ends
(`Double.quantity`). The two zeros stand at one place. Doubles are compared by their positions in
the sequence of doubles, and that is how their places on the line compare (`Double.compare?_eq`).
-/

namespace SchemaDoc

/-- The rational numbers between two infinities. -/
abbrev Quantity : Type := WithBot (WithTop ℚ)

/-- A rational number on the line. -/
def Quantity.ofRat (q : ℚ) : Quantity := ((q : WithTop ℚ) : WithBot (WithTop ℚ))

namespace Double

/-- The rational number that a finite double stands for. -/
def signedMagnitude (x : Double) : ℚ :=
  if x.negative then -magnitude x.rank else magnitude x.rank

/-- Where a double other than a NaN stands. -/
def quantity (x : Double) : Quantity :=
  if x.isInfinite then if x.negative then ⊥ else ⊤ else .ofRat x.signedMagnitude

theorem magnitude_pos {r : Nat} (hr : 0 < r) : 0 < magnitude r := by
  rw [← magnitude_zero]
  exact magnitude_strictMono hr

theorem signedMagnitude_lt {x y : Double} (h : x.position < y.position) :
    x.signedMagnitude < y.signedMagnitude := by
  rw [position, position] at h
  rw [signedMagnitude, signedMagnitude]
  split_ifs at h ⊢
  · exact neg_lt_neg (magnitude_strictMono (by omega))
  · rcases Nat.eq_zero_or_pos x.rank with hzero | hpos
    · rw [hzero, magnitude_zero, neg_zero]
      exact magnitude_pos (by omega)
    · exact (neg_neg_of_pos (magnitude_pos hpos)).trans_le (magnitude_nonneg y.rank)
  · omega
  · exact magnitude_strictMono (by omega)

theorem natAbs_position (x : Double) : x.position.natAbs = x.rank := by
  rw [position]
  split <;> omega

theorem quantity_of_ne {x : Double} (h : x.rank ≠ infinityRank) :
    x.quantity = .ofRat x.signedMagnitude := by
  rw [quantity, isInfinite, beq_false_of_ne h, if_neg Bool.false_ne_true]

theorem quantity_of_eq {x : Double} (h : x.rank = infinityRank) :
    x.quantity = if x.negative then ⊥ else ⊤ := by
  rw [quantity, isInfinite, beq_iff_eq.mpr h, if_pos rfl]

theorem quantity_eq_bot_iff {x : Double} : x.quantity = ⊥ ↔ x.position = -infinityRank := by
  have hpos : 0 < infinityRank := by decide
  have habs := x.natAbs_position
  by_cases h : x.rank = infinityRank
  · rw [quantity_of_eq h, position, h]
    split
    · exact iff_of_true rfl rfl
    · exact iff_of_false top_ne_bot (by omega)
  · rw [quantity_of_ne h]
    exact iff_of_false WithBot.coe_ne_bot (by omega)

theorem quantity_eq_top_iff {x : Double} : x.quantity = ⊤ ↔ x.position = infinityRank := by
  have hpos : 0 < infinityRank := by decide
  have habs := x.natAbs_position
  by_cases h : x.rank = infinityRank
  · rw [quantity_of_eq h, position, h]
    split
    · exact iff_of_false bot_ne_top (by omega)
    · exact iff_of_true rfl rfl
  · rw [quantity_of_ne h]
    refine iff_of_false ?_ (by omega)
    exact fun htop => WithTop.coe_ne_top (WithBot.coe_injective htop)

/-- The places of doubles on the line are in the order of their positions. -/
theorem quantity_lt {x y : Double} (hx : x.isNaN = false) (hy : y.isNaN = false)
    (h : x.position < y.position) : x.quantity < y.quantity := by
  have hx' := le_infinityRank hx
  have hy' := le_infinityRank hy
  have hxpos := x.natAbs_position
  have hypos := y.natAbs_position
  -- Only the ends of the line are reached by no rational number.
  by_cases hbot : x.position = -infinityRank
  · rw [quantity_eq_bot_iff.mpr hbot, bot_lt_iff_ne_bot, ne_eq, quantity_eq_bot_iff]
    omega
  by_cases htop : y.position = infinityRank
  · rw [quantity_eq_top_iff.mpr htop, lt_top_iff_ne_top, ne_eq, quantity_eq_top_iff]
    omega
  have hxne : x.rank ≠ infinityRank := by omega
  have hyne : y.rank ≠ infinityRank := by omega
  rw [quantity_of_ne hxne, quantity_of_ne hyne]
  exact WithBot.coe_lt_coe.mpr (WithTop.coe_lt_coe.mpr (signedMagnitude_lt h))

/-- Zero has one place on the line, whatever its sign. -/
theorem quantity_eq {x y : Double} (h : x.position = y.position) : x.quantity = y.quantity := by
  have hrank : x.rank = y.rank := by rw [← x.natAbs_position, h, y.natAbs_position]
  by_cases hnegative : x.negative = y.negative
  · rw [quantity, quantity, isInfinite, isInfinite, signedMagnitude, signedMagnitude, hrank,
      hnegative]
  · have hzero : y.rank = 0 := by
      rw [position, position, hrank] at h
      split_ifs at h with hx hy hy
      · exact absurd (hx.trans hy.symm) hnegative
      · omega
      · omega
      · rw [Bool.not_eq_true] at hx hy
        exact absurd (hx.trans hy.symm) hnegative
    have hfinite : (0 : Nat) ≠ infinityRank := by decide
    rw [hzero] at hrank
    rw [quantity_of_ne (hrank.trans_ne hfinite), quantity_of_ne (hzero.trans_ne hfinite),
      signedMagnitude, signedMagnitude, hrank, hzero, magnitude_zero, neg_zero, ite_self, ite_self]

/-- Comparing doubles compares their places on the line. -/
theorem compare?_eq {x y : Double} (hx : x.isNaN = false) (hy : y.isNaN = false) :
    x.compare? y = some (cmp x.quantity y.quantity) := by
  rw [compare?, hx, hy, Bool.or_false, if_neg Bool.false_ne_true]
  rcases lt_trichotomy x.position y.position with h | h | h
  · rw [(cmp_eq_lt_iff _ _).mpr (quantity_lt hx hy h), compare_lt_iff_lt.mpr h]
  · rw [(cmp_eq_eq_iff _ _).mpr (quantity_eq h), compare_eq_iff_eq.mpr h]
  · rw [(cmp_eq_gt_iff _ _).mpr (quantity_lt hy hx h), compare_gt_iff_gt.mpr h]

theorem quantity_zero (negative : Bool) : (zero negative).quantity = .ofRat 0 := by
  have hrank : (zero negative).rank = 0 := rank_ofRank negative 0
  have hfinite : (0 : Nat) ≠ infinityRank := by decide
  rw [quantity_of_ne (hrank.trans_ne hfinite), signedMagnitude, hrank, magnitude_zero, neg_zero,
    ite_self]

theorem quantity_one : (ofNat 1).quantity = .ofRat 1 := by
  have hrank : (ofNat 1).rank = 1022 * fractions + fractions := by decide +kernel
  have hnegative : (ofNat 1).negative = false := by decide +kernel
  have hfinite : 1022 * fractions + fractions ≠ infinityRank := by decide
  have hmagnitude : magnitude (1022 * fractions + fractions) = 1 := by
    rw [magnitude_block (.inr (Nat.le_refl _)) (by norm_num)]
    norm_num
  rw [quantity_of_ne (hrank.trans_ne hfinite), signedMagnitude, hnegative,
    if_neg Bool.false_ne_true, hrank, hmagnitude]

end Double

end SchemaDoc
