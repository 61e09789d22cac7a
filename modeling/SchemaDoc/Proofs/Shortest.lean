import SchemaDoc.Number.Notation
import SchemaDoc.Proofs.Rounding

/-!
# Shortest decimals

The decimal that a double is written with rounds to that double (`shortest_roundsTo`). It is either
exact or a point of a grid that lies in the interval of the double, and the interval holds only
numbers that round to the double: its ends are the midpoints to the two neighbours
(`roundsTo_of_contains`).

Rounding is monotone, and a power of ten is the shortest decimal of the double nearest to it. So the
place of the first digit goes by the rank (`le_leading_shortest_iff`), and with it the notation
(`leading_shortest_iff`).
-/

namespace SchemaDoc.Double

/-! ### Intervals -/

theorem scale_succ (p : Nat) : scale (p + 1) =
    scale p + if significand (p + 1) = fractions ∧ 2 * fractions ≤ p + 1 then 1 else 0 := by
  unfold scale significand
  simp only [fractions]
  split_ifs <;> omega

theorem significand_pos {r : Nat} (hr : 0 < r) : 0 < significand r := by
  unfold significand
  split <;> simp only [fractions] at * <;> omega

theorem interval_den_pos (r : Nat) : 0 < (interval r).den := scaled_pos Nat.one_pos _

/-- A quarter of the last place. -/
theorem interval_unit (r : Nat) :
    ((scaled 1 1 (scale r - 2)).1 / (interval r).den : ℚ) = 2 ^ scale r / 4 := by
  have h := ratio_scaled 1 Nat.one_pos (scale r - 2)
  rw [ratio] at h
  rw [interval, h, zpow_sub₀ (by norm_num)]
  norm_num

/-- The bounds of the interval of a rank are the midpoints around its magnitude. -/
theorem interval_hi (r : Nat) : ((interval r).hi / (interval r).den : ℚ) = midpoint r := by
  have hhi : (interval r).hi = (4 * significand r + 2) * (scaled 1 1 (scale r - 2)).1 := rfl
  rw [hhi, Nat.cast_mul, mul_div_assoc, interval_unit, midpoint, magnitude]
  push_cast
  ring

theorem interval_lo (p : Nat) :
    ((interval (p + 1)).lo / (interval (p + 1)).den : ℚ) = midpoint p := by
  have hlo : (interval (p + 1)).lo =
    (4 * significand (p + 1) - if significand (p + 1) == fractions && 2 * fractions ≤ p + 1 then 1
      else 2) * (scaled 1 1 (scale (p + 1) - 2)).1 := rfl
  have hmid : midpoint p = magnitude (p + 1) - 2 ^ scale p / 2 := by
    rw [magnitude_succ, midpoint]
    ring
  have hpos : 0 < significand (p + 1) := significand_pos (Nat.succ_pos p)
  rw [hlo, Nat.cast_mul, mul_div_assoc, interval_unit, hmid, magnitude]
  -- The lower neighbour of a power of two has the smaller scale, unless both are subnormal.
  by_cases hnarrow : significand (p + 1) = fractions ∧ 2 * fractions ≤ p + 1
  · rw [if_pos (by simpa using hnarrow), scale_succ, if_pos hnarrow, Nat.cast_sub (by omega),
      zpow_add_one₀ (by norm_num)]
    push_cast
    ring
  · rw [if_neg (by simpa using hnarrow), scale_succ, if_neg hnarrow, Nat.cast_sub (by omega),
      add_zero]
    push_cast
    ring

/-- **What is in the interval of a rank is rounded to it.** -/
theorem roundsTo_of_contains {r : Nat} (hr : 0 < r) {d : Decimal}
    (h : (interval r).contains d = true) : RoundsTo d.value r := by
  obtain ⟨p, rfl⟩ : ∃ p, r = p + 1 := ⟨r - 1, by omega⟩
  have hden : (0 : ℚ) < (interval (p + 1)).den := by exact_mod_cast interval_den_pos (p + 1)
  have hsnd : (0 : ℚ) < d.ratio.2 := by exact_mod_cast d.ratio_snd_pos
  unfold Interval.contains at h
  dsimp only at h
  split at h
  next hclosed =>
    have heven : (p + 1) % 2 = 0 := eq_of_beq hclosed
    rw [Bool.and_eq_true, decide_eq_true_eq, decide_eq_true_eq] at h
    have hlower : midpoint p ≤ d.value := by
      rw [← interval_lo, ← d.ratio_eq, div_le_div_iff₀ hden hsnd]
      exact_mod_cast h.1
    have hupper : d.value ≤ midpoint (p + 1) := by
      rw [← interval_hi, ← d.ratio_eq, div_le_div_iff₀ hsnd hden]
      exact_mod_cast h.2
    refine ⟨hupper, fun _ => heven, fun p' hp' => ?_, fun _ _ _ => heven⟩
    rwa [Nat.add_right_cancel hp']
  next =>
    rw [Bool.and_eq_true, decide_eq_true_eq, decide_eq_true_eq] at h
    have hlower : midpoint p < d.value := by
      rw [← interval_lo, ← d.ratio_eq, div_lt_div_iff₀ hden hsnd]
      exact_mod_cast h.1
    have hupper : d.value < midpoint (p + 1) := by
      rw [← interval_hi, ← d.ratio_eq, div_lt_div_iff₀ hsnd hden]
      exact_mod_cast h.2
    refine ⟨hupper.le, fun heq => absurd heq hupper.ne, fun p' hp' => ?_, fun p' hp' heq => ?_⟩
    · rw [Nat.add_right_cancel hp']
      exact hlower.le
    · rw [Nat.add_right_cancel hp'] at heq
      exact absurd heq hlower.ne

/-! ### The search -/

theorem onGrid_contains {r : Nat} {exponent : ℤ} {d : Decimal} (h : onGrid r exponent = some d) :
    (interval r).contains d = true := by
  unfold onGrid at h
  dsimp only at h
  generalize (if 0 ≤ exponent then _ else _ : Nat × Nat) = f at h
  split at h
  next hup =>
    cases h
    exact (Bool.and_eq_true_iff.mp hup).1
  next =>
    split at h
    next hdown =>
      cases h
      exact (Bool.and_eq_true_iff.mp hdown).2
    next => cases h

theorem value_exactDecimal (r : Nat) : (exactDecimal r).value = magnitude r := by
  unfold exactDecimal
  dsimp only
  split
  next he =>
    obtain ⟨k, hk⟩ := Int.eq_ofNat_of_zero_le he
    simp [Decimal.value, magnitude, hk]
  next he =>
    obtain ⟨k, hk⟩ : ∃ k : ℕ, scale r = -k := ⟨(scale r).natAbs, by omega⟩
    have hten : (5 : ℚ) ^ k * (10 ^ k)⁻¹ = (2 ^ k)⁻¹ := by
      rw [show (10 : ℚ) = 5 * 2 by norm_num, mul_pow, mul_inv, mul_inv_cancel_left₀ (by positivity)]
    simp [Decimal.value, magnitude, hk, mul_assoc, hten]

theorem value_trim (fuel : Nat) (d : Decimal) : (d.trim fuel).value = d.value := by
  induction fuel generalizing d with
  | zero => rfl
  | succ fuel ih =>
    rw [Decimal.trim]
    split
    next h =>
      have hten : d.digits = d.digits / 10 * 10 := by
        have := eq_of_beq (Bool.and_eq_true_iff.mp h).1
        omega
      rw [ih, Decimal.value, Decimal.value, zpow_add_one₀ (by norm_num)]
      nth_rewrite 2 [hten]
      push_cast
      ring
    next => rfl

/-- **The shortest decimal of a double is rounded to it.** -/
theorem shortest_roundsTo {r : Nat} (hr : 0 < r) : RoundsTo (shortest r).value r := by
  unfold shortest
  dsimp only
  rw [value_trim]
  cases hfound : (List.range 17).findSome? _ with
  | none =>
    rw [Option.getD_none, value_exactDecimal]
    exact .magnitude r
  | some d =>
    obtain ⟨k, -, hgrid⟩ := List.exists_of_findSome?_eq_some hfound
    exact roundsTo_of_contains hr (onGrid_contains hgrid)

theorem digits_shortest_ne_zero {r : Nat} (hr : 0 < r) : (shortest r).digits ≠ 0 := by
  intro hzero
  have h := shortest_roundsTo hr
  rw [Decimal.value, hzero, Nat.cast_zero, zero_mul] at h
  exact hr.ne (RoundsTo.zero.unique h)

/-! ### The first digit -/

theorem le_leading_iff {d : Decimal} (hd : d.digits ≠ 0) (e : ℤ) :
    e ≤ d.leading ↔ (10 : ℚ) ^ e ≤ d.value := by
  obtain ⟨hlower, hupper⟩ := Decimal.value_bounds hd
  have hlength : (Nat.toDigits 10 d.digits).length + d.exponent = d.leading + 1 := by
    rw [Decimal.leading, Decimal.digitChars]
    ring
  rw [hlength] at hlower hupper
  rw [add_sub_cancel_right] at hlower
  constructor
  · exact fun h => (zpow_le_zpow_right₀ (by norm_num) h).trans hlower
  · exact fun h => Int.lt_add_one_iff.mp
      ((zpow_lt_zpow_iff_right₀ (by norm_num)).mp (h.trans_lt hupper))

/-- **The first digit of the shortest decimal** is at a place or before it exactly from the double on
that is nearest to the power of ten at this place, if that double is written as the power itself. -/
theorem le_leading_shortest_iff {e : ℤ} {c r : Nat} (hr : 0 < r) (hc : RoundsTo (10 ^ e) c)
    (hpower : (10 : ℚ) ^ e ≤ (shortest c).value) : e ≤ (shortest r).leading ↔ c ≤ r := by
  rw [le_leading_iff (digits_shortest_ne_zero hr)]
  have h := shortest_roundsTo hr
  refine ⟨hc.mono h, fun hle => ?_⟩
  rcases Nat.eq_or_lt_of_le hle with rfl | hlt
  · exact hpower
  -- Beyond `c` the midpoint above `c` separates the power of ten from what rounds to `r`.
  · have hbelow := h.midpoint_le (r - 1) (by omega)
    have hmono : midpoint c ≤ midpoint (r - 1) := midpoint_strictMono.monotone (by omega)
    exact hc.le_midpoint.trans (hmono.trans hbelow)

theorem roundsTo_rank {n d : Nat} (hn : 0 < n) (hd : 0 < d)
    (h : (ofRatio false n d).rank < infinityRank) :
    RoundsTo (n / d) (ofRatio false n d).rank := by
  obtain ⟨r, hround, heq⟩ := ofRatio_spec false hn hd
  rw [heq, rank_ofRank] at h ⊢
  rwa [min_eq_left (by omega)]

/-- The rank of the double that is nearest to a millionth. -/
def millionthRank : Nat := 0x3EB0C6F7A0B5ED8D

/-- The rank of `10 ^ 21`. -/
def sextillionRank : Nat := 0x444B1AE4D6E2EF50

theorem millionthRank_roundsTo : RoundsTo (10 ^ (-6 : ℤ)) millionthRank := by
  have hrank : (ofRatio false 1 1000000).rank = millionthRank := by decide +kernel
  have h := roundsTo_rank (n := 1) (d := 1000000) (by norm_num) (by norm_num)
    (by rw [hrank]; decide +kernel)
  rw [hrank] at h
  convert h using 1
  norm_num

theorem sextillionRank_roundsTo : RoundsTo (10 ^ (21 : ℤ)) sextillionRank := by
  have hrank : (ofRatio false (10 ^ 21) 1).rank = sextillionRank := by decide +kernel
  have h := roundsTo_rank (n := 10 ^ 21) (d := 1) (by norm_num) (by norm_num)
    (by rw [hrank]; decide +kernel)
  rw [hrank] at h
  convert h using 1
  norm_num

theorem leading_shortest_iff {r : Nat} (hr : 0 < r) :
    -6 ≤ (shortest r).leading ∧ (shortest r).leading ≤ 20 ↔
      millionthRank ≤ r ∧ r < sextillionRank := by
  have hsmall : shortest millionthRank = ⟨1, -6⟩ := by decide +kernel
  have hlarge : shortest sextillionRank = ⟨1, 21⟩ := by decide +kernel
  refine and_congr (le_leading_shortest_iff hr millionthRank_roundsTo ?_) ?_
  · rw [hsmall, Decimal.value, Nat.cast_one, one_mul]
  · have hlt : (shortest r).leading ≤ 20 ↔ ¬21 ≤ (shortest r).leading := by omega
    rw [hlt, ← not_le]
    refine not_congr (le_leading_shortest_iff hr sextillionRank_roundsTo ?_)
    rw [hlarge, Decimal.value, Nat.cast_one, one_mul]

end SchemaDoc.Double
