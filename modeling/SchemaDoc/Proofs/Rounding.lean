import Mathlib.Algebra.Order.Field.Power
import Mathlib.Algebra.Order.Field.Rat
import Mathlib.Data.Nat.Log
import Mathlib.Order.Monotone.Basic
import Mathlib.Tactic.FieldSimp
import Mathlib.Tactic.Linarith
import Mathlib.Tactic.NormNum
import Mathlib.Tactic.Positivity
import Mathlib.Tactic.Ring
import SchemaDoc.Number.Decimal

/-!
# Rounding

A rational number is rounded to the nearest double, a tie to the even one (`Double.Nearest`). Ranks
make this a statement about one increasing sequence of rational numbers, the magnitudes: that of the
rank after the last finite one is `2 ^ 1024`, which stands for infinity.

Rounding goes by the midpoints between neighbours (`Double.RoundsTo`), which is the same
(`Double.RoundsTo.nearest`, `Double.Nearest.unique`), and every number has its rank
(`Double.exists_roundsTo`). Fractions are rounded within a block of ranks of one scale, where only the
significand counts (`Double.roundsTo_block`). So a decimal is read as the double nearest to it, however
large it is (`Decimal.toDouble_eq`).
-/

namespace SchemaDoc

namespace Double

/-! ### Magnitudes -/

/-- The magnitude at a rank. That of infinity is the one that would come next. -/
def magnitude (r : Nat) : ℚ := significand r * 2 ^ scale r

/-- Ranks come in blocks of one scale. A significand that is too large for its block by one is at the
start of the next one. -/
theorem significand_block {k m : Nat} (h : k = 0 ∨ fractions ≤ m) (hm : m < 2 * fractions) :
    significand (k * fractions + m) = m := by
  unfold significand
  split <;> simp only [fractions] at * <;> omega

theorem scale_block {k m : Nat} (h : k = 0 ∨ fractions ≤ m) (hm : m < 2 * fractions) :
    scale (k * fractions + m) = k - 1074 := by
  unfold scale
  split <;> simp only [fractions] at * <;> omega

theorem exists_block (r : Nat) :
    ∃ k m, (k = 0 ∨ fractions ≤ m) ∧ m < 2 * fractions ∧ r = k * fractions + m := by
  rcases Nat.lt_or_ge r fractions with hr | hr
  · exact ⟨0, r, .inl rfl, by omega, by omega⟩
  · refine ⟨r / fractions - 1, fractions + r % fractions, .inr (by omega), ?_, ?_⟩ <;>
      simp only [fractions] at * <;> omega

theorem magnitude_block {k m : Nat} (h : k = 0 ∨ fractions ≤ m) (hm : m ≤ 2 * fractions) :
    magnitude (k * fractions + m) = m * 2 ^ ((k : ℤ) - 1074) := by
  rcases Nat.lt_or_eq_of_le hm with hm | rfl
  · rw [magnitude, significand_block h hm, scale_block h hm]
  · have hnext : k * fractions + 2 * fractions = (k + 1) * fractions + fractions := by ring
    rw [hnext, magnitude, significand_block (.inr (Nat.le_refl _)) (by norm_num),
      scale_block (.inr (Nat.le_refl _)) (by norm_num)]
    rw [show ((k + 1 : ℕ) : ℤ) - 1074 = (k - 1074) + 1 by push_cast; ring,
      zpow_add_one₀ (by norm_num)]
    push_cast
    ring

/-- The distance to the next magnitude is one in the last place. -/
theorem magnitude_succ (r : Nat) : magnitude (r + 1) = magnitude r + 2 ^ scale r := by
  obtain ⟨k, m, h, hm, rfl⟩ := exists_block r
  rw [Nat.add_assoc, magnitude_block (by omega) hm, magnitude_block h hm.le, scale_block h hm]
  push_cast
  ring

theorem two_zpow_pos (e : ℤ) : (0 : ℚ) < 2 ^ e := zpow_pos (by norm_num) e

theorem magnitude_strictMono : StrictMono magnitude :=
  strictMono_nat_of_lt_succ fun r => by
    rw [magnitude_succ]
    linarith [two_zpow_pos (scale r)]

@[simp] theorem magnitude_zero : magnitude 0 = 0 := by
  simp [magnitude, significand]

theorem magnitude_nonneg (r : Nat) : 0 ≤ magnitude r := by
  unfold magnitude
  positivity

theorem magnitude_infinityRank : magnitude infinityRank = 2 ^ (1024 : ℤ) := by
  have hblock : infinityRank = 2046 * fractions + fractions := by norm_num [infinityRank]
  have hfractions : (fractions : ℚ) = 2 ^ (52 : ℤ) := by norm_num
  have hexponent : (52 : ℤ) + ((2046 : ℕ) - 1074) = 1024 := by norm_num
  rw [hblock, magnitude_block (.inr (Nat.le_refl _)) (by norm_num), hfractions,
    ← zpow_add₀ (by norm_num), hexponent]

/-! ### Nearest doubles -/

/-- **The nearest double.** No other one is nearer to the number, and one that is as near only if the
double of this rank is the even one. A number that is nearest to `2 ^ 1024` becomes infinity. -/
structure Nearest (q : ℚ) (r : Nat) : Prop where
  le_infinityRank : r ≤ infinityRank
  nearest : ∀ r' ≤ infinityRank, |q - magnitude r| ≤ |q - magnitude r'|
  even : ∀ r' ≤ infinityRank, r' ≠ r → |q - magnitude r| = |q - magnitude r'| → r % 2 = 0

/-- A number is nearer to the smaller of two numbers if it is below their midpoint. -/
theorem abs_sub_le_left_iff {q a b : ℚ} (hab : a < b) : |q - a| ≤ |q - b| ↔ 2 * q ≤ a + b := by
  rcases abs_cases (q - a) with h | h <;> rcases abs_cases (q - b) with h' | h' <;>
    constructor <;> intro <;> linarith

theorem abs_sub_le_right_iff {q a b : ℚ} (hab : a < b) : |q - b| ≤ |q - a| ↔ a + b ≤ 2 * q := by
  rcases abs_cases (q - a) with h | h <;> rcases abs_cases (q - b) with h' | h' <;>
    constructor <;> intro <;> linarith

/-- The number halfway between a magnitude and the next one. -/
def midpoint (r : Nat) : ℚ := magnitude r + 2 ^ scale r / 2

theorem midpoint_eq (r : Nat) : midpoint r = (magnitude r + magnitude (r + 1)) / 2 := by
  rw [magnitude_succ, midpoint]
  ring

theorem midpoint_strictMono : StrictMono midpoint := fun r r' h => by
  have := magnitude_strictMono h
  have := magnitude_strictMono (Nat.add_lt_add_right h 1)
  rw [midpoint_eq, midpoint_eq]
  linarith

/-- **Between midpoints.** A number that is rounded to a rank without regard to the range: it is
between the midpoints around the magnitude, and on one of them only if the rank is even. -/
structure RoundsTo (q : ℚ) (r : Nat) : Prop where
  le_midpoint : q ≤ midpoint r
  even_of_eq : q = midpoint r → r % 2 = 0
  midpoint_le : ∀ p, p + 1 = r → midpoint p ≤ q
  even_of_eq' : ∀ p, p + 1 = r → midpoint p = q → r % 2 = 0

namespace RoundsTo

variable {q q' : ℚ} {r r' : Nat}

/-- Larger numbers are rounded to larger ranks, or to the same. -/
theorem mono (h : RoundsTo q r) (h' : RoundsTo q' r') (hq : q ≤ q') : r ≤ r' := by
  by_contra hlt
  obtain ⟨p, rfl⟩ : ∃ p, p + 1 = r := ⟨r - 1, by omega⟩
  have hlower := h.midpoint_le p rfl
  have hupper := h'.le_midpoint
  have hmid : midpoint r' ≤ midpoint p := midpoint_strictMono.monotone (by omega)
  have heq : midpoint r' = midpoint p := by linarith
  obtain rfl := midpoint_strictMono.injective heq
  have := h.even_of_eq' r' rfl (by linarith)
  have := h'.even_of_eq (by linarith)
  omega

theorem unique (h : RoundsTo q r) (h' : RoundsTo q r') : r = r' :=
  Nat.le_antisymm (h.mono h' (le_refl q)) (h'.mono h (le_refl q))

theorem zero : RoundsTo 0 0 where
  le_midpoint := by
    have := two_zpow_pos (scale 0)
    rw [midpoint, magnitude_zero]
    linarith
  even_of_eq _ := rfl
  midpoint_le _ h := by omega
  even_of_eq' _ h := by omega

theorem magnitude (r : Nat) : RoundsTo (magnitude r) r := by
  have hpos := two_zpow_pos (scale r)
  refine ⟨by rw [midpoint]; linarith, fun h => ?_, ?_, ?_⟩
  · rw [midpoint] at h
    linarith
  · rintro p rfl
    have := two_zpow_pos (scale p)
    rw [midpoint, magnitude_succ]
    linarith
  · rintro p rfl h
    have := two_zpow_pos (scale p)
    rw [midpoint, magnitude_succ] at h
    linarith

/-- The number is on the right side of the midpoint below the rank, or of infinity. -/
theorem midpoint_le_min (h : RoundsTo q r) {p : Nat} (hp : p + 1 = min r infinityRank) :
    midpoint p ≤ q ∧ (midpoint p = q → min r infinityRank % 2 = 0) := by
  rcases Nat.lt_or_ge infinityRank r with hr | hr
  · rw [min_eq_right hr.le] at hp ⊢
    refine ⟨?_, fun _ => rfl⟩
    have hbelow := h.midpoint_le (r - 1) (by omega)
    have hmono : midpoint p ≤ midpoint (r - 1) := midpoint_strictMono.monotone (by omega)
    linarith
  · rw [min_eq_left hr] at hp ⊢
    exact ⟨h.midpoint_le p hp, h.even_of_eq' p hp⟩

/-- **A number between midpoints is rounded to the nearest double**, and what is beyond the range
becomes infinity. -/
theorem nearest (h : RoundsTo q r) : Nearest q (min r infinityRank) := by
  have habove {r' : Nat} (hr' : r' ≤ infinityRank) (hlt : min r infinityRank < r') :
      2 * q ≤ Double.magnitude (min r infinityRank) + Double.magnitude r' ∧
        (2 * q = Double.magnitude (min r infinityRank) + Double.magnitude r' → r % 2 = 0) := by
    have hr : min r infinityRank = r := by omega
    rw [hr] at hlt ⊢
    have hmid := midpoint_eq r
    have hmono := magnitude_strictMono.monotone (Nat.succ_le_of_lt hlt)
    have hle := h.le_midpoint
    exact ⟨by linarith, fun heq => h.even_of_eq (by linarith)⟩
  have hbelow {r' : Nat} (hlt : r' < min r infinityRank) :
      Double.magnitude r' + Double.magnitude (min r infinityRank) ≤ 2 * q ∧
        (Double.magnitude r' + Double.magnitude (min r infinityRank) = 2 * q →
          min r infinityRank % 2 = 0) := by
    obtain ⟨p, hp⟩ : ∃ p, p + 1 = min r infinityRank := ⟨min r infinityRank - 1, by omega⟩
    obtain ⟨hle, heven⟩ := h.midpoint_le_min hp
    have hmid := midpoint_eq p
    rw [hp] at hmid
    have hmono : Double.magnitude r' ≤ Double.magnitude p :=
      magnitude_strictMono.monotone (by omega)
    exact ⟨by linarith, fun heq => heven (by linarith)⟩
  refine ⟨Nat.min_le_right _ _, fun r' hr' => ?_, fun r' hr' hne heq => ?_⟩
  · rcases Nat.lt_trichotomy r' (min r infinityRank) with hlt | rfl | hgt
    · exact (abs_sub_le_right_iff (magnitude_strictMono hlt)).mpr (hbelow hlt).1
    · exact le_refl _
    · exact (abs_sub_le_left_iff (magnitude_strictMono hgt)).mpr (habove hr' hgt).1
  · rcases Nat.lt_or_gt_of_ne hne with hlt | hgt
    · have hle := (abs_sub_le_left_iff (magnitude_strictMono hlt)).mp heq.ge
      exact (hbelow hlt).2 (le_antisymm (hbelow hlt).1 hle)
    · have hle := (abs_sub_le_right_iff (magnitude_strictMono hgt)).mp heq.ge
      have heven := (habove hr' hgt).2 (le_antisymm (habove hr' hgt).1 hle)
      omega

end RoundsTo

/-- **There is one nearest double.** -/
theorem Nearest.unique {q : ℚ} {r r' : Nat} (h : Nearest q r) (h' : Nearest q r') : r = r' := by
  wlog hlt : r < r' generalizing r r'
  · rcases Nat.lt_or_eq_of_le (Nat.le_of_not_lt hlt) with hlt | rfl
    · exact (this h' h hlt).symm
    · rfl
  have hle := h.nearest r' h'.le_infinityRank
  have hle' := h'.nearest r h.le_infinityRank
  have heven := h.even r' h'.le_infinityRank hlt.ne' (le_antisymm hle hle')
  have heven' := h'.even r h.le_infinityRank hlt.ne (le_antisymm hle' hle)
  -- Two even ranks have another one between them, which is nearer than both.
  have hbetween : r + 1 < r' := by omega
  have hnext := (abs_sub_le_left_iff (magnitude_strictMono (Nat.lt_succ_self r))).mp
    (h.nearest (r + 1) (by have := h'.le_infinityRank; omega))
  have hright := (abs_sub_le_right_iff (magnitude_strictMono hlt)).mp hle'
  have := magnitude_strictMono hbetween
  linarith

/-! ### Fractions -/

/-- The rational number of a fraction. -/
def ratio (f : Nat × Nat) : ℚ := f.1 / f.2

theorem scaled_pos {n d : Nat} (hd : 0 < d) (e : ℤ) : 0 < (scaled n d e).2 := by
  unfold scaled
  split
  · exact hd
  · exact Nat.mul_pos hd (Nat.pow_pos (by norm_num))

theorem ratio_scaled (n : Nat) {d : Nat} (hd : 0 < d) (e : ℤ) :
    ratio (scaled n d e) = n / d * 2 ^ e := by
  have hd' : (d : ℚ) ≠ 0 := by positivity
  unfold scaled ratio
  split
  next he =>
    obtain ⟨k, rfl⟩ := Int.eq_ofNat_of_zero_le he
    simp
    ring
  next he =>
    obtain ⟨k, rfl⟩ : ∃ k : ℕ, e = -k := ⟨e.natAbs, by omega⟩
    simp
    field_simp

theorem le_iff_one_le_ratio {f : Nat × Nat} (hf : 0 < f.2) : f.2 ≤ f.1 ↔ 1 ≤ ratio f := by
  have hf' : (0 : ℚ) < f.2 := by exact_mod_cast hf
  rw [ratio, one_le_div hf', Nat.cast_le]

/-- The difference of the binary logarithms of numerator and denominator is off by one at most. -/
theorem log2_sub_log2 {n d : Nat} (hn : 0 < n) (hd : 0 < d) :
    (2 : ℚ) ^ ((n.log2 : ℤ) - d.log2 - 1) < n / d ∧
      (n / d : ℚ) < 2 ^ ((n.log2 : ℤ) - d.log2 + 1) := by
  have hd' : (0 : ℚ) < d := by exact_mod_cast hd
  have hnle : (2 : ℚ) ^ (n.log2 : ℤ) ≤ n := by
    rw [zpow_natCast]
    exact_mod_cast Nat.log2_self_le hn.ne'
  have hnlt : (n : ℚ) < 2 ^ ((n.log2 : ℤ) + 1) := by
    rw [← Nat.cast_succ, zpow_natCast]
    exact_mod_cast Nat.lt_log2_self
  have hdle : (2 : ℚ) ^ (d.log2 : ℤ) ≤ d := by
    rw [zpow_natCast]
    exact_mod_cast Nat.log2_self_le hd.ne'
  have hdlt : (d : ℚ) < 2 ^ ((d.log2 : ℤ) + 1) := by
    rw [← Nat.cast_succ, zpow_natCast]
    exact_mod_cast Nat.lt_log2_self
  constructor
  · rw [lt_div_iff₀ hd']
    calc (2 : ℚ) ^ ((n.log2 : ℤ) - d.log2 - 1) * d
        < 2 ^ ((n.log2 : ℤ) - d.log2 - 1) * 2 ^ ((d.log2 : ℤ) + 1) :=
          mul_lt_mul_of_pos_left hdlt (two_zpow_pos _)
      _ = 2 ^ (n.log2 : ℤ) := by
          rw [← zpow_add₀ (by norm_num)]
          congr 1
          ring
      _ ≤ n := hnle
  · rw [div_lt_iff₀ hd']
    calc (n : ℚ) < 2 ^ ((n.log2 : ℤ) + 1) := hnlt
      _ = 2 ^ ((n.log2 : ℤ) - d.log2 + 1) * 2 ^ (d.log2 : ℤ) := by
          rw [← zpow_add₀ (by norm_num)]
          congr 1
          ring
      _ ≤ 2 ^ ((n.log2 : ℤ) - d.log2 + 1) * d :=
          mul_le_mul_of_nonneg_left hdle (two_zpow_pos _).le

/-- The binary logarithm is exact. -/
theorem floorLog2_spec {n d : Nat} (hn : 0 < n) (hd : 0 < d) :
    (2 : ℚ) ^ floorLog2 n d ≤ n / d ∧ (n / d : ℚ) < 2 ^ (floorLog2 n d + 1) := by
  obtain ⟨hlower, hupper⟩ := log2_sub_log2 hn hd
  unfold floorLog2
  generalize (n.log2 : ℤ) - d.log2 = l at hlower hupper
  have hreaches : (scaled n d (-l)).2 ≤ (scaled n d (-l)).1 ↔ (2 : ℚ) ^ l ≤ n / d := by
    rw [le_iff_one_le_ratio (scaled_pos hd _), ratio_scaled n hd, zpow_neg, ← div_eq_mul_inv,
      one_le_div (two_zpow_pos l)]
  dsimp only
  split
  next h => exact ⟨hreaches.mp h, hupper⟩
  next h =>
    rw [sub_add_cancel]
    exact ⟨hlower.le, not_le.mp (mt hreaches.mpr h)⟩

/-- Rounding a quotient leaves an error of at most a half, and a half only if the result is even. -/
theorem roundDiv_spec (n : Nat) {d : Nat} (hd : 0 < d) :
    (roundDiv n d : ℚ) ≤ n / d + 1 / 2 ∧ (n / d : ℚ) ≤ roundDiv n d + 1 / 2 ∧
      (roundDiv n d % 2 = 1 → (roundDiv n d : ℚ) < n / d + 1 / 2 ∧
        (n / d : ℚ) < roundDiv n d + 1 / 2) := by
  have hd' : (0 : ℚ) < d := by exact_mod_cast hd
  have hdiv : (n / d : ℚ) = (n / d : ℕ) + (n % d : ℕ) / d := by
    have h : (n : ℚ) = d * (n / d : ℕ) + (n % d : ℕ) := by exact_mod_cast (Nat.div_add_mod n d).symm
    rw [div_eq_iff hd'.ne', add_mul, div_mul_cancel₀ _ hd'.ne', mul_comm, ← h]
  have hrest : ((n % d : ℕ) / d : ℚ) < 1 := by
    rw [div_lt_one hd']
    exact_mod_cast Nat.mod_lt n hd
  have hrest' : (0 : ℚ) ≤ (n % d : ℕ) / d := by positivity
  have hlt : 2 * (n % d) < d → ((n % d : ℕ) / d : ℚ) < 1 / 2 := fun h => by
    rw [div_lt_div_iff₀ hd' (by norm_num)]
    exact_mod_cast (by omega : n % d * 2 < 1 * d)
  have hgt : d < 2 * (n % d) → (1 / 2 : ℚ) < (n % d : ℕ) / d := fun h => by
    rw [div_lt_div_iff₀ (by norm_num) hd']
    exact_mod_cast (by omega : 1 * d < n % d * 2)
  have heq : 2 * (n % d) = d → ((n % d : ℕ) / d : ℚ) = 1 / 2 := fun h => by
    rw [div_eq_div_iff hd'.ne' (by norm_num)]
    exact_mod_cast (by omega : n % d * 2 = 1 * d)
  rw [hdiv]
  generalize ((n % d : ℕ) / d : ℚ) = rest at *
  unfold roundDiv
  dsimp only
  split
  next hdown =>
    rw [Bool.or_eq_true, Bool.and_eq_true, decide_eq_true_eq, beq_iff_eq, beq_iff_eq] at hdown
    rcases hdown with h | ⟨h, heven⟩
    · have := hlt h
      exact ⟨by linarith, by linarith, fun _ => ⟨by linarith, by linarith⟩⟩
    · have := heq h
      exact ⟨by linarith, by linarith, fun hodd => by omega⟩
  next hup =>
    rw [Bool.or_eq_true, Bool.and_eq_true, decide_eq_true_eq, beq_iff_eq, beq_iff_eq] at hup
    push_cast
    rcases Nat.lt_or_eq_of_le (Nat.le_of_not_lt (mt Or.inl hup)) with h | h
    · have := hgt h
      exact ⟨by linarith, by linarith, fun _ => ⟨by linarith, by linarith⟩⟩
    · have := heq h.symm
      exact ⟨by linarith, by linarith, fun hodd => absurd (.inr ⟨h.symm, by omega⟩) hup⟩

theorem midpoint_block {k m : Nat} (h : k = 0 ∨ fractions ≤ m) (hm : m < 2 * fractions) :
    midpoint (k * fractions + m) = (m + 1 / 2) * 2 ^ ((k : ℤ) - 1074) := by
  rw [midpoint, magnitude_block h hm.le, scale_block h hm]
  ring

theorem midpoint_lt_magnitude_succ (r : Nat) : midpoint r < magnitude (r + 1) := by
  have := two_zpow_pos (scale r)
  rw [midpoint, magnitude_succ]
  linarith

theorem magnitude_lt_midpoint (r : Nat) : magnitude r < midpoint r := by
  have := two_zpow_pos (scale r)
  rw [midpoint]
  linarith

section Block

variable {q x : ℚ} {k m : Nat} (hq : q = x * 2 ^ ((k : ℤ) - 1074))
include hq

/-- A significand may be rounded up to the start of the next block, where the midpoint above is
further away. -/
theorem le_midpoint_block (hblock : k = 0 ∨ fractions ≤ m) (hm : m ≤ 2 * fractions)
    (hhigh : x < 2 * fractions) (hdown : x ≤ m + 1 / 2) (hodd : m % 2 = 1 → x < m + 1 / 2) :
    q ≤ midpoint (k * fractions + m) ∧ (m % 2 = 1 → q < midpoint (k * fractions + m)) := by
  have hpos := two_zpow_pos ((k : ℤ) - 1074)
  rcases Nat.lt_or_eq_of_le hm with hm | rfl
  · rw [midpoint_block hblock hm, hq]
    exact ⟨mul_le_mul_of_nonneg_right hdown hpos.le,
      fun h => mul_lt_mul_of_pos_right (hodd h) hpos⟩
  · have hlt : q < magnitude (k * fractions + 2 * fractions) := by
      rw [magnitude_block hblock (Nat.le_refl _), hq, Nat.cast_mul, Nat.cast_ofNat]
      exact mul_lt_mul_of_pos_right hhigh hpos
    have := magnitude_lt_midpoint (k * fractions + 2 * fractions)
    exact ⟨by linarith, fun _ => by linarith⟩

/-- At the start of a block the midpoint below is nearer. -/
theorem midpoint_block_le (hblock : k = 0 ∨ fractions ≤ m) (hm : m ≤ 2 * fractions)
    (hlow : k = 0 ∨ (fractions : ℚ) ≤ x) (hup : (m : ℚ) ≤ x + 1 / 2)
    (hodd : m % 2 = 1 → (m : ℚ) < x + 1 / 2) {p : Nat} (hp : p + 1 = k * fractions + m) :
    midpoint p ≤ q ∧ (m % 2 = 1 → midpoint p < q) := by
  have hpos := two_zpow_pos ((k : ℤ) - 1074)
  obtain ⟨m, rfl⟩ : ∃ m', m = m' + 1 := ⟨m - 1, by
    rcases hblock with rfl | h <;> simp only [fractions] at * <;> omega⟩
  obtain rfl : p = k * fractions + m := by omega
  by_cases hsame : k = 0 ∨ fractions ≤ m
  · rw [midpoint_block hsame (by omega), hq]
    rw [Nat.cast_add, Nat.cast_one] at hup hodd
    refine ⟨mul_le_mul_of_nonneg_right (by linarith) hpos.le, fun h => ?_⟩
    exact mul_lt_mul_of_pos_right (by linarith [hodd h]) hpos
  · obtain ⟨hk, hm'⟩ := not_or.mp hsame
    have hstart : m + 1 = fractions := by omega
    have hle : magnitude (k * fractions + m + 1) ≤ q := by
      rw [Nat.add_assoc, magnitude_block hblock hm, hq, hstart]
      exact mul_le_mul_of_nonneg_right (hlow.resolve_left hk) hpos.le
    have := midpoint_lt_magnitude_succ (k * fractions + m)
    exact ⟨by linarith, fun _ => by linarith⟩

/-- **Rounding within a block.** A number in the range of a block is rounded with the significand. -/
theorem roundsTo_block (hlow : k = 0 ∨ (fractions : ℚ) ≤ x) (hhigh : x < 2 * fractions)
    (hup : (m : ℚ) ≤ x + 1 / 2) (hdown : x ≤ m + 1 / 2)
    (hodd : m % 2 = 1 → (m : ℚ) < x + 1 / 2 ∧ x < m + 1 / 2) :
    RoundsTo q (k * fractions + m) := by
  have hparity : (k * fractions + m) % 2 = m % 2 := by
    simp only [fractions]
    omega
  -- The rounded significand is in the range of the block, or one too large.
  have hm : m ≤ 2 * fractions := by
    have : (m : ℚ) < (2 * fractions + 1 : ℕ) := by
      rw [Nat.cast_add, Nat.cast_mul, Nat.cast_ofNat, Nat.cast_one]
      linarith
    exact Nat.le_of_lt_succ (by exact_mod_cast this)
  have hblock : k = 0 ∨ fractions ≤ m := by
    refine hlow.imp_right fun hx => ?_
    have : (fractions : ℚ) < (m + 1 : ℕ) := by
      rw [Nat.cast_add, Nat.cast_one]
      linarith
    exact Nat.le_of_lt_succ (by exact_mod_cast this)
  have habove := le_midpoint_block hq hblock hm hhigh hdown fun h => (hodd h).2
  have hbelow {p : Nat} (hp : p + 1 = k * fractions + m) :=
    midpoint_block_le hq hblock hm hlow hup (fun h => (hodd h).1) hp
  refine ⟨habove.1, fun heq => ?_, fun p hp => (hbelow hp).1, fun p hp heq => ?_⟩
  · rw [hparity]
    by_contra h
    exact absurd heq (habove.2 (by omega)).ne
  · rw [hparity]
    by_contra h
    exact absurd heq ((hbelow hp).2 (by omega)).ne

end Block

/-- **Rounding a fraction.** -/
theorem ofRatio_spec (negative : Bool) {n d : Nat} (hn : 0 < n) (hd : 0 < d) :
    ∃ r, RoundsTo (n / d) r ∧ ofRatio negative n d = ofRank negative r := by
  obtain ⟨hlower, hupper⟩ := floorLog2_spec hn hd
  unfold ofRatio
  rw [if_neg (by simpa using hn.ne')]
  generalize floorLog2 n d = l at hlower hupper ⊢
  obtain ⟨k, hk⟩ : ∃ k : ℕ, max (l - 52) (-1074) = k - 1074 :=
    ⟨(max (l - 52) (-1074) + 1074).toNat, by omega⟩
  have hcount : ((k : ℤ) - 1074 + 1074).toNat = k := by omega
  have hfractions : (fractions : ℚ) = 2 ^ (52 : ℤ) := by norm_num
  refine ⟨_, ?_, rfl⟩
  dsimp only
  rw [hk, hcount]
  -- Scaled by the last place, the fraction is in the range of the block `k`.
  obtain ⟨hup, hdown, hodd⟩ := roundDiv_spec (scaled n d (-(k - 1074))).1 (scaled_pos hd _)
  rw [← ratio, ratio_scaled n hd] at hup hdown hodd
  have hpos := two_zpow_pos ((k : ℤ) - 1074)
  refine roundsTo_block ?_ ?_ ?_ hup hdown hodd
  · rw [zpow_neg, inv_mul_cancel_right₀ hpos.ne']
  · by_cases hzero : k = 0
    · exact .inl hzero
    · refine .inr ?_
      have hl : l = k - 1074 + 52 := by omega
      rw [zpow_neg, ← div_eq_mul_inv, le_div_iff₀ hpos, hfractions, ← zpow_add₀ (by norm_num),
        add_comm, ← hl]
      exact hlower
  · rw [zpow_neg, ← div_eq_mul_inv, div_lt_iff₀ hpos, hfractions, ← zpow_one_add₀ (by norm_num),
      ← zpow_add₀ (by norm_num)]
    exact hupper.trans_le (zpow_le_zpow_right₀ (by norm_num) (by omega))

/-- Every number that is not negative is rounded to some rank. -/
theorem exists_roundsTo {q : ℚ} (hq : 0 ≤ q) : ∃ r, RoundsTo q r := by
  rcases hq.eq_or_lt with rfl | hq
  · exact ⟨0, .zero⟩
  · obtain ⟨r, h, -⟩ :=
      ofRatio_spec false (Int.natAbs_pos.mpr (Rat.num_pos.mpr hq).ne') q.den_pos
    have hnum : (q.num.natAbs : ℚ) = q.num := by
      rw [Nat.cast_natAbs, abs_of_pos (Rat.num_pos.mpr hq)]
    rw [hnum, Rat.num_div_den] at h
    exact ⟨r, h⟩

theorem RoundsTo.ofRatio_eq {negative : Bool} {n d r : Nat} (hn : 0 < n) (hd : 0 < d)
    (h : RoundsTo (n / d) r) : ofRatio negative n d = ofRank negative r := by
  obtain ⟨r', h', heq⟩ := ofRatio_spec negative hn hd
  rw [heq, h.unique h']

/-- Ranks beyond that of infinity are infinity. -/
theorem ofRank_min (negative : Bool) (r : Nat) :
    ofRank negative (min r infinityRank) = ofRank negative r := by
  rw [ofRank, ofRank, min_assoc, min_self]

theorem rank_ofRank (negative : Bool) (r : Nat) : (ofRank negative r).rank = min r infinityRank := by
  simp only [rank, ofRank, Fin.ofNat, infinityRank, fractions]
  omega

theorem ofRank_rank {x : Double} (h : x.rank ≤ infinityRank) : ofRank x.negative x.rank = x := by
  obtain ⟨negative, ⟨exponent, hexponent⟩, ⟨fraction, hfraction⟩⟩ := x
  rw [ofRank, min_eq_left h]
  simp only [rank, Fin.ofNat, fractions] at hfraction ⊢
  congr 2 <;> omega

/-- A word and the number that it spells determine each other. -/
theorem toBits_ofBits (bits : UInt64) : (ofBits bits).toBits = bits := by
  have hbits : bits.toNat < 2 ^ 64 := bits.toNat_lt
  rw [← UInt64.toNat_inj, toBits, UInt64.toNat_ofNat']
  simp only [ofBits, rank, Fin.ofNat, beq_iff_eq, fractions]
  split <;> omega

/-- What is at least `10 ^ 310` is infinite … -/
theorem RoundsTo.ofRank_eq_infinity {negative : Bool} {q : ℚ} {r : Nat} (h : RoundsTo q r)
    (hq : 10 ^ (310 : ℤ) ≤ q) : ofRank negative r = infinity negative := by
  have hr : infinityRank ≤ r := by
    by_contra hlt
    have hmid := (h.le_midpoint.trans_lt (midpoint_lt_magnitude_succ r))
    have hmono := magnitude_strictMono.monotone (by omega : r + 1 ≤ infinityRank)
    have hpower : (2 : ℚ) ^ (1024 : ℤ) < 10 ^ (310 : ℤ) := by
      have h : (2 : ℕ) ^ 1024 < 10 ^ 310 := by decide +kernel
      exact_mod_cast h
    rw [magnitude_infinityRank] at hmono
    exact absurd (hq.trans_lt (hmid.trans_le hmono)) hpower.not_gt
  rw [infinity, ofRank, ofRank, min_eq_right hr, min_self]

/-- … and what is less than `10 ^ (-330)` is zero. -/
theorem RoundsTo.eq_zero {q : ℚ} {r : Nat} (h : RoundsTo q r) (hq : q < 10 ^ (-330 : ℤ)) :
    r = 0 := by
  by_contra hr
  have hmid := h.midpoint_le (r - 1) (by omega)
  have hmono : midpoint 0 ≤ midpoint (r - 1) := midpoint_strictMono.monotone (Nat.zero_le _)
  have hzero : midpoint 0 = 2 ^ (-1075 : ℤ) := by
    have hscale : scale 0 = -1075 + 1 := rfl
    rw [midpoint, magnitude_zero, hscale, zpow_add_one₀ (by norm_num)]
    ring
  have hpower : (10 : ℚ) ^ (-330 : ℤ) < 2 ^ (-1075 : ℤ) := by
    have h : (2 : ℕ) ^ 1075 < 10 ^ 330 := by decide +kernel
    rw [zpow_neg, zpow_neg]
    exact inv_strictAnti₀ (two_zpow_pos _) (by exact_mod_cast h)
  rw [hzero] at hmono
  exact absurd (hmono.trans hmid) (hq.trans hpower).not_ge

end Double

/-! ### Decimals -/

namespace Decimal

/-- The rational number that a decimal stands for. -/
def value (d : Decimal) : ℚ := d.digits * 10 ^ d.exponent

theorem ten_zpow_pos (e : ℤ) : (0 : ℚ) < 10 ^ e := zpow_pos (by norm_num) e

theorem value_nonneg (d : Decimal) : 0 ≤ d.value :=
  mul_nonneg (Nat.cast_nonneg _) (ten_zpow_pos _).le

theorem ratio_snd_pos (d : Decimal) : 0 < d.ratio.2 := by
  unfold ratio
  split
  · exact Nat.one_pos
  · exact Nat.pow_pos (by norm_num)

theorem ratio_fst_pos {d : Decimal} (hd : d.digits ≠ 0) : 0 < d.ratio.1 := by
  have hpos := Nat.pos_of_ne_zero hd
  unfold ratio
  split
  · exact Nat.mul_pos hpos (Nat.pow_pos (by norm_num))
  · exact hpos

theorem ratio_eq (d : Decimal) : (d.ratio.1 / d.ratio.2 : ℚ) = d.value := by
  unfold ratio value
  split
  next he =>
    obtain ⟨k, hk⟩ := Int.eq_ofNat_of_zero_le he
    simp [hk]
  next he =>
    obtain ⟨k, hk⟩ : ∃ k : ℕ, d.exponent = -k := ⟨d.exponent.natAbs, by omega⟩
    simp [hk, div_eq_mul_inv]

theorem toDigits_bounds {n : Nat} (hn : n ≠ 0) :
    10 ^ ((Nat.toDigits 10 n).length - 1) ≤ n ∧ n < 10 ^ (Nat.toDigits 10 n).length := by
  have hlength : 0 < (Nat.toDigits 10 n).length := Nat.length_toDigits_pos
  refine ⟨?_, (Nat.length_toDigits_le_iff (by norm_num) hlength).mp (Nat.le_refl _)⟩
  rcases Nat.eq_zero_or_pos ((Nat.toDigits 10 n).length - 1) with hone | hmore
  · rw [hone]
    exact Nat.pos_of_ne_zero hn
  · refine Nat.le_of_not_lt fun hlt => ?_
    have := (Nat.length_toDigits_le_iff (by norm_num) hmore).mpr hlt
    omega

/-- The place of the first digit gives bounds on a decimal. -/
theorem value_bounds {d : Decimal} (hd : d.digits ≠ 0) :
    (10 : ℚ) ^ ((Nat.toDigits 10 d.digits).length + d.exponent - 1) ≤ d.value ∧
      d.value < 10 ^ ((Nat.toDigits 10 d.digits).length + d.exponent) := by
  obtain ⟨hlower, hupper⟩ := toDigits_bounds hd
  have hlength : 0 < (Nat.toDigits 10 d.digits).length := Nat.length_toDigits_pos
  have hsplit : ((Nat.toDigits 10 d.digits).length : ℤ) + d.exponent - 1 =
      ((Nat.toDigits 10 d.digits).length - 1 : ℕ) + d.exponent := by omega
  rw [hsplit, value, zpow_add₀ (by norm_num), zpow_add₀ (by norm_num), zpow_natCast, zpow_natCast]
  exact ⟨mul_le_mul_of_nonneg_right (by exact_mod_cast hlower) (ten_zpow_pos _).le,
    mul_lt_mul_of_pos_right (by exact_mod_cast hupper) (ten_zpow_pos _)⟩

/-- **Reading a decimal is rounding.** -/
theorem toDouble_eq (negative : Bool) {d : Decimal} {r : Nat} (h : Double.RoundsTo d.value r) :
    d.toDouble negative = Double.ofRank negative r := by
  unfold toDouble
  split
  next hzero =>
    have hvalue : d.value = 0 := by rw [value, eq_of_beq hzero, Nat.cast_zero, zero_mul]
    rw [hvalue] at h
    rw [h.unique .zero]
    rfl
  next hzero =>
    have hdigits : d.digits ≠ 0 := fun h => hzero (beq_iff_eq.mpr h)
    obtain ⟨hlower, hupper⟩ := value_bounds hdigits
    dsimp only
    split
    next hlarge =>
      refine (h.ofRank_eq_infinity (le_trans ?_ hlower)).symm
      exact zpow_le_zpow_right₀ (by norm_num) (by omega)
    next =>
      split
      next hsmall =>
        rw [h.eq_zero (hupper.trans ?_)]
        · rfl
        · exact zpow_lt_zpow_right₀ (by norm_num) (by omega)
      next =>
        exact Double.RoundsTo.ofRatio_eq (ratio_fst_pos hdigits) d.ratio_snd_pos
          (d.ratio_eq.symm ▸ h)

theorem toDouble_eq_of_nearest (negative : Bool) {d : Decimal} {r : Nat}
    (h : Double.Nearest d.value r) : d.toDouble negative = Double.ofRank negative r := by
  obtain ⟨r', h'⟩ := Double.exists_roundsTo d.value_nonneg
  rw [toDouble_eq negative h', h.unique h'.nearest, Double.ofRank_min]

end Decimal

end SchemaDoc
