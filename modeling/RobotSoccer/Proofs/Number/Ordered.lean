import Mathlib.Algebra.Order.Field.Power
import Mathlib.Data.Rat.Cast.Order
import Mathlib.Tactic.Linarith
import Mathlib.Tactic.NormNum
import Mathlib.Tactic.Positivity
import Mathlib.Tactic.Ring
import RobotSoccer.Number.ReadBack

/-!
# Rounding keeps the order

A double is rounded to whole units of a last place that grows with the number. The unit is never
further than half of one from the number, so a greater number is never rounded to a lesser double.
-/

namespace RobotSoccer.Binary64

/-- The exact number `m * 2^q`. -/
def scaledValue (m : Nat) (q : Int) : ℚ := m * 2 ^ q

/-- The exponent of the last place of the double that a number is rounded to. -/
def lastPlace (m : Nat) (q : Int) : Int := max (m.log2 + q - 52) leastExponent

/-- A number rounded to whole units of `2^p`. -/
def unitsOf (m : Nat) (q p : Int) : Nat :=
  if p ≤ q then m <<< (q - p).toNat else Rounding.quotient m (1 <<< (p - q).toNat)

/-- The bits that a number is rounded to are its last place and its units. -/
theorem nearestBits_eq_units {m : Nat} (q : Int) (hm : m ≠ 0) :
    nearestBits m q = min ((lastPlace m q - leastExponent).toNat <<< 52 +
      unitsOf m q (lastPlace m q)) infinityBits := if_neg hm

/-- Rounding to units misses the number by half a unit at most. -/
theorem unitsOf_near (m : Nat) (q p : Int) :
    2 * scaledValue (unitsOf m q p) p ≤ 2 * scaledValue m q + 2 ^ p ∧
      2 * scaledValue m q ≤ 2 * scaledValue (unitsOf m q p) p + 2 ^ p := by
  have hunit : (0 : ℚ) < 2 ^ p := zpow_pos (by norm_num) p
  have htwo : (2 : ℚ) ≠ 0 := by norm_num
  unfold scaledValue unitsOf
  by_cases hp : p ≤ q
  · obtain ⟨k, rfl⟩ : ∃ k : Nat, q = p + k := ⟨(q - p).toNat, by omega⟩
    have hexact : ((m <<< k : Nat) : ℚ) * 2 ^ p = m * 2 ^ (p + k) := by
      rw [Nat.shiftLeft_eq, zpow_add₀ htwo, zpow_natCast]
      push_cast
      ring
    rw [if_pos hp, show (p + k - p).toNat = k by omega, hexact]
    constructor <;> linarith
  · obtain ⟨k, rfl⟩ : ∃ k : Nat, p = q + k := ⟨(p - q).toNat, by omega⟩
    have hpower : (2 : ℚ) ^ (q + k) = 2 ^ q * ((2 ^ k : Nat) : ℚ) := by
      rw [zpow_add₀ htwo, zpow_natCast]
      push_cast
      rfl
    have hscale : (0 : ℚ) < 2 ^ q := zpow_pos (by norm_num) q
    obtain ⟨hup, hdown⟩ := Rounding.quotient_near m (2 ^ k) (Nat.two_pow_pos k)
    rw [if_neg hp, show (q + k - q).toNat = k by omega, Nat.shiftLeft_eq, Nat.one_mul, hpower]
    generalize Rounding.quotient m (2 ^ k) = s at hup hdown ⊢
    have hup' : 2 * (((2 ^ k : Nat) : ℚ) * s) ≤ 2 * m + ((2 ^ k : Nat) : ℚ) := by exact_mod_cast hup
    have hdown' : 2 * (m : ℚ) ≤ 2 * (((2 ^ k : Nat) : ℚ) * s) + ((2 ^ k : Nat) : ℚ) := by
      exact_mod_cast hdown
    constructor
    · nlinarith [mul_le_mul_of_nonneg_left hup' hscale.le]
    · nlinarith [mul_le_mul_of_nonneg_left hdown' hscale.le]

/-- The leading binary digit of a number bounds it on both sides. -/
theorem scaledValue_bounds {m : Nat} (q : Int) (hm : m ≠ 0) :
    2 ^ ((m.log2 : Int) + q) ≤ scaledValue m q ∧ scaledValue m q < 2 ^ ((m.log2 : Int) + q + 1) := by
  have htwo : (2 : ℚ) ≠ 0 := by norm_num
  have hscale : (0 : ℚ) < 2 ^ q := zpow_pos (by norm_num) q
  obtain ⟨hlow, hhigh⟩ := (Nat.log2_eq_iff hm).1 rfl
  have hlow' : ((2 ^ m.log2 : Nat) : ℚ) ≤ m := by exact_mod_cast hlow
  have hhigh' : (m : ℚ) < ((2 ^ (m.log2 + 1) : Nat) : ℚ) := by exact_mod_cast hhigh
  unfold scaledValue
  constructor
  · calc (2 : ℚ) ^ ((m.log2 : Int) + q) = ((2 ^ m.log2 : Nat) : ℚ) * 2 ^ q := by
          rw [zpow_add₀ htwo, zpow_natCast]
          push_cast
          rfl
      _ ≤ m * 2 ^ q := mul_le_mul_of_nonneg_right hlow' hscale.le
  · calc (m : ℚ) * 2 ^ q < ((2 ^ (m.log2 + 1) : Nat) : ℚ) * 2 ^ q :=
          mul_lt_mul_of_pos_right hhigh' hscale
      _ = 2 ^ ((m.log2 : Int) + q + 1) := by
          rw [show (m.log2 : Int) + q + 1 = ((m.log2 + 1 : Nat) : Int) + q by push_cast; ring,
            zpow_add₀ htwo, zpow_natCast]
          push_cast
          rfl

/-- A number is at most `2^53` units of its last place. -/
theorem unitsOf_lastPlace_le {m : Nat} (q : Int) (hm : m ≠ 0) :
    unitsOf m q (lastPlace m q) ≤ 0x20000000000000 := by
  have hunit : (0 : ℚ) < 2 ^ lastPlace m q := zpow_pos (by norm_num) _
  have hless : scaledValue m q < 2 ^ (53 : ℕ) * 2 ^ lastPlace m q := by
    refine (scaledValue_bounds q hm).2.trans_le ?_
    rw [← zpow_natCast, ← zpow_add₀ (by norm_num)]
    refine zpow_le_zpow_right₀ (by norm_num) ?_
    rw [lastPlace]
    omega
  have hnear := (unitsOf_near m q (lastPlace m q)).1
  rw [scaledValue] at hnear
  by_contra hmore
  have hcast : (2 ^ (53 : ℕ) + 1 : ℚ) ≤ unitsOf m q (lastPlace m q) := by
    have hnat : 2 ^ 53 + 1 ≤ unitsOf m q (lastPlace m q) := by omega
    exact_mod_cast hnat
  nlinarith [mul_le_mul_of_nonneg_right hcast hunit.le]

/-- A number that is not among the least is at least `2^52` units of its last place. -/
theorem le_unitsOf_lastPlace {m : Nat} {q : Int} (hm : m ≠ 0) (h : leastExponent < lastPlace m q) :
    0x10000000000000 ≤ unitsOf m q (lastPlace m q) := by
  have hunit : (0 : ℚ) < 2 ^ lastPlace m q := zpow_pos (by norm_num) _
  have hleast : (2 : ℚ) ^ (52 : ℕ) * 2 ^ lastPlace m q ≤ scaledValue m q := by
    refine le_trans (le_of_eq ?_) (scaledValue_bounds q hm).1
    rw [← zpow_natCast, ← zpow_add₀ (by norm_num)]
    congr 1
    rw [lastPlace] at h ⊢
    omega
  have hnear := (unitsOf_near m q (lastPlace m q)).2
  rw [scaledValue] at hleast hnear
  rw [scaledValue] at hnear
  by_contra hless
  have hcast : (unitsOf m q (lastPlace m q) : ℚ) + 1 ≤ 2 ^ (52 : ℕ) := by
    have hnat : unitsOf m q (lastPlace m q) + 1 ≤ 2 ^ 52 := by omega
    exact_mod_cast hnat
  nlinarith [mul_le_mul_of_nonneg_right hcast hunit.le]

/-- Equal numbers are rounded to the same double, however they are written. -/
theorem nearestBits_congr {m n : Nat} {q p : Int} (h : scaledValue m q = scaledValue n p) :
    nearestBits m q = nearestBits n p := by
  have hshift {m n : Nat} {q p : Int} (hle : q ≤ p) (h : scaledValue m q = scaledValue n p) :
      nearestBits m q = nearestBits n p := by
    obtain ⟨k, rfl⟩ : ∃ k : Nat, p = q + k := ⟨(p - q).toNat, by omega⟩
    have hscale : (2 : ℚ) ^ q ≠ 0 := zpow_ne_zero q (by norm_num)
    have hm : m = n <<< k := by
      rw [scaledValue, scaledValue, zpow_add₀ (by norm_num), mul_comm ((2 : ℚ) ^ q), ← mul_assoc] at h
      have hcast := mul_right_cancel₀ hscale h
      rw [zpow_natCast] at hcast
      rw [Nat.shiftLeft_eq]
      exact_mod_cast hcast
    rw [hm, nearestBits_shiftLeft]
  rcases le_total q p with hle | hle
  · exact hshift hle h
  · exact (hshift hle h.symm).symm

/-- A greater number is never rounded to a lesser double. -/
theorem nearestBits_mono {m n : Nat} {q p : Int} (h : scaledValue m q ≤ scaledValue n p) :
    nearestBits m q ≤ nearestBits n p := by
  by_cases hm : m = 0
  · rw [nearestBits, if_pos hm]
    exact Nat.zero_le _
  by_cases hn : n = 0
  · have hpos : 0 < scaledValue m q :=
      (zpow_pos (by norm_num) _).trans_le (scaledValue_bounds q hm).1
    rw [hn, scaledValue, scaledValue, Nat.cast_zero, zero_mul] at h
    exact absurd (h.trans_lt hpos) (lt_irrefl _)
  rcases h.eq_or_lt with heq | hlt
  · exact (nearestBits_congr heq).le
  have hlead : (m.log2 : Int) + q < (n.log2 : Int) + p + 1 :=
    (zpow_lt_zpow_iff_right₀ (by norm_num : (1 : ℚ) < 2)).1
      ((scaledValue_bounds q hm).1.trans_lt (h.trans_lt (scaledValue_bounds p hn).2))
  have hplace : lastPlace m q ≤ lastPlace n p := by
    unfold lastPlace
    omega
  rw [nearestBits_eq_units q hm, nearestBits_eq_units p hn]
  refine min_le_min_right _ ?_
  rcases hplace.eq_or_lt with hsame | hless
  · -- with the same last place the halves of a unit cannot make up for the difference
    have hunit : (0 : ℚ) < 2 ^ lastPlace n p := zpow_pos (by norm_num) _
    have hup := (unitsOf_near m q (lastPlace m q)).1
    have hdown := (unitsOf_near n p (lastPlace n p)).2
    rw [hsame] at hup ⊢
    refine Nat.add_le_add_left ?_ _
    by_contra hmore
    have hcast : (unitsOf n p (lastPlace n p) : ℚ) + 1 ≤ unitsOf m q (lastPlace n p) := by
      have hnat : unitsOf n p (lastPlace n p) + 1 ≤ unitsOf m q (lastPlace n p) := by omega
      exact_mod_cast hnat
    have hscaled := mul_le_mul_of_nonneg_right hcast hunit.le
    unfold scaledValue at hup hdown hlt
    nlinarith
  · -- a greater last place outweighs all units of a lesser one
    have hfew := unitsOf_lastPlace_le q hm
    have hleast : leastExponent ≤ lastPlace m q := le_max_right _ _
    have hmany := le_unitsOf_lastPlace hn (hleast.trans_lt hless)
    rw [leastExponent] at hleast ⊢
    omega

/-- With one exponent the greater significand is not rounded to less. -/
theorem nearestBits_le_nearestBits {m n : Nat} (h : m ≤ n) (q : Int) :
    nearestBits m q ≤ nearestBits n q := by
  refine nearestBits_mono ?_
  unfold scaledValue
  exact mul_le_mul_of_nonneg_right (by exact_mod_cast h) (by positivity)

end RobotSoccer.Binary64
