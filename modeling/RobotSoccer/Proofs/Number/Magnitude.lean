import RobotSoccer.Proofs.Number.Scaling

/-!
# How large a decimal is

The exact value of a decimal as a rational number, which zeros at the end of its digits do not
change. A decimal that is not under a whole number is not rounded to less than this is.
-/

namespace RobotSoccer.Decimal

/-- The number that a decimal is. -/
def value (d : Decimal) : ℚ := d.digits * 10 ^ d.exponent

/-- Zeros that are dropped do not change the number. -/
theorem value_stripZeros (limit : Nat) (d : Decimal) : (stripZeros limit d).value = d.value := by
  induction limit generalizing d with
  | zero => rfl
  | succ limit ih =>
    unfold stripZeros
    by_cases hten : d.digits ≠ 0 ∧ d.digits % 10 = 0
    · rw [if_pos hten, ih, value, value]
      have hdigits : (d.digits : ℚ) = (d.digits / 10 : ℕ) * 10 := by
        have hnat : d.digits = d.digits / 10 * 10 := by omega
        exact_mod_cast hnat
      rw [hdigits, zpow_add_one₀ (by norm_num), mul_assoc, mul_comm (10 : ℚ)]
    · rw [if_neg hten]

/-- Without zeros at its end a decimal is the same number. -/
theorem value_normal (d : Decimal) : d.normal.value = d.value := value_stripZeros _ d

/-- A number has at least as many binary digits as zeros of a power of ten that it reaches. -/
theorem le_log2_of_pow_le {digits k : Nat} (h : 10 ^ k ≤ digits) : k ≤ digits.log2 + 1 := by
  by_contra hless
  have hpower : digits < 10 ^ k := calc
    digits < 2 ^ (digits.log2 + 1) := Nat.lt_log2_self
    _ ≤ 2 ^ k := Nat.pow_le_pow_right (by decide) (by omega)
    _ ≤ 10 ^ k := Nat.pow_le_pow_left (by decide) k
  omega

/-- A decimal that is not under a whole number is not rounded to less than this is. -/
theorem nearestBits_le_roundedBits {d : Decimal} {n : Nat} (h : (n : ℚ) ≤ d.value) :
    Binary64.nearestBits n 0 ≤ d.roundedBits := by
  by_cases hn : n = 0
  · rw [hn, Binary64.nearestBits, if_pos rfl]
    exact Nat.zero_le _
  obtain ⟨digits, exponent⟩ := d
  rw [value] at h
  dsimp only at h
  have hpos : 0 < n := Nat.pos_of_ne_zero hn
  have hdigits : digits ≠ 0 := by
    rintro rfl
    rw [Nat.cast_zero, zero_mul] at h
    exact absurd (Nat.cast_pos.2 hpos) (not_lt.2 h)
  unfold roundedBits tenTo
  dsimp only
  rw [if_neg hdigits]
  by_cases hexp : 0 ≤ exponent
  · obtain ⟨k, rfl⟩ := Int.eq_ofNat_of_zero_le hexp
    rw [if_pos hexp]
    by_cases hreach : reach < (k : Int).toNat
    · rw [if_pos hreach]
      unfold Binary64.nearestBits
      rw [if_neg hn]
      exact min_le_right _ _
    · rw [if_neg hreach, Int.toNat_natCast, Nat.pow_eq]
      rw [zpow_natCast] at h
      exact Binary64.nearestBits_le_nearestBits (by exact_mod_cast h) 0
  · obtain ⟨k, rfl⟩ : ∃ k : Nat, exponent = -k := ⟨(-exponent).toNat, by omega⟩
    rw [zpow_neg, zpow_natCast, ← div_eq_mul_inv, le_div_iff₀ (by positivity)] at h
    have hscaled : n * 10 ^ k ≤ digits := by exact_mod_cast h
    have hlog := le_log2_of_pow_le ((Nat.le_mul_of_pos_left (10 ^ k) hpos).trans hscaled)
    rw [if_neg hexp]
    simp only [Int.neg_neg, Int.toNat_natCast, Nat.pow_eq]
    rw [if_neg (by omega), Nat.shiftLeft_eq]
    generalize 64 + 4 * k = j
    -- the division is exact enough to keep all of the whole number
    have hwhole : n * 2 ^ j ≤ digits * 2 ^ j / 10 ^ k := by
      rw [Nat.le_div_iff_mul_le (Nat.pow_pos (by decide)), Nat.mul_right_comm]
      exact Nat.mul_le_mul_right _ hscaled
    generalize digits * 2 ^ j / 10 ^ k = whole at hwhole ⊢
    generalize (if digits * 2 ^ j % 10 ^ k = 0 then 0 else 1) = last
    have hsame : Binary64.nearestBits n 0 =
        Binary64.nearestBits (n <<< (j + 1)) (-((j + 1 : Nat) : Int)) := by
      rw [Binary64.nearestBits_shiftLeft, Int.add_left_neg]
    rw [hsame, Nat.shiftLeft_eq, Nat.pow_succ, ← Nat.mul_assoc]
    exact Binary64.nearestBits_le_nearestBits (by omega) _

/-- A decimal that is rounded to less than a whole number is, is under it. -/
theorem value_lt_of_nearestBits {d : Decimal} {n : Nat}
    (h : d.nearestBits < Binary64.nearestBits n 0) : d.value < n := by
  by_contra hless
  rw [← value_normal, not_lt] at hless
  exact absurd (nearestBits_le_roundedBits hless) (not_le.2 h)

end RobotSoccer.Decimal
