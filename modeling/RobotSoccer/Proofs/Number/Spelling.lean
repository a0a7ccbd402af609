import RobotSoccer.Proofs.Number.Finite

/-!
# Spellings of a decimal

Zeros at the end of the digits of a decimal do not change the double that is nearest to it.
-/

namespace RobotSoccer.Decimal

/-- Dropping zeros does not depend on the limit once the limit passes the binary length of the
digits. -/
theorem stripZeros_congr {a : Nat} (e : Int) {limit other : Nat} (ha : a ≠ 0)
    (hl : a.log2 < limit) (ho : a.log2 < other) :
    stripZeros limit ⟨a, e⟩ = stripZeros other ⟨a, e⟩ := by
  induction limit generalizing a e other with
  | zero => exact absurd hl (Nat.not_lt_zero _)
  | succ limit ih =>
    cases other with
    | zero => exact absurd ho (Nat.not_lt_zero _)
    | succ other =>
      unfold stripZeros
      by_cases hten : a ≠ 0 ∧ a % 10 = 0
      · rw [if_pos hten, if_pos hten]
        dsimp only
        have hrest : a / 10 ≠ 0 := by omega
        have hlog : (a / 10).log2 < a.log2 := by
          have hup := (Nat.log2_eq_iff ha).1 rfl
          rw [Nat.log2_lt hrest]
          rw [Nat.pow_succ] at hup
          omega
        exact ih _ hrest (by omega) (by omega)
      · rw [if_neg hten, if_neg hten]

/-- A zero behind the digits is dropped. -/
theorem normal_zero_behind {a : Nat} (e : Int) (ha : a ≠ 0) :
    normal ⟨a * 10, e - 1⟩ = normal ⟨a, e⟩ := by
  have hten : a * 10 ≠ 0 ∧ a * 10 % 10 = 0 := ⟨by omega, by omega⟩
  have hlog : a.log2 + 1 ≤ (a * 10).log2 := by
    rw [← Nat.log2_two_mul ha, Nat.le_log2 hten.1]
    have hdouble := Nat.log2_self_le (show 2 * a ≠ 0 by omega)
    omega
  unfold normal
  dsimp only
  rw [stripZeros, if_pos hten]
  dsimp only
  rw [Nat.mul_div_cancel a (by decide), show e - 1 + 1 = e by omega]
  exact stripZeros_congr e ha (by omega) (by omega)

/-- Zeros behind the digits of a decimal do not change the double nearest to it. -/
theorem nearestBits_zeros_behind (k : Nat) (d : Decimal) :
    nearestBits ⟨d.digits * tenTo k, d.exponent - k⟩ = nearestBits d := by
  obtain ⟨a, e⟩ := d
  dsimp only
  by_cases ha : a = 0
  · subst ha
    simp [nearestBits, normal, stripZeros, roundedBits]
  · rw [nearestBits]
    congr 1
    induction k with
    | zero => simp [tenTo]
    | succ k ih =>
      have hne : a * tenTo k ≠ 0 := Nat.mul_ne_zero ha (Nat.ne_of_gt (Nat.pow_pos (by decide)))
      have hten : a * tenTo (k + 1) = a * tenTo k * 10 := by
        rw [Nat.mul_assoc]
        rfl
      have hpower : e - ((k + 1 : Nat) : Int) = e - k - 1 := by omega
      rw [hten, hpower, normal_zero_behind _ hne, ih]

end RobotSoccer.Decimal
