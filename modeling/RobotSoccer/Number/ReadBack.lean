import RobotSoccer.Number.Decimal
import RobotSoccer.Number.Faithful

/-!
# The shortest decimal reads back

Every decimal that is found for a double reads back as it by the way it is looked for. What is
left is the exact value that is given when none is found: reading it rounds nothing, because
it is a whole multiple of a power of two however its zeros are written.
-/

namespace RobotSoccer.Decimal

/-- A decimal whose value is exactly `m * 2^q`; the negative powers stand on the other side. -/
def Exactly (d : Decimal) (m : Nat) (q : Int) : Prop :=
  (d.digits * tenTo d.exponent.toNat) <<< (-q).toNat =
    m <<< q.toNat * tenTo (-d.exponent).toNat

/-- The same with powers in place of shifts. -/
theorem exactly_iff_pow {d : Decimal} {m : Nat} {q : Int} :
    Exactly d m q ↔ d.digits * Nat.pow 10 d.exponent.toNat * Nat.pow 2 (-q).toNat =
      m * Nat.pow 2 q.toNat * Nat.pow 10 (-d.exponent).toNat := by
  unfold Exactly tenTo
  rw [Nat.shiftLeft_eq, Nat.shiftLeft_eq]
  exact Iff.rfl

/-- The exact value is what it is called. -/
theorem exactly_exact (m : Nat) (q : Int) : Exactly (exact m q) m q := by
  rw [exactly_iff_pow]
  unfold exact
  simp only [Nat.pow_eq, Nat.shiftLeft_eq]
  split
  · next h =>
    have hz : (-q).toNat = 0 := by omega
    simp [hz]
  · next h =>
    have hz : q.toNat = 0 := by omega
    simp only [hz, Nat.pow_zero, Nat.mul_one]
    rw [Nat.mul_assoc, ← Nat.mul_pow]

/-- Dropping zeros keeps the value. -/
theorem Exactly.stripZeros {d : Decimal} {m : Nat} {q : Int} (limit : Nat)
    (h : Exactly d m q) : Exactly (stripZeros limit d) m q := by
  induction limit generalizing d with
  | zero => exact h
  | succ limit ih =>
    unfold Decimal.stripZeros
    split
    · next hzero =>
      apply ih
      rw [exactly_iff_pow] at h ⊢
      simp only [Nat.pow_eq] at h ⊢
      obtain ⟨digits, exponent⟩ := d
      dsimp only at h hzero ⊢
      have hten : digits = 10 * (digits / 10) := by omega
      generalize digits / 10 = a at *
      subst hten
      by_cases he : 0 ≤ exponent
      · have h1 : (exponent + 1).toNat = exponent.toNat + 1 := by omega
        have h2 : (-(exponent + 1)).toNat = (-exponent).toNat := by omega
        rw [h1, h2, ← h, Nat.pow_succ]
        congr 1
        rw [Nat.mul_comm 10 a, Nat.mul_assoc, Nat.mul_comm 10]
      · have h1 : (exponent + 1).toNat = 0 := by omega
        have h2 : exponent.toNat = 0 := by omega
        have h3 : (-exponent).toNat = (-(exponent + 1)).toNat + 1 := by omega
        rw [h2, h3, Nat.pow_succ, Nat.pow_zero, Nat.mul_one] at h
        rw [h1, Nat.pow_zero, Nat.mul_one]
        apply Nat.eq_of_mul_eq_mul_left (show 0 < 10 by decide)
        rw [← Nat.mul_assoc 10 a, h, ← Nat.mul_assoc (m * 2 ^ q.toNat), Nat.mul_comm 10]
    · exact h

/-- What is under a power of two stays under a power of two when it is scaled. -/
theorem mul_pow_lt {a b k c : Nat} (ha : a < Nat.pow 2 b) (hk : k ≤ c) :
    a * Nat.pow 2 k < Nat.pow 2 (b + c) := by
  simp only [Nat.pow_eq] at ha ⊢
  calc a * 2 ^ k ≤ a * 2 ^ c := Nat.mul_le_mul_left _ (Nat.pow_le_pow_right (by decide) hk)
    _ < 2 ^ b * 2 ^ c := Nat.mul_lt_mul_of_pos_right ha (Nat.two_pow_pos _)
    _ = 2 ^ (b + c) := (Nat.pow_add 2 b c).symm

section Powers

variable {digits m s t n : Nat}

/-- A multiple of a power of ten that is a double is not past every double. -/
theorem le_reach (hdigits : 0 < digits) (hlimit : m < 0x20000000000000) (hs : s ≤ 971)
    (h : digits * Nat.pow 10 n * Nat.pow 2 t = m * Nat.pow 2 s) : n ≤ reach := by
  refine Nat.le_of_not_lt fun hreach => ?_
  have hleft : Nat.pow 10 n ≤ digits * Nat.pow 10 n * Nat.pow 2 t :=
    Nat.le_trans (Nat.le_mul_of_pos_left _ hdigits)
      (Nat.le_mul_of_pos_right _ (Nat.two_pow_pos _))
  have hright := mul_pow_lt (b := 53) hlimit hs
  have hbig : Nat.pow 2 (53 + 971) < Nat.pow 10 (reach + 1) := by decide +kernel
  have hten (c : Nat) (hc : c ≤ n) : Nat.pow 10 c ≤ Nat.pow 10 n := Nat.pow_le_pow_right (by decide) hc
  rw [h] at hleft
  exact Nat.lt_irrefl _ (Nat.lt_of_lt_of_le hbig
    (Nat.le_trans (hten _ hreach) (Nat.le_trans hleft (Nat.le_of_lt hright))))

/-- A decimal that is a double does not vanish against the power of ten under it. -/
theorem le_reach_log2 (hm : 0 < m) (ht : t ≤ 1074)
    (h : digits * Nat.pow 2 t = m * Nat.pow 2 s * Nat.pow 10 n) : n ≤ reach + digits.log2 + 1 := by
  have hpower : Nat.pow 10 n < Nat.pow 2 (digits.log2 + 1 + 1074) :=
    calc Nat.pow 10 n ≤ m * Nat.pow 2 s * Nat.pow 10 n :=
          Nat.le_mul_of_pos_left _ (Nat.mul_pos hm (Nat.two_pow_pos _))
      _ = digits * Nat.pow 2 t := h.symm
      _ < Nat.pow 2 (digits.log2 + 1 + 1074) := mul_pow_lt Nat.lt_log2_self ht
  have height : Nat.pow 2 (3 * n) ≤ Nat.pow 10 n := by
    simp only [Nat.pow_eq]
    rw [Nat.pow_mul]
    exact Nat.pow_le_pow_left (by decide) n
  have hlt := (Nat.pow_lt_pow_iff_right (show 1 < 2 by decide)).1 (Nat.lt_of_le_of_lt height hpower)
  unfold reach
  omega

/-- The digits of a decimal that is a double are a multiple of its power of ten when they are scaled
by a power of two that is as great. -/
theorem pow_ten_dvd {k : Nat} (hk : n ≤ k)
    (h : digits * Nat.pow 2 t = m * Nat.pow 2 s * Nat.pow 10 n) :
    Nat.pow 10 n ∣ digits * Nat.pow 2 k := by
  simp only [Nat.pow_eq] at h ⊢
  have hfive : 5 ^ n ∣ digits := by
    have hcop : Nat.Coprime (5 ^ n) (2 ^ t) := Nat.Coprime.pow n _ (by decide)
    refine hcop.dvd_of_dvd_mul_right ?_
    rw [h, show (10 : Nat) = 2 * 5 by decide, Nat.mul_pow, ← Nat.mul_assoc]
    exact Nat.dvd_mul_left _ _
  rw [show (10 : Nat) = 5 * 2 by decide, Nat.mul_pow]
  exact Nat.mul_dvd_mul hfive (Nat.pow_dvd_pow 2 hk)

end Powers

/-- Two significands that are one number in the places of two exponents are rounded alike. -/
theorem nearestBits_scaled {a b s t : Nat} {p q : Int}
    (h : a * Nat.pow 2 t = b * Nat.pow 2 s) (hplaces : p - t = q - s) :
    Binary64.nearestBits a p = Binary64.nearestBits b q := by
  have ha := Binary64.nearestBits_shiftLeft a t (p - t)
  have hb := Binary64.nearestBits_shiftLeft b s (q - s)
  rw [Nat.shiftLeft_eq, Int.sub_add_cancel] at ha hb
  rw [← ha, ← hb, hplaces]
  exact congrArg (fun scaled => Binary64.nearestBits scaled (q - s)) h

/-- Rounding a decimal that is exactly `m * 2^q` is rounding `m * 2^q`. -/
theorem roundedBits_of_exactly {d : Decimal} {m : Nat} {q : Int} (h : Exactly d m q)
    (hm : m ≠ 0) (hlimit : m < 0x20000000000000) (hlow : -1074 ≤ q) (hhigh : q ≤ 971) :
    d.roundedBits = Binary64.nearestBits m q := by
  obtain ⟨digits, exponent⟩ := d
  rw [exactly_iff_pow] at h
  dsimp only at h
  have hmpos : 0 < m := Nat.pos_of_ne_zero hm
  have hdigits : digits ≠ 0 := by
    rintro rfl
    have hpos : 0 < m * Nat.pow 2 q.toNat * Nat.pow 10 (-exponent).toNat :=
      Nat.mul_pos (Nat.mul_pos hmpos (Nat.two_pow_pos _)) (Nat.pow_pos (by decide))
    rw [Nat.zero_mul, Nat.zero_mul] at h
    exact Nat.ne_of_gt hpos h.symm
  have hone : Nat.pow 10 0 = 1 := rfl
  unfold roundedBits tenTo
  dsimp only
  rw [if_neg hdigits]
  by_cases hexponent : 0 ≤ exponent
  · have hnone : (-exponent).toNat = 0 := by omega
    rw [hnone, hone, Nat.mul_one] at h
    have hreach := le_reach (Nat.pos_of_ne_zero hdigits) hlimit (by omega) h
    rw [if_pos hexponent, if_neg (Nat.not_lt.2 hreach)]
    exact nearestBits_scaled h (by omega)
  · have hnone : exponent.toNat = 0 := by omega
    rw [hnone, hone, Nat.mul_one] at h
    rw [if_neg hexponent]
    generalize (-exponent).toNat = n at h ⊢
    have hreach := le_reach_log2 hmpos (by omega) h
    rw [if_neg (Nat.not_lt.2 hreach), Nat.shiftLeft_eq]
    generalize hk : 64 + 4 * n = k
    -- the division leaves no rest, so the last bit is not set
    have hdvd : Nat.pow 10 n ∣ digits * 2 ^ k := pow_ten_dvd (by omega) h
    rw [if_pos (Nat.mod_eq_zero_of_dvd hdvd), Nat.add_zero]
    obtain ⟨whole, hwhole⟩ := hdvd
    have hten : 0 < Nat.pow 10 n := Nat.pow_pos (by decide)
    rw [hwhole, Nat.mul_div_cancel_left _ hten]
    have hvalue : 2 * whole * Nat.pow 2 (-q).toNat = m * Nat.pow 2 (q.toNat + (k + 1)) := by
      simp only [Nat.pow_eq] at h hwhole hten ⊢
      apply Nat.eq_of_mul_eq_mul_left hten
      calc 10 ^ n * (2 * whole * 2 ^ (-q).toNat) = 10 ^ n * whole * 2 ^ (-q).toNat * 2 := by
            rw [Nat.mul_comm 2 whole, Nat.mul_right_comm, ← Nat.mul_assoc, ← Nat.mul_assoc]
        _ = digits * 2 ^ (-q).toNat * 2 ^ k * 2 := by
            rw [← hwhole, Nat.mul_right_comm digits]
        _ = m * 2 ^ q.toNat * 10 ^ n * 2 ^ (k + 1) := by
            rw [h, Nat.pow_succ 2 k, Nat.mul_assoc]
        _ = 10 ^ n * (m * 2 ^ (q.toNat + (k + 1))) := by
            rw [Nat.pow_add 2 q.toNat, Nat.mul_comm _ (10 ^ n), Nat.mul_assoc (10 ^ n), Nat.mul_assoc m]
    exact nearestBits_scaled hvalue (by omega)

/-- A decimal found for some count of digits reads back as the bits it was looked for. -/
theorem nearestBits_of_withDigits? {bits count : Nat} {ratio : Nat × Nat} {top : Int}
    {d : Decimal} (h : withDigits? bits ratio top count = some d) : d.nearestBits = bits := by
  unfold withDigits? at h
  dsimp only at h
  split at h
  · next hbelow =>
    split at h
    · next habove =>
      split at h
      · exact Option.some.inj h ▸ hbelow
      · exact Option.some.inj h ▸ habove
    · exact Option.some.inj h ▸ hbelow
  · split at h
    · next habove => exact Option.some.inj h ▸ habove
    · exact absurd h (by simp)

/-- The shortest decimal of a finite double reads back as that double. -/
theorem nearestBits_shortest {m : Nat} {q : Int} (hlimit : m < 0x20000000000000) (hlow : -1074 ≤ q)
    (hhigh : q ≤ 971) : (shortest m q).nearestBits = Binary64.nearestBits m q := by
  unfold shortest
  split
  · next hm =>
    subst hm
    simp [nearestBits, normal, stripZeros, roundedBits, Binary64.nearestBits]
  · next hm =>
    unfold fewest
    dsimp only
    cases htried : (List.range digitLimit).findSome? fun k =>
        withDigits? (Binary64.nearestBits m q) (ratioOfScaled m q) (leadingPower m q) (k + 1) with
    | none =>
      exact roundedBits_of_exactly
        (((exactly_exact m q).stripZeros _).stripZeros _) hm hlimit hlow hhigh
    | some d =>
      obtain ⟨k, -, hk⟩ := List.exists_of_findSome?_eq_some htried
      exact nearestBits_of_withDigits? hk

end RobotSoccer.Decimal
