import RobotSoccer.Number.Scaling
import RobotSoccer.Proofs.Number.Finite
import RobotSoccer.Proofs.Number.Ordered

/-!
# Scaling by powers of ten stays finite

A product grows with its factors, and a quotient by a power of ten is no greater than what is
divided. So a whole number of 64 bits that is scaled by a power of ten gives a finite double or
none, and it gives one whenever the scaled number is under what the greatest double is near to.
-/

namespace RobotSoccer

namespace Binary64

/-- Finite magnitude bits are those that their own number is rounded to. -/
theorem nearestBits_significand {bits : Nat} (h : bits < infinityBits) :
    nearestBits (significand bits) (exponent bits) = bits := by
  rw [infinityBits] at h
  have hfield : bits >>> 52 < 2048 := by omega
  have hfraction : bits % 0x10000000000000 < 0x10000000000000 := Nat.mod_lt _ (by decide)
  have hshape : shapeOfFields false (bits >>> 52) (bits % 0x10000000000000) =
      .finite false (significand bits) (exponent bits) := by
    unfold shapeOfFields significand exponent
    rw [if_neg (by omega)]
    by_cases hsmall : bits < 0x10000000000000
    · rw [if_pos (by omega), if_pos hsmall, if_pos hsmall, Nat.mod_eq_of_lt hsmall]
    · rw [if_neg (by omega), if_neg hsmall, if_neg hsmall]
  rw [nearestBits_of_shape hfield hfraction hshape]
  omega

/-- The number that a finite magnitude is. -/
def magnitudeValue (bits : Nat) : ℚ := scaledValue (significand bits) (exponent bits)

/-- Greater magnitude bits are a greater number. -/
theorem magnitudeValue_mono {a b : Nat} (h : a ≤ b) (hb : b < infinityBits) :
    magnitudeValue a ≤ magnitudeValue b := by
  rcases h.eq_or_lt with rfl | hlt
  · exact le_refl _
  by_contra hless
  have hback := nearestBits_mono (not_le.1 hless).le
  rw [nearestBits_significand hb, nearestBits_significand (hlt.trans hb)] at hback
  omega

/-- The number of a product of two factors. -/
theorem scaledValue_mul (m n : Nat) (q p : Int) :
    scaledValue (m * n) (q + p) = scaledValue m q * scaledValue n p := by
  unfold scaledValue
  rw [zpow_add₀ (by norm_num), Nat.cast_mul]
  ring

/-- A product grows with its first factor. -/
theorem product_mono {a b : Nat} (c : Nat) (h : a ≤ b) (hb : b < infinityBits) :
    product a c ≤ product b c := by
  refine nearestBits_mono ?_
  rw [scaledValue_mul, scaledValue_mul]
  have hc : (0 : ℚ) ≤ scaledValue (significand c) (exponent c) := by
    unfold scaledValue
    positivity
  exact mul_le_mul_of_nonneg_right (magnitudeValue_mono h hb) hc

/-- The magnitude bits of one. -/
def oneBits : Nat := 0x3FF0000000000000

/-- A quotient with one more bit for its rest is under twice what it is reached by. -/
theorem quotient_rest_le {a n b : Nat} (h : a ≤ n * b) :
    2 * (a / n) + (if a % n = 0 then 0 else 1) ≤ 2 * b := by
  have hdiv := Nat.div_add_mod a n
  have hwhole : a / n ≤ b := Nat.div_le_of_le_mul h
  rcases hwhole.eq_or_lt with heq | hless
  · rw [heq] at hdiv ⊢
    rw [if_pos (by omega), Nat.add_zero]
  · split <;> omega

/-- A magnitude that is one or more has its unit among the places of a quotient, and covers it. -/
theorem exists_unit_le {b : Nat} (hone : oneBits ≤ b) (hb : b < infinityBits) :
    ∃ k : Nat, (k : Int) = 128 + exponent b ∧ 2 ^ 128 ≤ significand b * 2 ^ k := by
  have hvalue := magnitudeValue_mono hone hb
  have hone' : magnitudeValue oneBits = 1 := by
    have hparts : significand oneBits = 2 ^ 52 ∧ exponent oneBits = -52 := by decide
    rw [magnitudeValue, hparts.1, hparts.2, scaledValue]
    norm_num
  rw [hone', magnitudeValue, scaledValue] at hvalue
  have hplace : -52 ≤ exponent b := by
    rw [oneBits] at hone
    rw [exponent, if_neg (by omega), leastExponent]
    omega
  obtain ⟨k, hk⟩ : ∃ k : Nat, (k : Int) = 128 + exponent b := ⟨(128 + exponent b).toNat, by omega⟩
  have hunit : (2 : ℚ) ^ (128 : ℕ) ≤ significand b * 2 ^ k := by
    calc (2 : ℚ) ^ (128 : ℕ) = 1 * 2 ^ (128 : ℕ) := (one_mul _).symm
      _ ≤ significand b * 2 ^ exponent b * 2 ^ (128 : ℕ) :=
        mul_le_mul_of_nonneg_right hvalue (by positivity)
      _ = significand b * 2 ^ k := by
        rw [mul_assoc, ← zpow_natCast, ← zpow_natCast, ← zpow_add₀ (by norm_num), hk]
        congr 2
        push_cast
        ring
  exact ⟨k, hk, by exact_mod_cast hunit⟩

/-- A quotient by a number that is at least one is not greater than what is divided. -/
theorem quotient_le {a b : Nat} (ha : a < infinityBits) (hone : oneBits ≤ b) (hb : b < infinityBits) :
    quotient a b ≤ a := by
  obtain ⟨k, hk, hunit⟩ := exists_unit_le hone hb
  have hscaled : significand a <<< 128 ≤ significand b * (significand a * 2 ^ k) := by
    calc significand a <<< 128 = significand a * 2 ^ 128 := Nat.shiftLeft_eq _ _
      _ ≤ significand a * (significand b * 2 ^ k) := Nat.mul_le_mul_left _ hunit
      _ = significand b * (significand a * 2 ^ k) := Nat.mul_left_comm _ _ _
  -- what is divided, counted in units of the quotient
  have hsame : nearestBits (2 * (significand a * 2 ^ k)) (exponent a - exponent b - 129) = a := by
    have hshift : 2 * (significand a * 2 ^ k) = significand a <<< (k + 1) := by
      rw [Nat.shiftLeft_eq, Nat.pow_succ]
      ring
    have hplace : exponent a - exponent b - 129 + ((k + 1 : Nat) : Int) = exponent a := by omega
    rw [hshift, nearestBits_shiftLeft, hplace, nearestBits_significand ha]
  calc quotient a b ≤ nearestBits (2 * (significand a * 2 ^ k)) (exponent a - exponent b - 129) :=
        nearestBits_le_nearestBits (quotient_rest_le hscaled) _
    _ = a := hsame

end Binary64

/-- A power of ten is one among the rational numbers. -/
theorem Decimal.cast_tenTo (n : Nat) : ((Decimal.tenTo n : Nat) : ℚ) = 10 ^ n := by
  rw [tenTo, Nat.pow_eq]
  push_cast
  rfl

namespace PowerOfTen

open Binary64

/-- The double near to a power of ten lies between one and infinity. -/
theorem bits_bounds {n : Nat} (h : n ≤ greatest) : oneBits ≤ bits n ∧ bits n < infinityBits := by
  have hmono {k l : Nat} (hle : k ≤ l) : bits k ≤ bits l := by
    refine nearestBits_mono ?_
    rw [scaledValue, scaledValue, Decimal.cast_tenTo, Decimal.cast_tenTo]
    exact mul_le_mul_of_nonneg_right (pow_le_pow_right₀ (by norm_num) hle) (by norm_num)
  have hone : oneBits = bits 0 := by decide
  have hlast : bits greatest < infinityBits := by decide +kernel
  exact ⟨hone ▸ hmono (Nat.zero_le n), (hmono h).trans_lt hlast⟩

/-- Dividing out powers of ten makes nothing greater. -/
theorem lowered_le {magnitude : Nat} (rounds : Nat) (h : magnitude < infinityBits) :
    lowered magnitude rounds ≤ magnitude := by
  induction rounds generalizing magnitude with
  | zero => exact le_refl _
  | succ rounds ih =>
    obtain ⟨hone, hfinite⟩ := bits_bounds (le_refl greatest)
    have hquotient := quotient_le h hone hfinite
    rw [lowered]
    split
    · exact Nat.zero_le _
    · exact (ih (hquotient.trans_lt h)).trans hquotient

/-- A magnitude is not made greater by being divided by a power of ten. -/
theorem divided_le {magnitude n : Nat} (h : magnitude < infinityBits) :
    divided magnitude n ≤ magnitude := by
  have hlowered := lowered_le ((n - 1) / greatest) h
  have hrest : n - greatest * ((n - 1) / greatest) ≤ greatest := by
    have hdiv := Nat.div_add_mod (n - 1) greatest
    have hmod := Nat.mod_lt (n - 1) (by decide : 0 < greatest)
    omega
  obtain ⟨hone, hfinite⟩ := bits_bounds hrest
  exact (quotient_le (hlowered.trans_lt h) hone hfinite).trans hlowered

variable {negative : Bool} {digits : Nat} {power : Int}

/-- A whole number of 64 bits that is scaled gives a finite double or none. -/
theorem isFinite_of_scaled? (hdigits : digits < 0x10000000000000000) {x : Float}
    (h : scaled? negative digits power = some x) : x.isFinite = true := by
  have hmagnitude := nearestBits_lt_of_lt hdigits
  unfold scaled? at h
  dsimp only at h
  split at h
  · rw [← Option.some.inj h]
    exact isFinite_ofMagnitudeBits negative ((divided_le hmagnitude).trans_lt hmagnitude)
  · split at h
    · split at h
      · rw [← Option.some.inj h]
        exact isFinite_ofMagnitudeBits negative (by decide)
      · cases h
    · split at h
      · next hproduct =>
        rw [← Option.some.inj h]
        exact isFinite_ofMagnitudeBits negative hproduct
      · cases h

/-- A decimal between the greatest double and the middle of the way to the one before it. -/
def limit : Nat := 179769313486231561 * Decimal.tenTo 291

/-- The limit is rounded to the greatest double. -/
theorem nearestBits_limit : nearestBits limit 0 = infinityBits - 1 := by decide +kernel

/-- No whole number of 64 bits overflows that is scaled to less than the limit, whatever the power is. -/
theorem product_limit_lt :
    ∀ n < 309, product (nearestBits (min 0xFFFFFFFFFFFFFFFF (limit / Decimal.tenTo n)) 0) (bits n) <
      infinityBits := by decide +kernel

/-- A whole number of 64 bits that is scaled to less than the limit gives a double. -/
theorem exists_scaled? (negative : Bool) (hdigits : digits < 0x10000000000000000)
    (hvalue : (digits : ℚ) * 10 ^ power < limit) :
    ∃ x, scaled? negative digits power = some x := by
  unfold scaled?
  dsimp only
  split
  · exact ⟨_, rfl⟩
  next hpower =>
  obtain ⟨n, rfl⟩ := Int.eq_ofNat_of_zero_le (not_lt.1 hpower)
  rw [zpow_natCast] at hvalue
  have hnat : digits * 10 ^ n < limit := by exact_mod_cast hvalue
  rw [Int.toNat_natCast]
  split
  · next hlarge =>
    refine ⟨_, if_pos ?_⟩
    -- a power past the greatest is under the limit only for zero
    have hzero : digits = 0 := by
      by_contra hne
      have hten : Decimal.tenTo (greatest + 1) ≤ 10 ^ n := by
        rw [Decimal.tenTo, Nat.pow_eq]
        exact Nat.pow_le_pow_right (by decide) hlarge
      have hlimit : limit < Decimal.tenTo (greatest + 1) := by decide +kernel
      have hone := Nat.le_mul_of_pos_left (10 ^ n) (Nat.pos_of_ne_zero hne)
      omega
    rw [hzero]
    decide
  · next hsmall =>
    refine ⟨_, if_pos (lt_of_le_of_lt ?_ (product_limit_lt n (by rw [greatest] at hsmall; omega)))⟩
    have hbound : digits ≤ min 0xFFFFFFFFFFFFFFFF (limit / Decimal.tenTo n) :=
      le_min (by omega) ((Nat.le_div_iff_mul_le (Nat.pow_pos (by decide))).2 hnat.le)
    refine product_mono _ (nearestBits_le_nearestBits hbound 0) (nearestBits_lt_of_lt ?_)
    exact (min_le_left _ _).trans_lt (by decide)

end PowerOfTen

end RobotSoccer
