import RobotSoccer.Number.ReadBack

/-!
# Finite doubles

A double is finite when its exponent field is not the topmost one. Such a double has a shape
`±m * 2^q` whose parts lie in known bounds, and its magnitude bits stay under those of infinity. The
other way round, bits under those of infinity are the bits of a finite double, and a whole number of
64 bits is rounded to one.
-/

namespace RobotSoccer.Binary64

open Float.Model Float.Model.UnpackedFloat

/-- The exponent field of a double, read off its bits as a number. -/
theorem toNat_unpackExponent (v : BitVec 64) :
    (@unpackExponent Format.binary64 v).toNat = v.toNat >>> 52 % 2048 := by
  delta unpackExponent
  rw [BitVec.toNat_cast, BitVec.extractLsb_toNat]
  rfl

/-- The topmost exponent field marks the infinities and what is not a number. -/
theorem isFinite_iff_field (x : Float) :
    x.isFinite = true ↔ x.toBits.toNat >>> 52 % 2048 ≠ 2047 := by
  obtain ⟨⟨bits, valid⟩⟩ := x
  have hbits : (Float.toBits ⟨⟨bits, valid⟩⟩).toNat = bits.toBitVec.toNat := rfl
  have hones : @unpackExponent Format.binary64 bits.toBitVec = -1#11 ↔
      (@unpackExponent Format.binary64 bits.toBitVec).toNat = 2047 :=
    ⟨fun h => by rw [h]; rfl, fun h => BitVec.eq_of_toNat_eq h⟩
  rw [hbits, ← toNat_unpackExponent, ne_eq, ← hones]
  change (UnpackedFloat.unpack Format.binary64 bits.toBitVec).isFinite = true ↔ _
  unfold UnpackedFloat.unpack
  dsimp only
  by_cases he : @unpackExponent Format.binary64 bits.toBitVec = -1#11
  · rw [if_pos he]
    by_cases hm : @unpackMantissa Format.binary64 bits.toBitVec = 0#52
    · rw [if_pos hm]
      exact iff_of_false Bool.false_ne_true (not_not_intro he)
    · rw [if_neg hm]
      exact iff_of_false Bool.false_ne_true (not_not_intro he)
  · rw [if_neg he]
    by_cases hz : @unpackExponent Format.binary64 bits.toBitVec = 0#11
    · rw [if_pos hz]
      by_cases hm : @unpackMantissa Format.binary64 bits.toBitVec = 0#52
      · rw [dif_pos hm]
        exact iff_of_true rfl he
      · rw [dif_neg hm]
        exact iff_of_true rfl he
    · rw [if_neg hz]
      exact iff_of_true rfl he

/-- A finite double is `±m * 2^q`, where `m` has at most 53 bits. -/
theorem shape_of_isFinite {x : Float} (h : x.isFinite = true) :
    ∃ negative m q, shape x = .finite negative m q ∧
      m < 0x20000000000000 ∧ -1074 ≤ q ∧ q ≤ 971 := by
  have hfield := (isFinite_iff_field x).1 h
  have hlimit : x.toBits.toNat >>> 52 % 2048 < 2048 := Nat.mod_lt _ (by decide)
  have hfraction : x.toBits.toNat % 0x10000000000000 < 0x10000000000000 :=
    Nat.mod_lt _ (by decide)
  unfold shape shapeOfFields
  dsimp only
  rw [if_neg hfield]
  by_cases hz : x.toBits.toNat >>> 52 % 2048 = 0
  · rw [if_pos hz]
    refine ⟨_, _, _, rfl, ?_, ?_, ?_⟩
    · omega
    · exact Int.le_refl _
    · decide
  · rw [if_neg hz]
    refine ⟨_, _, _, rfl, ?_, ?_, ?_⟩
    · omega
    · rw [leastExponent]
      omega
    · rw [leastExponent]
      omega

/-- Rounding the shape of a finite double does not reach infinity. -/
theorem nearestBits_lt_infinityBits {x : Float} {negative : Bool} {m : Nat} {q : Int}
    (h : shape x = .finite negative m q) : nearestBits m q < infinityBits := by
  unfold shape at h
  dsimp only at h
  have hlimit : x.toBits.toNat >>> 52 % 2048 < 2048 := Nat.mod_lt _ (by decide)
  have hfraction : x.toBits.toNat % 0x10000000000000 < 0x10000000000000 :=
    Nat.mod_lt _ (by decide)
  have hfield : x.toBits.toNat >>> 52 % 2048 ≠ 2047 := by
    intro htop
    rw [shapeOfFields, if_pos htop] at h
    by_cases hzero : x.toBits.toNat % 0x10000000000000 = 0
    · rw [if_pos hzero] at h
      cases h
    · rw [if_neg hzero] at h
      cases h
  rw [nearestBits_of_shape hlimit hfraction h, infinityBits]
  omega

/-- A double whose exponent field is not the topmost one has the bits that it was made of. -/
theorem toBits_ofBits {w : UInt64} (h : w.toNat >>> 52 % 2048 ≠ 2047) :
    (Float.ofBits w).toBits = w := by
  have hfield : @unpackExponent Format.binary64 w.toBitVec ≠ -1#11 := by
    intro heq
    have hnat := toNat_unpackExponent w.toBitVec
    rw [heq] at hnat
    exact h hnat.symm
  have hvalid : Format.binary64.Valid w.toBitVec := ⟨fun heq _ => absurd heq hfield⟩
  have hpack := pack_unpack w.toBitVec hvalid
  exact congrArg UInt64.ofBitVec hpack

/-- Magnitude bits under those of infinity make a finite double of either sign. -/
theorem isFinite_ofMagnitudeBits (negative : Bool) {bits : Nat} (h : bits < infinityBits) :
    (ofMagnitudeBits negative bits).isFinite = true := by
  rw [infinityBits] at h
  have hfield (n : Nat) (hn : n < 0x10000000000000000) (hmod : n >>> 52 % 2048 ≠ 2047) :
      (Float.ofBits (UInt64.ofNat n)).isFinite = true := by
    have hnat : (UInt64.ofNat n).toNat = n := UInt64.toNat_ofNat_of_lt' hn
    have hbits := toBits_ofBits (w := UInt64.ofNat n) (by rwa [hnat])
    rw [isFinite_iff_field, hbits, hnat]
    exact hmod
  cases negative with
  | false => exact hfield bits (by omega) (by omega)
  | true =>
    have hsign : signBit = 0x8000000000000000 := rfl
    exact hfield (signBit + bits) (by omega) (by omega)

/-- A natural number of 64 bits is rounded to less than infinity. -/
theorem nearestBits_lt_of_lt {m : Nat} (h : m < 0x10000000000000000) :
    nearestBits m 0 < infinityBits := by
  by_cases hzero : m = 0
  · rw [nearestBits, if_pos hzero]
    decide
  have hlog : m.log2 < 64 := (Nat.log2_lt hzero).2 h
  have hself : m < 2 ^ (m.log2 + 1) := Nat.lt_log2_self
  rw [nearestBits, if_neg hzero, leastExponent, infinityBits]
  by_cases hsmall : m.log2 ≤ 52
  · have hlast : max ((m.log2 : Int) + 0 - 52) (-1074) = (m.log2 : Int) - 52 := by omega
    have hshift : (0 - ((m.log2 : Int) - 52)).toNat = 52 - m.log2 := by omega
    have hscale : 2 ^ (m.log2 + 1) * 2 ^ (52 - m.log2) = 2 ^ 53 := by
      rw [← Nat.pow_add]
      congr 1
      omega
    have hless : m * 2 ^ (52 - m.log2) < 2 ^ 53 := by
      rw [← hscale]
      exact Nat.mul_lt_mul_of_pos_right hself (Nat.two_pow_pos _)
    simp only [hlast]
    rw [if_pos (by omega), hshift, Nat.shiftLeft_eq m]
    omega
  · have hlast : max ((m.log2 : Int) + 0 - 52) (-1074) = (m.log2 : Int) - 52 := by omega
    have hshift : ((m.log2 : Int) - 52 - 0).toNat = m.log2 - 52 := by omega
    have hpos : 0 < 2 ^ (m.log2 - 52) := Nat.two_pow_pos _
    have hscale : 2 ^ (m.log2 + 1) = 2 ^ (m.log2 - 52) * 2 ^ 53 := by
      rw [← Nat.pow_add]
      congr 1
      omega
    have hnear := (Rounding.quotient_near m _ hpos).1
    have hquotient : Rounding.quotient m (2 ^ (m.log2 - 52)) ≤ 2 ^ 53 := by
      rw [hscale] at hself
      have hbound : 2 ^ (m.log2 - 52) * Rounding.quotient m (2 ^ (m.log2 - 52)) <
          2 ^ (m.log2 - 52) * (2 ^ 53 + 1) := by
        rw [Nat.mul_add, Nat.mul_one]
        omega
      have hlt := Nat.lt_of_mul_lt_mul_left hbound
      omega
    simp only [hlast]
    rw [if_neg (by omega), hshift, Nat.shiftLeft_eq 1, Nat.one_mul]
    omega

/-- A whole number of 64 bits, signed or not, is rounded to a finite double. -/
theorem isFinite_ofInt {n : Int} (hlow : -0x8000000000000000 ≤ n)
    (hhigh : n < 0x10000000000000000) : (ofInt n).isFinite = true := by
  have habs : n.natAbs < 0x10000000000000000 := by omega
  exact isFinite_ofMagnitudeBits _ (nearestBits_lt_of_lt habs)

end RobotSoccer.Binary64
