import RobotSoccer.Number.Binary64

/-!
# A double is determined by its shape

The bits of a double give it back, and so does rounding its shape: a double that is not
infinite and is a number is the nearest one to its own value.
-/

namespace RobotSoccer.Binary64

open Float.Model Float.Model.UnpackedFloat

/-- The 64 bits are a sign, an exponent field and a fraction field, put together. -/
theorem packComponents_fields (v : BitVec 64) :
    packComponents Format.binary64 (Sign.ofBitVec (@unpackSign Format.binary64 v))
      (@unpackExponent Format.binary64 v)
      (@unpackMantissa Format.binary64 v) = v := by
  have hs : ∀ s : BitVec 1, (Sign.ofBitVec s).toBitVec = s := by decide
  apply BitVec.eq_of_getLsbD_eq
  intro i hi
  change i < 64 at hi
  delta packComponents unpackSign unpackExponent unpackMantissa
  rw [hs]
  simp only [BitVec.getLsbD_append, BitVec.getLsbD_cast, BitVec.getLsbD_extractLsb]
  by_cases h1 : i < 52
  · simp [h1]
  · by_cases h2 : i - 52 < 11
    · simp [h1, h2, show 52 + (i - 52) = i by omega]
    · have : i = 63 := by omega
      subst this
      simp

/-- Taking a double apart and putting it together gives the same bits. -/
theorem pack_unpack (v : BitVec 64) (valid : Format.binary64.Valid v) :
    UnpackedFloat.pack Format.binary64 (UnpackedFloat.unpack Format.binary64 v) = v := by
  have hv := packComponents_fields v
  unfold UnpackedFloat.unpack
  dsimp only
  by_cases he : @unpackExponent Format.binary64 v = -1#11
  · rw [if_pos he]
    by_cases hm : @unpackMantissa Format.binary64 v = 0#52
    · rw [if_pos hm]
      rw [he, hm] at hv
      exact hv
    · rw [if_neg hm]
      exact (valid.eq_packedNaN he hm).symm
  · rw [if_neg he]
    by_cases he0 : @unpackExponent Format.binary64 v = 0#11
    · rw [if_pos he0]
      by_cases hm : @unpackMantissa Format.binary64 v = 0#52
      · rw [dif_pos hm]
        rw [he0, hm] at hv
        exact hv
      · rw [dif_neg hm]
        have hlt := (@unpackMantissa Format.binary64 v).isLt
        have hne : (@unpackMantissa Format.binary64 v).toNat ≠ 0 := fun h =>
          hm (BitVec.eq_of_toNat_eq h)
        have hlog := (Nat.log2_lt hne).2 hlt
        rw [he0] at hv ⊢
        unfold UnpackedFloat.pack
        dsimp only
        rw [if_neg (by decide), if_neg (by
          change ¬(_ + 1 = 53)
          change _ < 52 at hlog
          omega), BitVec.ofNat_toNat, BitVec.setWidth_eq]
        exact hv
    · rw [if_neg he0]
      have hlt : (@unpackMantissa Format.binary64 v).toNat < 2 ^ 52 :=
        (@unpackMantissa Format.binary64 v).isLt
      have hexp : (@unpackExponent Format.binary64 v).toNat < 2 ^ 11 :=
        (@unpackExponent Format.binary64 v).isLt
      have htop : (@unpackExponent Format.binary64 v).toNat ≠ 2047 := fun h =>
        he (BitVec.eq_of_toNat_eq h)
      have hm : ((1#1 ++ @unpackMantissa Format.binary64 v)).toNat =
          2 ^ 52 + (@unpackMantissa Format.binary64 v).toNat := by
        rw [BitVec.toNat_append]
        change 1 <<< 52 ||| _ = _
        rw [Nat.shiftLeft_eq, Nat.one_mul]
        exact (Nat.two_pow_add_eq_or_of_lt hlt 1).symm ▸ rfl
      have hlog : ((1#1 ++ @unpackMantissa Format.binary64 v)).toNat.log2 = 52 := by
        rw [hm]
        exact (Nat.log2_eq_iff (by omega)).2 ⟨by omega, by omega⟩
      have hbias : ∀ e bias width : Nat,
          ((e : Int) - ((bias : Int) + (width : Int)) + (bias : Int) + (width : Int)).toNat =
            e := by
        intro e bias width
        omega
      unfold UnpackedFloat.pack
      dsimp only
      rw [hbias, hlog, if_neg (by omega), if_pos (by decide), hm]
      have hfraction : BitVec.ofNat Format.binary64.mantissaBitsWithoutImplicit
          (2 ^ 52 + (@unpackMantissa Format.binary64 v).toNat) =
            @unpackMantissa Format.binary64 v := by
        apply BitVec.eq_of_toNat_eq
        rw [BitVec.toNat_ofNat]
        change (2 ^ 52 + _) % 2 ^ 52 = _
        rw [Nat.add_mod_left, Nat.mod_eq_of_lt hlt]
      rw [BitVec.ofNat_toNat, BitVec.setWidth_eq, hfraction]
      exact hv

/-- The bits of a double give it back. -/
theorem ofBits_toBits (x : Float) : Float.ofBits x.toBits = x := by
  obtain ⟨⟨bits, valid⟩⟩ := x
  unfold Float.ofBits Float.toBits Float.Model.ofBits Float.Model.pack
  congr 2
  exact congrArg UInt64.ofBitVec (pack_unpack bits.toBitVec valid)

/-- The shape of fields has the sign that they have. -/
theorem negative_of_shapeOfFields {negative sign : Bool} {field fraction m : Nat} {q : Int}
    (h : shapeOfFields negative field fraction = .finite sign m q) : sign = negative := by
  unfold shapeOfFields at h
  split at h
  · split at h <;> simp at h
  · split at h
    · exact (Shape.finite.inj h).1.symm
    · exact (Shape.finite.inj h).1.symm

/-- Rounding the shape of a finite double gives it back. -/
theorem ofScaled_of_shape {x : Float} {negative : Bool} {m : Nat} {q : Int}
    (h : shape x = .finite negative m q) : ofScaled negative m q = x := by
  have hbits : x.toBits.toNat < 2 ^ 64 := x.toBits.toNat_lt
  unfold shape at h
  dsimp only at h
  have hsign := negative_of_shapeOfFields h
  have hfield : x.toBits.toNat >>> 52 % 2048 < 2048 := by omega
  have hfraction : x.toBits.toNat % 0x10000000000000 < 0x10000000000000 := by omega
  have hround := nearestBits_of_shape hfield hfraction h
  unfold ofScaled ofMagnitudeBits
  rw [hround]
  have hall : (if negative = true then
      signBit + ((x.toBits.toNat >>> 52 % 2048) <<< 52 + x.toBits.toNat % 0x10000000000000)
      else (x.toBits.toNat >>> 52 % 2048) <<< 52 + x.toBits.toNat % 0x10000000000000) =
        x.toBits.toNat := by
    subst hsign
    unfold signBit at h ⊢
    split
    · next hneg =>
      have := of_decide_eq_true hneg
      omega
    · next hpos =>
      have : ¬x.toBits.toNat / 0x8000000000000000 = 1 := fun heq => hpos (decide_eq_true heq)
      omega
  rw [hall, UInt64.ofNat_toNat]
  exact ofBits_toBits x

end RobotSoccer.Binary64
