import RobotSoccer.Json.Numeral
import RobotSoccer.Proofs.Number.Scaling

/-!
# Numbers that are read are finite

The digits that are kept of a number fit 64 bits, and a number that overflows is refused. So whatever
number is read from whatever bytes, its double is finite.
-/

namespace RobotSoccer.Numeral

/-- What digits are gathered to fits 64 bits when what they are taken up behind does. -/
theorem gather_lt {n : Nat} (digits : Bytes) (h : n < 0x10000000000000000) :
    (gather n digits).1 < 0x10000000000000000 := by
  induction digits generalizing n with
  | nil => exact h
  | cons digit more ih =>
    rw [gather]
    split
    · next hfits => exact ih hfits
    · exact h

/-- The digits that are kept fit 64 bits. -/
theorem kept_lt (numeral : Numeral) : numeral.kept.1 < 0x10000000000000000 :=
  gather_lt _ (gather_lt _ (by decide))

/-- The double that is made of a number text is finite. -/
theorem isFinite_of_double? {numeral : Numeral} {x : Float} (h : numeral.double? = some x) :
    x.isFinite = true := by
  have hkept := numeral.kept_lt
  unfold double? at h
  dsimp only at h
  split at h
  · exact PowerOfTen.isFinite_of_scaled? hkept h
  · split at h
    · exact PowerOfTen.isFinite_of_scaled? hkept h
    · split at h
      · cases h
      · rw [← Option.some.inj h]
        exact Binary64.isFinite_ofMagnitudeBits _ (by decide)

/-- A number text that has a meaning means a finite double. -/
theorem isFinite_of_value? {numeral : Numeral} {value : NumberValue}
    (h : numeral.value? = some value) : value.toFloat.isFinite = true := by
  have hdigits := gather_lt (n := 0) numeral.whole (by decide)
  unfold value? at h
  dsimp only at h
  split at h
  · split at h
    · split at h
      · rw [← Option.some.inj h]
        exact Binary64.isFinite_ofInt (by omega) (by omega)
      · rw [← Option.some.inj h]
        exact Binary64.isFinite_ofMagnitudeBits _ (Binary64.nearestBits_lt_of_lt hdigits)
    · rw [← Option.some.inj h]
      exact Binary64.isFinite_ofInt (by omega) (by omega)
  · obtain ⟨x, hx, rfl⟩ := Option.map_eq_some_iff.1 h
    exact isFinite_of_double? hx

end RobotSoccer.Numeral
