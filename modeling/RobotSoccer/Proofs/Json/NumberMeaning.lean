import Mathlib.Data.Nat.Digits.Defs
import RobotSoccer.Proofs.Json.NumberParts
import RobotSoccer.Proofs.Number.Magnitude
import RobotSoccer.Proofs.Number.Received

/-!
# What the parts of a number mean

The digits that are kept of a number text are worth no more than all of its digits, and all are kept
that fit 64 bits. So parts with few digits before the point that spell less than what the greatest
double is near to have a meaning.
-/

namespace RobotSoccer

namespace Ascii

/-- Digits in front of others are worth a power of ten more. -/
theorem digitsValue_append (front behind : Bytes) :
    digitsValue (front ++ behind) = digitsValue front * 10 ^ behind.length + digitsValue behind := by
  have hfold (n : Nat) : behind.foldl (fun n d => 10 * n + digitValue d) n =
      n * 10 ^ behind.length + digitsValue behind := by
    unfold digitsValue
    induction behind generalizing n with
    | nil => simp
    | cons d behind ih =>
      rw [List.foldl_cons, List.foldl_cons, ih, ih (10 * 0 + _), List.length_cons]
      ring
  rw [digitsValue, List.foldl_append]
  exact hfold _

/-- A digit in front of others is worth a power of ten. -/
theorem digitsValue_cons (d : UInt8) (digits : Bytes) :
    digitsValue (d :: digits) = digitValue d * 10 ^ digits.length + digitsValue digits := by
  have hone : digitsValue [d] = digitValue d := by simp [digitsValue]
  exact hone ▸ digitsValue_append [d] digits

/-- Digits are worth less than the power of ten that has one more. -/
theorem digitsValue_lt {digits : Bytes} (h : ∀ b ∈ digits, isDigit b = true) :
    digitsValue digits < 10 ^ digits.length := by
  induction digits with
  | nil => exact Nat.one_pos
  | cons d digits ih =>
    have hmore := ih fun b hb => h b (List.mem_cons_of_mem _ hb)
    have hd : digitValue d ≤ 9 := by
      have hdigit := h d List.mem_cons_self
      simp only [isDigit, Bool.and_eq_true, decide_eq_true_eq, UInt8.le_iff_toNat_le] at hdigit
      have hnine : nine.toNat = 57 := rfl
      rw [digitValue]
      omega
    have hscaled := Nat.mul_le_mul_right (10 ^ digits.length) hd
    rw [digitsValue_cons, List.length_cons, Nat.pow_succ]
    omega

/-- Digits that are cut short are worth a tenth at most. -/
theorem digitsValue_cut {cut more : Bytes} (h : more ≠ []) :
    10 * digitsValue cut ≤ digitsValue (cut ++ more) := by
  have hlength : 1 ≤ more.length := List.length_pos_of_ne_nil h
  have hten : 10 ^ 1 ≤ 10 ^ more.length := Nat.pow_le_pow_right (by decide) hlength
  have hscaled := Nat.mul_le_mul_left (digitsValue cut) hten
  rw [digitsValue_append]
  omega

end Ascii

namespace Numeral

/-- Digits that fit 64 bits are all gathered. -/
theorem gather_of_lt {n : Nat} {digits : Bytes}
    (h : n * 10 ^ digits.length + Ascii.digitsValue digits < 0x10000000000000000) :
    gather n digits = (n * 10 ^ digits.length + Ascii.digitsValue digits, 0) := by
  induction digits generalizing n with
  | nil => simp [gather, Ascii.digitsValue]
  | cons digit more ih =>
    have hvalue := Ascii.digitsValue_cons digit more
    have hall : n * 10 ^ (digit :: more).length + Ascii.digitsValue (digit :: more) =
        (10 * n + Ascii.digitValue digit) * 10 ^ more.length + Ascii.digitsValue more := by
      rw [hvalue, List.length_cons]
      ring
    have hone := Nat.le_mul_of_pos_right (10 * n + Ascii.digitValue digit)
      (Nat.pow_pos (by decide) : 0 < 10 ^ more.length)
    rw [hall] at h ⊢
    rw [gather, if_pos (by omega)]
    exact ih h

/-- Digits that fit 64 bits are gathered from the start to what they spell. -/
theorem gather_zero_of_lt {digits : Bytes} (h : Ascii.digitsValue digits < 0x10000000000000000) :
    gather 0 digits = (Ascii.digitsValue digits, 0) := by
  have hgather := gather_of_lt (by rwa [Nat.zero_mul, Nat.zero_add] :
    0 * 10 ^ digits.length + Ascii.digitsValue digits < 0x10000000000000000)
  rwa [Nat.zero_mul, Nat.zero_add] at hgather

/-- When no digit is left, what is gathered is what the digits spell. -/
theorem gather_eq_of_left {n : Nat} {digits : Bytes} (h : (gather n digits).2 = 0) :
    (gather n digits).1 = n * 10 ^ digits.length + Ascii.digitsValue digits := by
  induction digits generalizing n with
  | nil => simp [gather, Ascii.digitsValue]
  | cons digit more ih =>
    rw [gather] at h ⊢
    split at h
    · next hfits =>
      rw [if_pos hfits, ih h, Ascii.digitsValue_cons, List.length_cons]
      ring
    · exact absurd h (Nat.succ_ne_zero _)

/-- What digits are gathered to is worth no more than all of them, at the place where it stands. -/
theorem gather_le (n : Nat) (digits : Bytes) :
    (gather n digits).1 * 10 ^ (gather n digits).2 ≤
      n * 10 ^ digits.length + Ascii.digitsValue digits := by
  induction digits generalizing n with
  | nil => simp [gather]
  | cons digit more ih =>
    rw [gather]
    split
    · have hall : n * 10 ^ (digit :: more).length + Ascii.digitsValue (digit :: more) =
          (10 * n + Ascii.digitValue digit) * 10 ^ more.length + Ascii.digitsValue more := by
        rw [Ascii.digitsValue_cons, List.length_cons]
        ring
      exact hall ▸ ih _
    · exact Nat.le_add_right _ _

end Numeral

namespace NumberParts

variable {parts : NumberParts}

/-- The number of digits before the point and the power of ten bound the number that parts spell. -/
theorem WellFormed.value_lt (h : parts.WellFormed) :
    parts.decimal.value < 10 ^ ((parts.whole.length : ℤ) + powerValue parts.power?) := by
  have hpart : ∀ b ∈ parts.part?.getD [], Ascii.isDigit b = true := by
    cases hsome : parts.part? with
    | none => exact fun b hb => absurd hb List.not_mem_nil
    | some part => exact (h.part part hsome).2
  have hdigits : ∀ b ∈ parts.whole ++ parts.part?.getD [], Ascii.isDigit b = true := fun b hb =>
    (List.mem_append.1 hb).elim (h.whole.2 b) (hpart b)
  have hnat := Ascii.digitsValue_lt hdigits
  rw [List.length_append] at hnat
  have hcast : (Ascii.digitsValue (parts.whole ++ parts.part?.getD []) : ℚ) <
      10 ^ (((parts.whole.length + (parts.part?.getD []).length : ℕ)) : ℤ) := by
    rw [zpow_natCast]
    exact_mod_cast hnat
  have hscale : (0 : ℚ) < 10 ^ (powerValue parts.power? - ((parts.part?.getD []).length : ℤ)) :=
    zpow_pos (by norm_num) _
  calc parts.decimal.value
      < 10 ^ (((parts.whole.length + (parts.part?.getD []).length : ℕ)) : ℤ) *
          10 ^ (powerValue parts.power? - ((parts.part?.getD []).length : ℤ)) :=
        mul_lt_mul_of_pos_right hcast hscale
    _ = 10 ^ ((parts.whole.length : ℤ) + powerValue parts.power?) := by
        rw [← zpow_add₀ (by norm_num)]
        congr 1
        push_cast
        ring

/-- The digits that are kept of parts with few digits before the point are worth no more than the
parts, at the place where they stand. -/
theorem WellFormed.kept_le (h : parts.WellFormed) (hshort : parts.whole.length ≤ 16) (negative : Bool) :
    ((said negative parts).kept.1 : ℚ) *
        10 ^ ((said negative parts).kept.2 + powerValue parts.power?) ≤ parts.decimal.value := by
  have hwhole : Numeral.gather 0 parts.whole = (Ascii.digitsValue parts.whole, 0) := by
    have hlt : Ascii.digitsValue parts.whole < 10 ^ 16 :=
      (Ascii.digitsValue_lt h.whole.2).trans_le (Nat.pow_le_pow_right (by decide) hshort)
    exact Numeral.gather_zero_of_lt (by omega)
  have hle := Numeral.gather_le (Ascii.digitsValue parts.whole) (parts.part?.getD [])
  rw [← Ascii.digitsValue_append] at hle
  unfold Numeral.kept said decimal Decimal.value
  dsimp only
  rw [hwhole]
  generalize Numeral.gather (Ascii.digitsValue parts.whole) (parts.part?.getD []) = found at hle ⊢
  generalize Ascii.digitsValue (parts.whole ++ parts.part?.getD []) = all at hle ⊢
  generalize powerValue parts.power? = power
  have hten : (10 : ℚ) ≠ 0 := by norm_num
  have hcast : (found.1 : ℚ) * 10 ^ found.2 ≤ all := by exact_mod_cast hle
  have hplace : ((0 : ℕ) : ℤ) + found.2 - ((parts.part?.getD []).length : ℤ) + power =
      found.2 + (power - (parts.part?.getD []).length) := by
    push_cast
    ring
  rw [hplace, zpow_add₀ hten, zpow_natCast, ← mul_assoc]
  exact mul_le_mul_of_nonneg_right hcast (by positivity)

/-- Parts with few digits before the point that spell less than the limit give a double. -/
theorem WellFormed.exists_double? (h : parts.WellFormed) (hshort : parts.whole.length ≤ 16)
    (hpower : powerValue parts.power? < Numeral.powerLimit)
    (hvalue : parts.decimal.value < PowerOfTen.limit) (negative : Bool) :
    ∃ x, (said negative parts).double? = some x := by
  have hkept := (h.kept_le hshort negative).trans_lt hvalue
  have hdigits := (said negative parts).kept_lt
  unfold Numeral.double?
  dsimp only
  generalize (said negative parts).kept = kept at hkept hdigits
  cases hsome : parts.power? with
  | none =>
    rw [hsome, powerValue, add_zero] at hkept
    simp only [said, hsome, Option.map_none]
    exact PowerOfTen.exists_scaled? negative hdigits hkept
  | some power =>
    rw [hsome] at hkept hpower
    simp only [said, hsome, Option.map_some]
    by_cases hfits : (powerValue (some power)).natAbs < Numeral.powerLimit
    · rw [if_pos hfits]
      exact PowerOfTen.exists_scaled? negative hdigits hkept
    · rw [if_neg hfits, if_neg fun hlarge => by omega]
      exact ⟨_, rfl⟩

/-- Parts with few digits before the point that spell less than the limit have a meaning. -/
theorem WellFormed.exists_value? (h : parts.WellFormed) (hshort : parts.whole.length ≤ 16)
    (hpower : powerValue parts.power? < Numeral.powerLimit)
    (hvalue : parts.decimal.value < PowerOfTen.limit) (negative : Bool) :
    ∃ value, (said negative parts).value? = some value := by
  obtain ⟨x, hx⟩ := h.exists_double? hshort hpower hvalue negative
  unfold Numeral.value?
  dsimp only
  split
  · split
    · split <;> exact ⟨_, rfl⟩
    · exact ⟨_, rfl⟩
  · exact ⟨_, congrArg (Option.map NumberValue.float) hx⟩

end NumberParts

end RobotSoccer
