import Mathlib.Algebra.Order.ToIntervalMod
import Mathlib.Tactic.Linarith
import RobotSoccer.Proofs.Geometry.Exact

/-!
# The shortest turn

An angle is wrapped into the turn that leads to the same direction and is the shortest of all that do.
Unless the angle is some whole turns and a half, that turn is less than half a turn long and the only
one of its kind; otherwise there are two of the same length, and the sign of the angle picks one.
-/

namespace RobotSoccer.Exact

open Scalar

variable {angles : Angles} {angle : Exact angles}

/-- An angle that is some whole turns and a half. -/
def HalfTurned (angle : Exact angles) : Prop :=
  ∃ turns : ℤ, angle.value = angles.half + turns * angles.turn

/-- The remainder brings an angle into the turn that begins half a turn backwards. -/
theorem value_remainder (angle : Exact angles) :
    (remainder (angle + pi) turn - pi).value =
      toIcoMod angles.turn_pos (-angles.half) angle.value := by
  have hremainder : (remainder (angle + pi) turn).value =
      angle.value + angles.half - ⌊(angle.value + angles.half) / angles.turn⌋ * angles.turn := by
    rw [← value_turn, ← value_pi, ← value_add]
    rfl
  rw [value_sub, hremainder, toIcoMod, toIcoDiv_eq_floor, sub_neg_eq_add, zsmul_eq_mul, value_pi]
  ring

/-- What an angle is wrapped into: what the remainder leaves, but half a turn forwards where that is
half a turn backwards and the angle is above zero. -/
theorem value_angleWrap (angle : Exact angles) :
    (angleWrap angle).value =
      if toIcoMod angles.turn_pos (-angles.half) angle.value = -angles.half ∧ 0 < angle.value
      then angles.half else toIcoMod angles.turn_pos (-angles.half) angle.value := by
  have hzero : (0.0 : Exact angles).value = 0 := by norm_num
  have htest : (same (remainder (angle + pi) turn - pi) (-pi) && less 0.0 angle) = true ↔
      toIcoMod angles.turn_pos (-angles.half) angle.value = -angles.half ∧ 0 < angle.value := by
    rw [Bool.and_eq_true, same_eq_true_iff, less_eq_true_iff, value_remainder, value_neg, value_pi, hzero]
  rw [angleWrap]
  by_cases h : toIcoMod angles.turn_pos (-angles.half) angle.value = -angles.half ∧ 0 < angle.value
  · rw [if_pos h, if_pos (htest.2 h), value_pi]
  · rw [if_neg h, if_neg fun ht => h (htest.1 ht), value_remainder]

/-- The remainder leaves half a turn backwards of some whole turns and a half, and of nothing else. -/
theorem toIcoMod_eq_neg_half_iff :
    toIcoMod angles.turn_pos (-angles.half) angle.value = -angles.half ↔ angle.HalfTurned := by
  have hmem : -angles.half ∈ Set.Ico (-angles.half) (-angles.half + angles.turn) :=
    ⟨le_rfl, lt_add_of_pos_right _ angles.turn_pos⟩
  rw [toIcoMod_eq_iff]
  constructor
  · rintro ⟨-, turns, hvalue⟩
    refine ⟨turns - 1, ?_⟩
    rw [hvalue, zsmul_eq_mul, Angles.turn]
    push_cast
    ring
  · rintro ⟨turns, hvalue⟩
    refine ⟨hmem, turns + 1, ?_⟩
    rw [hvalue, zsmul_eq_mul, Angles.turn]
    push_cast
    ring

/-- Some whole turns and a half are wrapped into half a turn in the direction of the angle. -/
theorem HalfTurned.value_angleWrap (h : angle.HalfTurned) :
    (angleWrap angle).value = if 0 < angle.value then angles.half else -angles.half := by
  have hleft := toIcoMod_eq_neg_half_iff.2 h
  rw [Exact.value_angleWrap, hleft]
  by_cases hpos : 0 < angle.value
  · rw [if_pos hpos, if_pos ⟨rfl, hpos⟩]
  · rw [if_neg hpos, if_neg fun hboth => hpos hboth.2]

/-- An angle that is some whole turns from another one of less than half a turn is wrapped into that. -/
theorem value_angleWrap_of_abs_lt {short : ℝ} (hshort : |short| < angles.half) (turns : ℤ)
    (h : angle.value = short + turns * angles.turn) : (angleWrap angle).value = short := by
  obtain ⟨hlower, hupper⟩ := abs_lt.1 hshort
  have hleft : toIcoMod angles.turn_pos (-angles.half) angle.value = short := by
    refine (toIcoMod_eq_iff _).2 ⟨⟨hlower.le, ?_⟩, turns, by rw [h, zsmul_eq_mul]⟩
    rw [Angles.turn]
    linarith
  rw [value_angleWrap, hleft]
  exact if_neg fun hboth => hlower.ne' hboth.1

/-- An angle is some whole turns and a half, or it is wrapped into less than half a turn, some whole
turns from it. -/
theorem angleWrap_cases (angle : Exact angles) :
    angle.HalfTurned ∨ |(angleWrap angle).value| < angles.half ∧
      ∃ turns : ℤ, angle.value = (angleWrap angle).value + turns * angles.turn := by
  by_cases h : angle.HalfTurned
  · exact .inl h
  · obtain ⟨⟨hlower, hupper⟩, turns, hvalue⟩ :=
      (toIcoMod_eq_iff angles.turn_pos).1 (Eq.refl (toIcoMod angles.turn_pos (-angles.half) angle.value))
    have hne := fun heq => h (toIcoMod_eq_neg_half_iff.1 heq)
    have hwrap : (angleWrap angle).value = toIcoMod angles.turn_pos (-angles.half) angle.value := by
      rw [value_angleWrap]
      exact if_neg fun hboth => hne hboth.1
    have hturn : angles.turn = 2 * angles.half := rfl
    refine .inr ⟨?_, turns, ?_⟩
    · rw [hwrap, abs_lt]
      exact ⟨lt_of_le_of_ne hlower (Ne.symm hne), by linarith⟩
    · rw [hwrap, ← zsmul_eq_mul]
      exact hvalue

/-- An angle is wrapped into at most half a turn. -/
theorem abs_angleWrap_le (angle : Exact angles) : |(angleWrap angle).value| ≤ angles.half := by
  rcases angle.angleWrap_cases with hhalf | ⟨hshort, -⟩
  · rw [hhalf.value_angleWrap]
    split
    · rw [abs_of_pos angles.half_pos]
    · rw [abs_neg, abs_of_pos angles.half_pos]
  · exact hshort.le

/-- An angle is wrapped into one that is some whole turns from it. -/
theorem exists_turns_angleWrap (angle : Exact angles) :
    ∃ turns : ℤ, (angleWrap angle).value = angle.value + turns * angles.turn := by
  rcases angle.angleWrap_cases with hhalf | ⟨-, turns, hturns⟩
  · obtain ⟨turns, hturns⟩ := hhalf
    rw [HalfTurned.value_angleWrap ⟨turns, hturns⟩, hturns, Angles.turn]
    split
    · exact ⟨-turns, by push_cast; ring⟩
    · exact ⟨-turns - 1, by push_cast; ring⟩
  · exact ⟨-turns, by push_cast; linarith⟩

/-- An angle of at most half a turn is wrapped into itself. -/
theorem angleWrap_of_abs_le (h : |angle.value| ≤ angles.half) : angleWrap angle = angle := by
  ext
  rcases h.lt_or_eq with hlt | heq
  · exact value_angleWrap_of_abs_lt hlt 0 (by push_cast; ring)
  · rcases (abs_eq angles.half_pos.le).1 heq with hforwards | hbackwards
    · have hhalf : angle.HalfTurned := ⟨0, by rw [hforwards]; push_cast; ring⟩
      rw [hhalf.value_angleWrap, hforwards, if_pos angles.half_pos]
    · have hhalf : angle.HalfTurned := ⟨-1, by rw [hbackwards, Angles.turn]; push_cast; ring⟩
      rw [hhalf.value_angleWrap, hbackwards, if_neg (neg_neg_of_pos angles.half_pos).not_gt]

/-- Of some whole turns and a half the opposite is some whole turns and a half. -/
theorem HalfTurned.neg (h : angle.HalfTurned) : (-angle).HalfTurned := by
  obtain ⟨turns, hturns⟩ := h
  refine ⟨-turns - 1, ?_⟩
  rw [value_neg, hturns, Angles.turn]
  push_cast
  ring

/-- Some whole turns and a half are more or less than nothing. -/
theorem HalfTurned.value_ne_zero (h : angle.HalfTurned) : angle.value ≠ 0 := by
  intro hzero
  have hwrap := h.value_angleWrap
  rw [angleWrap_of_abs_le (by rw [hzero, abs_zero]; exact angles.half_pos.le), hzero,
    if_neg (lt_irrefl 0)] at hwrap
  exact (neg_neg_of_pos angles.half_pos).ne hwrap.symm

/-- The opposite of an angle is wrapped into the opposite. -/
theorem angleWrap_neg (angle : Exact angles) : angleWrap (-angle) = -angleWrap angle := by
  ext
  rcases angle.angleWrap_cases with hhalf | ⟨hshort, turns, hturns⟩
  · rw [hhalf.neg.value_angleWrap, value_neg, value_neg, hhalf.value_angleWrap]
    rcases hhalf.value_ne_zero.lt_or_gt with hneg | hpos
    · rw [if_pos (neg_pos.2 hneg), if_neg hneg.not_gt, neg_neg]
    · rw [if_neg (neg_neg_of_pos hpos).not_gt, if_pos hpos]
  · refine value_angleWrap_of_abs_lt ?_ (-turns) ?_
    · rw [value_neg, abs_neg]
      exact hshort
    · rw [value_neg, value_neg, hturns]
      push_cast
      ring

/-- What an angle of at most half a turn becomes by some whole turns is no shorter. -/
theorem abs_le_abs_add_turns {short : ℝ} (h : |short| ≤ angles.half) (turns : ℤ) :
    |short| ≤ |short + turns * angles.turn| := by
  rcases eq_or_ne turns 0 with rfl | hturns
  · rw [Int.cast_zero, zero_mul, add_zero]
  · have hone : (1 : ℝ) ≤ |(turns : ℝ)| := by exact_mod_cast Int.one_le_abs hturns
    have hlong : angles.turn ≤ |turns * angles.turn| := by
      rw [abs_mul, abs_of_pos angles.turn_pos]
      exact le_mul_of_one_le_left angles.turn_pos.le hone
    have hturn : angles.turn = 2 * angles.half := rfl
    have htriangle := abs_sub_abs_le_abs_sub (turns * angles.turn) (-short)
    rw [abs_neg, sub_neg_eq_add, add_comm _ short] at htriangle
    linarith

/-- The law of the shortest turn, for every half turn above zero and every angle. The angle is wrapped
into one that is some whole turns from it, at most half a turn to either side, and no longer than any
other that is some whole turns from it. It is left alone exactly when it is at most half a turn, so
wrapping again changes nothing; and opposite angles are wrapped into opposite ones. -/
theorem shortest_turn_law (angle : Exact angles) :
    (∃ turns : ℤ, (angleWrap angle).value = angle.value + turns * (2 * angles.half)) ∧
    (angleWrap angle).value ∈ Set.Icc (-angles.half) angles.half ∧
    (∀ turns : ℤ, |(angleWrap angle).value| ≤ |angle.value + turns * (2 * angles.half)|) ∧
    (angleWrap angle = angle ↔ |angle.value| ≤ angles.half) ∧
    angleWrap (angleWrap angle) = angleWrap angle ∧
    angleWrap (-angle) = -angleWrap angle := by
  have hle := angle.abs_angleWrap_le
  obtain ⟨turns, hturns⟩ := angle.exists_turns_angleWrap
  refine ⟨⟨turns, hturns⟩, abs_le.1 hle, fun others => ?_, ⟨fun hsame => ?_, angleWrap_of_abs_le⟩,
    angleWrap_of_abs_le hle, angle.angleWrap_neg⟩
  · have hother : angle.value + others * (2 * angles.half) =
        (angleWrap angle).value + (others - turns : ℤ) * angles.turn := by
      rw [hturns, Angles.turn]
      push_cast
      ring
    rw [hother]
    exact abs_le_abs_add_turns hle _
  · rw [hsame] at hle
    exact hle

end RobotSoccer.Exact
