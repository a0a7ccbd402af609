import Mathlib.Algebra.Order.Archimedean.Real.Basic
import Mathlib.Algebra.Ring.Periodic
import Mathlib.Analysis.Real.Sqrt
import Mathlib.Analysis.SpecialFunctions.Trigonometric.Basic
import Mathlib.Tactic.NormNum.OfScientific
import RobotSoccer.Geometry.Motion

/-!
# Exact arithmetic for the field

The geometry of the field over the real numbers. Half a turn may be any positive number, and the sine
and the cosine any functions; the laws that these obey come on top, so that each statement says which
of them it rests on. A number is kept apart from its real value, since the comparisons and literals of
the field are its own.
-/

namespace RobotSoccer

/-- What angles are measured by: half a turn, and functions in place of the sine and the cosine. -/
structure Angles where
  /-- Half a turn. -/
  half : ℝ
  /-- Half a turn is more than nothing. -/
  half_pos : 0 < half
  /-- The function in place of the sine. -/
  sin : ℝ → ℝ
  /-- The function in place of the cosine. -/
  cos : ℝ → ℝ

/-- Angles by which displacements are turned: turning forwards and then backwards leads back. -/
structure Rotations extends Angles where
  /-- The sine is odd. -/
  sin_neg : ∀ a, sin (-a) = -sin a
  /-- The cosine is even. -/
  cos_neg : ∀ a, cos (-a) = cos a
  /-- Turning keeps lengths. -/
  sin_sq_add_cos_sq : ∀ a, sin a ^ 2 + cos a ^ 2 = 1

/-- Angles whose rotations add up. -/
structure Trigonometry extends Rotations where
  /-- The sine of a sum. -/
  sin_add : ∀ a b, sin (a + b) = sin a * cos b + cos a * sin b
  /-- The cosine of a sum. -/
  cos_add : ∀ a b, cos (a + b) = cos a * cos b - sin a * sin b

namespace Angles

/-- A whole turn. -/
def turn (angles : Angles) : ℝ := 2 * angles.half

/-- A whole turn is more than nothing. -/
theorem turn_pos (angles : Angles) : 0 < angles.turn := mul_pos two_pos angles.half_pos

/-- A whole turn leaves every direction as it was. -/
def Periodic (angles : Angles) : Prop :=
  Function.Periodic angles.sin angles.turn ∧ Function.Periodic angles.cos angles.turn

end Angles

/-- The angles of the plane. -/
noncomputable def Trigonometry.plane : Trigonometry where
  half := Real.pi
  half_pos := Real.pi_pos
  sin := Real.sin
  cos := Real.cos
  sin_neg := Real.sin_neg
  cos_neg := Real.cos_neg
  sin_sq_add_cos_sq := Real.sin_sq_add_cos_sq
  sin_add := Real.sin_add
  cos_add := Real.cos_add

/-- In the plane a whole turn leaves every direction as it was. -/
theorem Trigonometry.periodic_plane : plane.Periodic := ⟨Real.sin_periodic, Real.cos_periodic⟩

/-- An exact number. -/
@[ext]
structure Exact (angles : Angles) where
  /-- The real number that it is. -/
  value : ℝ

variable {angles : Angles}

/-- Exact arithmetic. The remainder by a positive modulus is what is left of a number when as many
whole moduli as fit below it are taken away. -/
noncomputable instance : Scalar (Exact angles) where
  add x y := ⟨x.value + y.value⟩
  sub x y := ⟨x.value - y.value⟩
  mul x y := ⟨x.value * y.value⟩
  div x y := ⟨x.value / y.value⟩
  neg x := ⟨-x.value⟩
  ofScientific mantissa negative exponent := ⟨OfScientific.ofScientific mantissa negative exponent⟩
  pi := ⟨angles.half⟩
  sin x := ⟨angles.sin x.value⟩
  cos x := ⟨angles.cos x.value⟩
  hypotenuse x y := ⟨√(x.value ^ 2 + y.value ^ 2)⟩
  remainder x modulus := ⟨x.value - ⌊x.value / modulus.value⌋ * modulus.value⟩
  less x y := decide (x.value < y.value)
  same x y := decide (x.value = y.value)

namespace Exact

open Scalar

variable (x y : Exact angles)

@[simp] theorem value_add : (x + y).value = x.value + y.value := rfl

@[simp] theorem value_sub : (x - y).value = x.value - y.value := rfl

@[simp] theorem value_mul : (x * y).value = x.value * y.value := rfl

@[simp] theorem value_div : (x / y).value = x.value / y.value := rfl

@[simp] theorem value_neg : (-x).value = -x.value := rfl

@[simp] theorem value_ofScientific (mantissa : ℕ) (negative : Bool) (exponent : ℕ) :
    (OfScientific.ofScientific mantissa negative exponent : Exact angles).value =
      OfScientific.ofScientific mantissa negative exponent := rfl

@[simp] theorem value_pi : (pi : Exact angles).value = angles.half := rfl

@[simp] theorem value_sin : (sin x).value = angles.sin x.value := rfl

@[simp] theorem value_cos : (cos x).value = angles.cos x.value := rfl

@[simp] theorem value_hypotenuse : (hypotenuse x y).value = √(x.value ^ 2 + y.value ^ 2) := rfl

@[simp] theorem less_eq_true_iff : less x y = true ↔ x.value < y.value := decide_eq_true_iff

@[simp] theorem same_eq_true_iff : same x y = true ↔ x.value = y.value := decide_eq_true_iff

/-- A whole turn of the field is a whole turn. -/
@[simp] theorem value_turn : (turn : Exact angles).value = angles.turn := by
  rw [turn, value_mul, value_ofScientific, value_pi, Angles.turn]
  norm_num

/-- A number without its sign is its absolute value. -/
@[simp] theorem value_magnitude : (magnitude x).value = |x.value| := by
  have hzero : (0.0 : Exact angles).value = 0 := by norm_num
  rw [magnitude]
  by_cases hneg : x.value < 0
  · rw [if_pos ((less_eq_true_iff x 0.0).2 (hzero ▸ hneg)), value_neg, abs_of_neg hneg]
  · rw [if_neg fun hless => hneg (hzero ▸ (less_eq_true_iff x 0.0).1 hless),
      abs_of_nonneg (not_lt.1 hneg)]

end Exact

end RobotSoccer
