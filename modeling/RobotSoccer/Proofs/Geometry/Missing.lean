import Mathlib.Tactic.LinearCombination
import RobotSoccer.Proofs.Geometry.ShortestTurn

/-!
# What is missing to a target

A target is missed by a part along each axis of the field and by a shortest turn. The step towards the
target is chosen from the same parts as the robot sees them, ahead of it and to its left, and that view
keeps lengths. So whether the target is reached does not depend on where the robot looks from.
-/

namespace RobotSoccer

open Scalar

namespace Pose

section

variable {angles : Angles} (target current : Pose (Exact angles))

/-- How far a target is from a pose along the x axis of the field. -/
def missingX : ℝ := target.position.x.value - current.position.x.value

/-- How far a target is from a pose along the y axis of the field. -/
def missingY : ℝ := target.position.y.value - current.position.y.value

/-- The shortest turn that leads from the direction of a pose to that of a target. -/
noncomputable def missingTurn : ℝ := (angleWrap (target.orientation - current.orientation)).value

end

variable {rotations : Rotations} (target current : Pose (Exact rotations.toAngles))

/-- What is ahead of a robot. -/
theorem value_pov_x :
    (current.pov target.position).x.value =
      target.missingX current * rotations.cos current.orientation.value +
        target.missingY current * rotations.sin current.orientation.value := by
  rw [pov, Vec.rotated, Point.vecTo, Point.sub, missingX, missingY]
  simp only [Exact.value_sub, Exact.value_mul, Exact.value_cos, Exact.value_sin, Exact.value_neg,
    rotations.sin_neg, rotations.cos_neg]
  ring

/-- What is to the left of a robot. -/
theorem value_pov_y :
    (current.pov target.position).y.value =
      target.missingY current * rotations.cos current.orientation.value -
        target.missingX current * rotations.sin current.orientation.value := by
  rw [pov, Vec.rotated, Point.vecTo, Point.sub, missingX, missingY]
  simp only [Exact.value_add, Exact.value_sub, Exact.value_mul, Exact.value_cos, Exact.value_sin,
    Exact.value_neg, rotations.sin_neg, rotations.cos_neg]
  ring

/-- What is seen of a target is as far away as the target. -/
theorem sq_pov :
    (current.pov target.position).x.value ^ 2 + (current.pov target.position).y.value ^ 2 =
      target.missingX current ^ 2 + target.missingY current ^ 2 := by
  rw [value_pov_x, value_pov_y]
  linear_combination (target.missingX current ^ 2 + target.missingY current ^ 2) *
    rotations.sin_sq_add_cos_sq current.orientation.value

/-- A target is reached when it is near enough and faced nearly enough. -/
theorem arrived_gotoStep_iff :
    (gotoStep current target).arrived = true ↔
      √(target.missingX current ^ 2 + target.missingY current ^ 2) < 0.05 ∧
        |target.missingTurn current| < 5 * rotations.half / 180 := by
  have hangle : (arrivedAngle : Exact rotations.toAngles).value = 5 * rotations.half / 180 := by
    rw [arrivedAngle]
    norm_num
  have hdistance : (Point.zero.distanceTo (current.pov target.position)).value =
      √(target.missingX current ^ 2 + target.missingY current ^ 2) := by
    rw [← sq_pov, Point.distanceTo, Point.sub, Point.zero, Vec.norm, Exact.value_hypotenuse]
    norm_num
  rw [gotoStep, Bool.and_eq_true, Exact.less_eq_true_iff, Exact.less_eq_true_iff, hdistance, hangle,
    Exact.value_magnitude, missingTurn]
  exact Iff.rfl

end Pose

end RobotSoccer
