import Mathlib.Analysis.SpecificLimits.Basic
import RobotSoccer.Proofs.Geometry.Markers
import RobotSoccer.Proofs.Geometry.Missing

/-!
# The way to a target is a contraction

A robot that is ordered its step towards a target, and then moves for some time, misses the target by
a fixed fraction of what it missed before: along both axes of the field, and in the shortest turn that
is left. The step is chosen in the frame of the robot and the motion turns it back, so nothing of the
direction that the robot faces is left in this. In rounds of less than four thirds of a second the
fraction is less than one, so what is missing dies out and the robot arrives.
-/

namespace RobotSoccer

namespace Pose

variable {rotations : Rotations} (target current : Pose (Exact rotations.toAngles))

variable (time : ℝ)

/-- What is missing along the x axis after a round. -/
theorem missingX_approached :
    target.missingX (target.approached ⟨time⟩ current) =
      (1 - 1.5 * time) * target.missingX current := by
  have hmoved : (target.approached ⟨time⟩ current).position.x.value =
      current.position.x.value +
        ((current.pov target.position).x.value * 1.5 * rotations.cos current.orientation.value -
          (current.pov target.position).y.value * 1.5 * rotations.sin current.orientation.value) *
        time := rfl
  rw [missingX, hmoved, value_pov_x, value_pov_y, missingX]
  linear_combination (-1.5 * time * (target.position.x.value - current.position.x.value)) *
    rotations.sin_sq_add_cos_sq current.orientation.value

/-- What is missing along the y axis after a round. -/
theorem missingY_approached :
    target.missingY (target.approached ⟨time⟩ current) =
      (1 - 1.5 * time) * target.missingY current := by
  have hmoved : (target.approached ⟨time⟩ current).position.y.value =
      current.position.y.value +
        ((current.pov target.position).x.value * 1.5 * rotations.sin current.orientation.value +
          (current.pov target.position).y.value * 1.5 * rotations.cos current.orientation.value) *
        time := rfl
  rw [missingY, hmoved, value_pov_x, value_pov_y, missingY]
  linear_combination (-1.5 * time * (target.position.y.value - current.position.y.value)) *
    rotations.sin_sq_add_cos_sq current.orientation.value

variable {time}

/-- In a round of less than four thirds of a second less is missing than before. -/
theorem abs_factor_lt (hpos : 0 < time) (hlt : time < 4 / 3) : |1 - 1.5 * time| < 1 := by
  rw [abs_lt]
  constructor <;> linarith

/-- The shortest turn that is missing after a round. It is less than half a turn, so it is not wrapped
again. -/
theorem missingTurn_approached (hpos : 0 < time) (hlt : time < 4 / 3) :
    target.missingTurn (target.approached ⟨time⟩ current) =
      (1 - 1.5 * time) * target.missingTurn current := by
  have hspeed : (gotoAngularSpeed : Exact rotations.toAngles).value = 1.5 := rfl
  have hturned : (target.approached ⟨time⟩ current).orientation =
      angleWrap (current.orientation +
        angleWrap (target.orientation - current.orientation) * gotoAngularSpeed * ⟨time⟩) := rfl
  obtain ⟨missing, hmissing⟩ := (target.orientation - current.orientation).exists_turns_angleWrap
  obtain ⟨wrapped, hwrapped⟩ := (current.orientation +
    angleWrap (target.orientation - current.orientation) * gotoAngularSpeed * ⟨time⟩).exists_turns_angleWrap
  have hshort : |(1 - 1.5 * time) * target.missingTurn current| < rotations.half := by
    have hle := (target.orientation - current.orientation).abs_angleWrap_le
    rw [abs_mul]
    calc |1 - 1.5 * time| * |target.missingTurn current|
        ≤ |1 - 1.5 * time| * rotations.half := mul_le_mul_of_nonneg_left hle (abs_nonneg _)
      _ < rotations.half := mul_lt_of_lt_one_left rotations.half_pos (abs_factor_lt hpos hlt)
  refine Exact.value_angleWrap_of_abs_lt hshort (-missing - wrapped) ?_
  rw [Exact.value_sub, hturned, hwrapped]
  rw [Exact.value_sub] at hmissing
  simp only [Exact.value_add, Exact.value_mul, hspeed, missingTurn]
  push_cast
  linear_combination -hmissing

/-- What is missing after some rounds. -/
theorem missing_iterate (hpos : 0 < time) (hlt : time < 4 / 3) (rounds : ℕ) :
    target.missingX ((target.approached ⟨time⟩)^[rounds] current) =
        (1 - 1.5 * time) ^ rounds * target.missingX current ∧
      target.missingY ((target.approached ⟨time⟩)^[rounds] current) =
        (1 - 1.5 * time) ^ rounds * target.missingY current ∧
      target.missingTurn ((target.approached ⟨time⟩)^[rounds] current) =
        (1 - 1.5 * time) ^ rounds * target.missingTurn current := by
  induction rounds with
  | zero => simp only [Function.iterate_zero, id, pow_zero, one_mul, and_self]
  | succ rounds ih =>
    obtain ⟨hx, hy, hturn⟩ := ih
    rw [Function.iterate_succ_apply', missingX_approached, missingY_approached,
      missingTurn_approached _ _ hpos hlt, hx, hy, hturn, pow_succ', mul_assoc, mul_assoc, mul_assoc]
    exact ⟨rfl, rfl, rfl⟩

/-- What is missing after some rounds decides whether the target is reached. -/
theorem arrived_iterate_iff (hpos : 0 < time) (hlt : time < 4 / 3) (rounds : ℕ) :
    (gotoStep ((target.approached ⟨time⟩)^[rounds] current) target).arrived = true ↔
      |1 - 1.5 * time| ^ rounds * √(target.missingX current ^ 2 + target.missingY current ^ 2) < 0.05 ∧
        |1 - 1.5 * time| ^ rounds * |target.missingTurn current| < 5 * rotations.half / 180 := by
  obtain ⟨hx, hy, hturn⟩ := missing_iterate target current hpos hlt rounds
  have hscale : √(((1 - 1.5 * time) ^ rounds * target.missingX current) ^ 2 +
      ((1 - 1.5 * time) ^ rounds * target.missingY current) ^ 2) =
      |1 - 1.5 * time| ^ rounds * √(target.missingX current ^ 2 + target.missingY current ^ 2) := by
    rw [mul_pow, mul_pow, ← mul_add, Real.sqrt_mul (sq_nonneg _), Real.sqrt_sq_eq_abs, abs_pow]
  rw [arrived_gotoStep_iff, hx, hy, hturn, hscale, abs_mul, abs_pow]

/-- After enough rounds the target is reached for good. -/
theorem exists_arrived (hpos : 0 < time) (hlt : time < 4 / 3) :
    ∃ enough, ∀ rounds ≥ enough,
      (gotoStep ((target.approached ⟨time⟩)^[rounds] current) target).arrived = true := by
  have hvanish := tendsto_pow_atTop_nhds_zero_of_lt_one (abs_nonneg _) (abs_factor_lt hpos hlt)
  have hless (missing : ℝ) {bound : ℝ} (hbound : 0 < bound) :
      ∀ᶠ rounds in Filter.atTop, |1 - 1.5 * time| ^ rounds * missing < bound :=
    (hvanish.mul_const missing).eventually_lt_const (by rwa [zero_mul])
  have hnear := hless (√(target.missingX current ^ 2 + target.missingY current ^ 2))
    (by norm_num : (0 : ℝ) < 0.05)
  have hfaced := hless |target.missingTurn current|
    (div_pos (mul_pos (by norm_num) rotations.half_pos) (by norm_num) : 0 < 5 * rotations.half / 180)
  obtain ⟨enough, henough⟩ := Filter.eventually_atTop.1 (hnear.and hfaced)
  exact ⟨enough, fun rounds hrounds =>
    (arrived_iterate_iff target current hpos hlt rounds).2 (henough rounds hrounds)⟩

end Pose

/-- The law of the way to a target, for every pose, every target and rounds of less than four thirds of
a second. A robot of a pitch that is ordered its step is steered when time passes, in the arithmetic of
the pitch; in exact arithmetic its marker gets closer in each round, whatever velocities the others have.
What is missing along both axes of the field and the shortest turn that is missing become the same
fraction of what they were, and after finitely many rounds the target is reached for good. -/
theorem approach_law {rotations : Rotations} (current target : Pose (Exact rotations.toAngles))
    {time : ℝ} (hpos : 0 < time) (hlt : time < 4 / 3) :
    let next := target.approached ⟨time⟩ current
    (∀ (pitch : Pitch) (name : RobotName) (pose goal : Pose Float) (period : Float),
      pitch.robotPose? name = some pose →
        ((pitch.setVelocity name (gotoStep pose goal).velocity).advance period).packet.markers =
          steer pitch.velocities name.text goal period pitch.packet.markers) ∧
    (∀ (velocities : Dict (Velocity (Exact rotations.toAngles))) (markers : Dict (Pose (Exact _)))
      (key : String), markers.get? key = some current → ∀ rounds,
        ((steer velocities key target ⟨time⟩)^[rounds] markers).get? key =
          some ((target.approached ⟨time⟩)^[rounds] current)) ∧
    target.position.x.value - next.position.x.value =
      (1 - 1.5 * time) * (target.position.x.value - current.position.x.value) ∧
    target.position.y.value - next.position.y.value =
      (1 - 1.5 * time) * (target.position.y.value - current.position.y.value) ∧
    (angleWrap (target.orientation - next.orientation)).value =
      (1 - 1.5 * time) * (angleWrap (target.orientation - current.orientation)).value ∧
    ∃ enough, ∀ rounds ≥ enough,
      (gotoStep ((target.approached ⟨time⟩)^[rounds] current) target).arrived = true :=
  ⟨fun _ _ _ goal period hpose => Pitch.markers_advance_setVelocity hpose goal period,
    fun _ _ _ hmarker => get?_iterate_steer hmarker, target.missingX_approached current time,
    target.missingY_approached current time, target.missingTurn_approached current hpos hlt,
    target.exists_arrived current hpos hlt⟩

/-- A robot in the centre that faces along the x axis is sent a metre ahead and told to face backwards.
On a pitch of doubles it is steered there, and in exact arithmetic it gets closer: in a round of half a second three quarters of the way are gone, and three quarters of the half turn. -/
theorem approach_backwards :
    let current : Pose (Exact Trigonometry.plane.toAngles) := .of ⟨0⟩ ⟨0⟩ ⟨0⟩
    let target : Pose (Exact Trigonometry.plane.toAngles) := .of ⟨1⟩ ⟨0⟩ ⟨Real.pi⟩
    let next := target.approached ⟨1 / 2⟩ current
    let pitch := Pitch.blank.setRobot .blue1 (.of 0.0 0.0 0.0)
    let goal : Pose Float := .of 1.0 0.0 3.0
    (0 : ℝ) < 1 / 2 ∧ (1 / 2 : ℝ) < 4 / 3 ∧
      ((pitch.setVelocity .blue1 (gotoStep (.of 0.0 0.0 0.0) goal).velocity).advance 0.5).packet.markers =
        steer pitch.velocities RobotName.blue1.text goal 0.5 pitch.packet.markers ∧
      (steer .empty "blue1" target ⟨1 / 2⟩ (Dict.empty.insert "blue1" current)).get? "blue1" = some next ∧
      next.position.x.value = 3 / 4 ∧ next.position.y.value = 0 ∧
      (angleWrap (target.orientation - next.orientation)).value = Real.pi / 4 ∧
      ∃ enough, ∀ rounds ≥ enough,
        (gotoStep ((target.approached ⟨1 / 2⟩)^[rounds] current) target).arrived = true := by
  intro current target next pitch goal
  have hpos : (0 : ℝ) < 1 / 2 := by norm_num
  have hlt : (1 / 2 : ℝ) < 4 / 3 := by norm_num
  obtain ⟨hpitch, hmarkers, hx, hy, hturn, henough⟩ := approach_law current target hpos hlt
  have hmarker : (Dict.empty.insert "blue1" current).get? "blue1" = some current :=
    (Dict.get?_insert _ _ _ _).trans (if_pos rfl)
  have hmissing : angleWrap (target.orientation - current.orientation) = ⟨Real.pi - 0⟩ := by
    refine Exact.angleWrap_of_abs_le ?_
    change |Real.pi - 0| ≤ Real.pi
    rw [sub_zero, abs_of_pos Real.pi_pos]
  have hax : (1 : ℝ) - next.position.x.value = (1 - 1.5 * (1 / 2)) * (1 - 0) := hx
  have hay : (0 : ℝ) - next.position.y.value = (1 - 1.5 * (1 / 2)) * (0 - 0) := hy
  rw [hmissing] at hturn
  refine ⟨hpos, hlt, hpitch pitch .blue1 (.of 0.0 0.0 0.0) goal 0.5 rfl,
    hmarkers .empty _ "blue1" hmarker 1, by linarith, by linarith, ?_, henough⟩
  rw [hturn]
  ring

end RobotSoccer
