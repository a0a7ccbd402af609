import RobotSoccer.Proofs.Geometry.Missing

/-!
# Frames of the field

The step towards a target does not depend on the frame in which the field is measured: a rigid motion of
both poses leaves it as it is. Neither does it depend on how many whole turns the directions hold, but
for the way round that is taken where both ways are as short.
-/

namespace RobotSoccer

/-- A rigid motion of the field: a turn about its centre, and then a shift. -/
structure RigidMotion where
  /-- The turn in radians. -/
  angle : ℝ
  /-- The shift along the x axis. -/
  shiftX : ℝ
  /-- The shift along the y axis. -/
  shiftY : ℝ

/-- Where a rigid motion takes a pose. -/
def RigidMotion.carry {angles : Angles} (motion : RigidMotion) (pose : Pose (Exact angles)) :
    Pose (Exact angles) where
  position :=
    ⟨⟨pose.position.x.value * angles.cos motion.angle - pose.position.y.value * angles.sin motion.angle +
        motion.shiftX⟩,
      ⟨pose.position.x.value * angles.sin motion.angle + pose.position.y.value * angles.cos motion.angle +
        motion.shiftY⟩⟩
  orientation := ⟨pose.orientation.value + motion.angle⟩

/-- A pose whose direction holds some more whole turns. -/
def Pose.turned {angles : Angles} (pose : Pose (Exact angles)) (turns : ℤ) : Pose (Exact angles) :=
  ⟨pose.position, ⟨pose.orientation.value + turns * angles.turn⟩⟩

/-- A step is determined by the target as the robot sees it and by the shortest turn that is missing. -/
theorem gotoStep_congr {α : Type} [Scalar α] {current target other aim : Pose α}
    (hseen : current.pov target.position = other.pov aim.position)
    (hturn : angleWrap (target.orientation - current.orientation) =
      angleWrap (aim.orientation - other.orientation)) :
    gotoStep current target = gotoStep other aim := by
  rw [gotoStep, gotoStep, hseen, hturn]

/-- The step that turns to the other side. -/
def GotoStep.reversed {α : Type} [Scalar α] (step : GotoStep α) : GotoStep α :=
  { step with velocity := { step.velocity with turn := -step.velocity.turn } }

namespace RigidMotion

variable {trig : Trigonometry} (motion : RigidMotion) (current target : Pose (Exact trig.toAngles))

/-- What is missing along the x axis turns with the field. -/
theorem missingX_carry :
    (motion.carry target).missingX (motion.carry current) =
      target.missingX current * trig.cos motion.angle - target.missingY current * trig.sin motion.angle := by
  rw [Pose.missingX, carry, carry, Pose.missingX, Pose.missingY]
  ring

/-- What is missing along the y axis turns with the field. -/
theorem missingY_carry :
    (motion.carry target).missingY (motion.carry current) =
      target.missingX current * trig.sin motion.angle + target.missingY current * trig.cos motion.angle := by
  rw [Pose.missingY, carry, carry, Pose.missingX, Pose.missingY]
  ring

/-- A rigid motion of the field does not change what the robot sees. -/
theorem pov_carry :
    (motion.carry current).pov (motion.carry target).position = current.pov target.position := by
  have hangle : (motion.carry current).orientation.value = current.orientation.value + motion.angle := rfl
  have hone := trig.sin_sq_add_cos_sq motion.angle
  have hx : ((motion.carry current).pov (motion.carry target).position).x =
      (current.pov target.position).x := by
    ext
    rw [Pose.value_pov_x, Pose.value_pov_x, missingX_carry, missingY_carry, hangle, trig.sin_add,
      trig.cos_add]
    linear_combination (target.missingX current * trig.cos current.orientation.value +
      target.missingY current * trig.sin current.orientation.value) * hone
  have hy : ((motion.carry current).pov (motion.carry target).position).y =
      (current.pov target.position).y := by
    ext
    rw [Pose.value_pov_y, Pose.value_pov_y, missingX_carry, missingY_carry, hangle, trig.sin_add,
      trig.cos_add]
    linear_combination (target.missingY current * trig.cos current.orientation.value -
      target.missingX current * trig.sin current.orientation.value) * hone
  exact congrArg₂ Point.mk hx hy

/-- A rigid motion of the field does not change the step. -/
theorem gotoStep_carry :
    gotoStep (motion.carry current) (motion.carry target) = gotoStep current target := by
  refine gotoStep_congr (motion.pov_carry current target) (congrArg angleWrap ?_)
  ext
  rw [Exact.value_sub, Exact.value_sub, carry, carry]
  ring

end RigidMotion

namespace Exact

variable {angles : Angles} {angle other : Exact angles} {turns : ℤ}

/-- Some whole turns more are still some whole turns and a half. -/
theorem HalfTurned.add_turns (h : angle.HalfTurned)
    (hother : other.value = angle.value + turns * angles.turn) : other.HalfTurned := by
  obtain ⟨before, hbefore⟩ := h
  refine ⟨before + turns, ?_⟩
  rw [hother, hbefore]
  push_cast
  ring

/-- Some whole turns more are wrapped into the same turn, unless there is half a turn too many. -/
theorem angleWrap_add_turns (h : ¬ angle.HalfTurned)
    (hother : other.value = angle.value + turns * angles.turn) : angleWrap other = angleWrap angle := by
  obtain ⟨hshort, before, hbefore⟩ := angle.angleWrap_cases.resolve_left h
  ext
  refine value_angleWrap_of_abs_lt hshort (before + turns) ?_
  rw [hother, hbefore]
  push_cast
  ring

/-- Half a turn too many is wrapped into half a turn to either side. -/
theorem HalfTurned.value_angleWrap_eq_or (h : angle.HalfTurned) (hother : other.HalfTurned) :
    (angleWrap other).value = (angleWrap angle).value ∨
      (angleWrap other).value = -(angleWrap angle).value := by
  rw [h.value_angleWrap, hother.value_angleWrap]
  by_cases hpos : 0 < angle.value <;> by_cases hotherPos : 0 < other.value
  · exact .inl (by rw [if_pos hpos, if_pos hotherPos])
  · exact .inr (by rw [if_pos hpos, if_neg hotherPos])
  · exact .inr (by rw [if_neg hpos, if_pos hotherPos, neg_neg])
  · exact .inl (by rw [if_neg hpos, if_neg hotherPos])

end Exact

namespace Pose

section

variable {angles : Angles} (pose : Pose (Exact angles)) (turns : ℤ)

/-- Where whole turns leave every direction as it was, a robot that made some sees the same. -/
theorem pov_turned (hperiodic : angles.Periodic) (p : Point (Exact angles)) :
    (pose.turned turns).pov p = pose.pov p := by
  have hopposite : -(pose.orientation.value + turns * angles.turn) =
      -pose.orientation.value + (-turns : ℤ) * angles.turn := by
    push_cast
    ring
  have hsin : Scalar.sin (-(pose.turned turns).orientation) = Scalar.sin (-pose.orientation) := by
    ext
    exact (congrArg angles.sin hopposite).trans (hperiodic.1.int_mul (-turns) _)
  have hcos : Scalar.cos (-(pose.turned turns).orientation) = Scalar.cos (-pose.orientation) := by
    ext
    exact (congrArg angles.cos hopposite).trans (hperiodic.2.int_mul (-turns) _)
  rw [pov, pov, Vec.rotated, Vec.rotated, hsin, hcos]
  rfl

end

variable {angles : Angles} (current target : Pose (Exact angles)) (turns others : ℤ)

/-- The turn that is missing takes up the whole turns of both directions. -/
theorem value_sub_turned :
    ((target.turned others).orientation - (current.turned turns).orientation).value =
      (target.orientation - current.orientation).value + (others - turns : ℤ) * angles.turn := by
  rw [Exact.value_sub, Exact.value_sub, turned, turned]
  push_cast
  ring

variable {current target}

/-- Whole turns do not change the step, unless there is half a turn too many. -/
theorem gotoStep_turned (hperiodic : angles.Periodic)
    (h : ¬ (target.orientation - current.orientation).HalfTurned) :
    gotoStep (current.turned turns) (target.turned others) = gotoStep current target :=
  gotoStep_congr (current.pov_turned turns hperiodic target.position)
    (Exact.angleWrap_add_turns h (value_sub_turned current target turns others))

/-- With half a turn too many, whole turns leave the turn that is missing or reverse it. -/
theorem value_angleWrap_turned (h : (target.orientation - current.orientation).HalfTurned) :
    (angleWrap ((target.turned others).orientation - (current.turned turns).orientation)).value =
        (angleWrap (target.orientation - current.orientation)).value ∨
      (angleWrap ((target.turned others).orientation - (current.turned turns).orientation)).value =
        -(angleWrap (target.orientation - current.orientation)).value :=
  h.value_angleWrap_eq_or (h.add_turns (value_sub_turned current target turns others))

end Pose

/-- Steps from one view of the target that turn as far to opposite sides differ in nothing else. -/
theorem gotoStep_eq_reversed {angles : Angles} {current target other aim : Pose (Exact angles)}
    (hseen : other.pov aim.position = current.pov target.position)
    (hturn : (angleWrap (aim.orientation - other.orientation)).value =
      -(angleWrap (target.orientation - current.orientation)).value) :
    gotoStep other aim = (gotoStep current target).reversed := by
  have hopposite : angleWrap (aim.orientation - other.orientation) =
      -angleWrap (target.orientation - current.orientation) := Exact.ext hturn
  have hlength (x : Exact angles) : Scalar.magnitude (-x) = Scalar.magnitude x := by
    ext
    rw [Exact.value_magnitude, Exact.value_magnitude, Exact.value_neg, abs_neg]
  have hspeed (x y : Exact angles) : -x * y = -(x * y) := by
    ext
    rw [Exact.value_mul, Exact.value_neg, Exact.value_neg, Exact.value_mul, neg_mul]
  rw [GotoStep.reversed, gotoStep, gotoStep, hseen, hopposite, hlength, hspeed]

/-- The law of frames, for all poses. A rigid motion of both poses does not change the step. And where
whole turns leave every direction as it was, whole turns in the directions of the poses do not change it
either, unless the target is faced with half a turn too many: then the step may turn to the other side,
and nothing else of it changes. -/
theorem frame_law {trig : Trigonometry} (current target : Pose (Exact trig.toAngles)) :
    (∀ motion : RigidMotion,
      gotoStep (motion.carry current) (motion.carry target) = gotoStep current target) ∧
    (trig.Periodic → ∀ turns others : ℤ,
      gotoStep (current.turned turns) (target.turned others) = gotoStep current target ∨
      (target.orientation - current.orientation).HalfTurned ∧
        gotoStep (current.turned turns) (target.turned others) = (gotoStep current target).reversed) := by
  refine ⟨fun motion => motion.gotoStep_carry current target, fun hperiodic turns others => ?_⟩
  have hseen := current.pov_turned turns hperiodic target.position
  by_cases hhalf : (target.orientation - current.orientation).HalfTurned
  · rcases Pose.value_angleWrap_turned turns others hhalf with hsame | hopposite
    · exact .inl (gotoStep_congr hseen (Exact.ext hsame))
    · exact .inr ⟨hhalf, gotoStep_eq_reversed hseen hopposite⟩
  · exact .inl (Pose.gotoStep_turned turns others hperiodic hhalf)

/-- In the plane a robot is told to face backwards. A turn less in the direction of the target is as
good, but then the robot turns to the other side. -/
theorem frame_law_backwards :
    let current : Pose (Exact Trigonometry.plane.toAngles) := .of ⟨0⟩ ⟨0⟩ ⟨0⟩
    let target : Pose (Exact Trigonometry.plane.toAngles) := .of ⟨1⟩ ⟨0⟩ ⟨Real.pi⟩
    let step := gotoStep current target
    Trigonometry.plane.Periodic ∧ step.velocity.turn.value = Real.pi * 1.5 ∧
      gotoStep (current.turned 0) (target.turned (-1)) = step.reversed := by
  intro current target step
  let aim := target.turned (-1)
  have hmissing : (target.orientation - current.orientation).value = Real.pi := sub_zero Real.pi
  have hother : (aim.orientation - (current.turned 0).orientation).value = -Real.pi := by
    rw [Pose.value_sub_turned, hmissing, Angles.turn]
    change Real.pi + (-1 - 0 : ℤ) * (2 * Real.pi) = -Real.pi
    push_cast
    ring
  have hhalf : (target.orientation - current.orientation).HalfTurned := ⟨0, by
    rw [hmissing, Int.cast_zero, zero_mul, add_zero]
    rfl⟩
  have hforwards : step.velocity.turn.value = Real.pi * 1.5 := by
    have hturn : step.velocity.turn.value =
        (angleWrap (target.orientation - current.orientation)).value * 1.5 := rfl
    rw [hturn, hhalf.value_angleWrap, hmissing, if_pos Real.pi_pos]
    rfl
  have hbackwards : (gotoStep (current.turned 0) aim).velocity.turn.value = -Real.pi * 1.5 := by
    have hturn : (gotoStep (current.turned 0) aim).velocity.turn.value =
        (angleWrap (aim.orientation - (current.turned 0).orientation)).value * 1.5 := rfl
    rw [hturn, (hhalf.add_turns (Pose.value_sub_turned current target 0 (-1))).value_angleWrap, hother,
      if_neg (neg_neg_of_pos Real.pi_pos).not_gt]
    rfl
  refine ⟨Trigonometry.periodic_plane, hforwards, ?_⟩
  rcases (frame_law current target).2 Trigonometry.periodic_plane 0 (-1) with hsame | ⟨-, hopposite⟩
  · have hturn : -Real.pi * 1.5 = Real.pi * 1.5 := by
      rw [← hbackwards, hsame]
      exact hforwards
    linarith [Real.pi_pos]
  · exact hopposite

end RobotSoccer
