import RobotSoccer.Geometry.Pose

/-!
# Motion of a robot

A robot is steered by a velocity in its own frame. `gotoStep` chooses the velocity that brings
it closer to a target, in proportion to what is missing, and `Pose.moved` is what a velocity
does to a pose over some time.
-/

namespace RobotSoccer

/-- A velocity in the frame of the robot. -/
structure Velocity (α : Type) where
  /-- Metres a second ahead. -/
  forward : α
  /-- Metres a second to the left. -/
  left : α
  /-- Radians a second counter-clockwise. -/
  turn : α
  deriving BEq, Repr

variable {α : Type} [Scalar α]

open Scalar

/-- The distance in metres under which a target counts as reached. -/
def arrivedDistance : α := 0.05

/-- The angle in radians under which a direction counts as reached: five degrees. -/
def arrivedAngle : α := 5.0 * pi / 180.0

/-- Metres a second for each metre that is missing. -/
def gotoSpeed : α := 1.5

/-- Radians a second for each radian that is missing. -/
def gotoAngularSpeed : α := 1.5

/-- The velocity of a robot at rest. -/
def Velocity.zero : Velocity α := ⟨0.0, 0.0, 0.0⟩

/-- One step towards a target. -/
structure GotoStep (α : Type) where
  /-- The velocity to order. -/
  velocity : Velocity α
  /-- Whether the target was reached before the step. -/
  arrived : Bool
  deriving BEq, Repr

/-- The step from a pose towards a target. What is missing is seen from the robot, and the turn
goes the short way round. -/
def gotoStep (current target : Pose α) : GotoStep α :=
  let error := current.pov target.position
  let turnError := angleWrap (target.orientation - current.orientation)
  { velocity :=
      ⟨error.x * gotoSpeed, error.y * gotoSpeed, turnError * gotoAngularSpeed⟩
    arrived :=
      less (Point.zero.distanceTo error) arrivedDistance &&
        less (magnitude turnError) arrivedAngle }

/-- The pose after some time at a velocity: the robot goes straight along the direction that it
had at the start, and turns. -/
def Pose.moved (pose : Pose α) (velocity : Velocity α) (time : α) : Pose α :=
  let shift := (Vec.mk velocity.forward velocity.left).rotated pose.orientation
  ⟨pose.position.add (shift.scaled time),
    angleWrap (pose.orientation + velocity.turn * time)⟩

end RobotSoccer
