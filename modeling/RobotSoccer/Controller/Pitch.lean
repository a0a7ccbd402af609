import RobotSoccer.Geometry.Motion
import RobotSoccer.Json.Value
import RobotSoccer.Link.Error
import RobotSoccer.Packet.Wire

/-!
# The simulated pitch

A game controller that plays the pitch by itself: it holds the state that it publishes, moves
each robot by the last velocity ordered for it, and keeps the commands that it accepted. Here
is what it holds and what can be done to it from its own side; how it answers requests stands
in another module.
-/

namespace RobotSoccer

/-- A command that the controller accepted. -/
structure ReceivedCommand where
  /-- The robot it was for. -/
  robot : RobotName
  /-- The command as it came: its word and its arguments. -/
  command : List Json

/-- The velocity in a control command whose arguments are all numbers. -/
def ReceivedCommand.control? (received : ReceivedCommand) : Option (Velocity Float) :=
  match received.command with
  | [.str name, forward, left, turn] =>
    if name = "control" then
      match forward.number?, left.number?, turn.number? with
      | some forward, some left, some turn => some ⟨forward, left, turn⟩
      | _, _, _ => none
    else none
  | _ => none

/-- The keys of the two teams. -/
structure TeamKeys where
  /-- The key of the blue team. -/
  blue : String
  /-- The key of the green team. -/
  green : String

/-- The key of a team. -/
def TeamKeys.of (keys : TeamKeys) : Team → String
  | .blue => keys.blue
  | .green => keys.green

/-- Moves the marker with a key by a velocity, if there is such a marker. -/
def moveMarker {α : Type} [Scalar α] (time : α) (markers : Dict (Pose α))
    (moving : String × Velocity α) : Dict (Pose α) :=
  markers.modify moving.1 fun pose => pose.moved moving.2 time

/-- Moves markers by the velocities with their keys, one after the other. -/
def moveMarkers {α : Type} [Scalar α] (time : α) (order : List (String × Velocity α))
    (markers : Dict (Pose α)) : Dict (Pose α) :=
  order.foldl (moveMarker time) markers

/-- What is on the pitch. -/
structure Pitch where
  /-- The state that is published. -/
  packet : Packet
  /-- The last velocity ordered for each robot since it was placed, by the text of its name as
  the markers are. -/
  velocities : Dict (Velocity Float)
  /-- Frames to be published as they are before the next packet. -/
  rawFrames : List Bytes

namespace Pitch

/-- A pitch with nothing on it. -/
def blank : Pitch := ⟨.blank, .empty, []⟩

/-- Where a robot stands. -/
def robotPose? (pitch : Pitch) (name : RobotName) : Option (Pose Float) :=
  pitch.packet.markers.get? name.text

/-- Lets some time pass: the robots move by these velocities, one after the other. -/
def advanceIn (pitch : Pitch) (order : List (String × Velocity Float)) (time : Float) : Pitch :=
  { pitch with
    packet := { pitch.packet with markers := moveMarkers time order pitch.packet.markers } }

/-- Lets some time pass for all robots that have a velocity. -/
def advance (pitch : Pitch) (time : Float) : Pitch :=
  pitch.advanceIn pitch.velocities.entries time

/-- Puts the ball somewhere, or takes it away. -/
def setBall (pitch : Pitch) (ball : Option (Point Float)) : Pitch :=
  { pitch with packet := { pitch.packet with ball := ball } }

/-- Puts a robot somewhere, where it stands still. -/
def setRobot (pitch : Pitch) (name : RobotName) (pose : Pose Float) : Pitch :=
  { pitch with
    packet := { pitch.packet with markers := pitch.packet.markers.insert name.text pose }
    velocities := pitch.velocities.erase name.text }

/-- Takes a robot from its team for a reason, or gives it back. -/
def setPreempted (pitch : Pitch) (name : RobotName) (reason : Option String) : Pitch :=
  let referee := pitch.packet.referee
  let team := (referee.teams.get? name.team.text).getD .blank
  let status : RobotStatus :=
    { RobotStatus.blank with preempted := reason.isSome, preemptionReasons := reason.toList }
  let robots := team.robots.insert (RobotName.numberText name.number) status
  let teams := referee.teams.insert name.team.text { team with robots := robots }
  { pitch with packet := { pitch.packet with referee := { referee with teams := teams } } }

/-- Keeps a frame to be published as it is before the next packet. -/
def pushRaw (pitch : Pitch) (frame : Bytes) : Pitch :=
  { pitch with rawFrames := pitch.rawFrames ++ [frame] }

/-- Orders a velocity for a robot. -/
def setVelocity (pitch : Pitch) (name : RobotName) (velocity : Velocity Float) : Pitch :=
  { pitch with velocities := pitch.velocities.insert name.text velocity }

end Pitch

end RobotSoccer
