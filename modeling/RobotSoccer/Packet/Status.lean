import RobotSoccer.Geometry.Pose
import RobotSoccer.Json.Record
import RobotSoccer.RobotName

/-!
# State packets

What the game controller publishes: the markers that it sees, the ball, what the referee says,
and the lights on the robots. Every part may be missing from a packet; a missing marker means
that the robot is not seen at the moment.
-/

namespace RobotSoccer

/-- What the referee says about a robot. -/
structure RobotStatus where
  /-- Whether it serves a penalty. -/
  penalized : Bool
  /-- The seconds that remain of the penalty. -/
  penalizedRemaining : Option Float
  /-- What the penalty is for. -/
  penalizedReason : Option String
  /-- Whether it is taken from its team, so that it obeys no commands. -/
  preempted : Bool
  /-- What it was taken away for. -/
  preemptionReasons : List String
  deriving BEq

/-- What the referee says about a team. -/
structure TeamStatus where
  /-- The name that the team gave itself. -/
  name : String
  /-- Its goals. -/
  score : UInt32
  /-- Whether its side is the one with positive x. -/
  xPositive : Bool
  /-- Its robots by the digits of their numbers. -/
  robots : Dict RobotStatus
  deriving BEq

/-- What the referee says about the match. -/
structure MatchStatus where
  /-- Whether the match is on. -/
  gameIsRunning : Bool
  /-- Whether the match is paused. -/
  gamePaused : Bool
  /-- Whether it is half time. -/
  halftimeIsRunning : Bool
  /-- The seconds left. -/
  timer : Float
  /-- What the referee shows. -/
  message : String
  /-- The teams by their colours. -/
  teams : Dict TeamStatus
  deriving BEq

/-- The colour of a light, each part from dark to bright. -/
structure Light where
  /-- The red part. -/
  red : UInt8
  /-- The green part. -/
  green : UInt8
  /-- The blue part. -/
  blue : UInt8
  deriving BEq

/-- One packet of the state. -/
structure Packet where
  /-- The poses of the markers that are seen, by the names of their robots. -/
  markers : Dict (Pose Float)
  /-- The ball, when it is seen. -/
  ball : Option (Point Float)
  /-- What the referee says. -/
  referee : MatchStatus
  /-- The lights by the names of their robots. -/
  lights : Dict Light
  /-- Whether the field is a simulated one. -/
  simulated : Bool
  deriving BEq

/-- A robot about which the referee has nothing to say. -/
def RobotStatus.blank : RobotStatus := ⟨false, none, none, false, []⟩

/-- A team about which the referee has nothing to say. -/
def TeamStatus.blank : TeamStatus := ⟨"", 0, false, .empty⟩

/-- A match about which the referee has nothing to say. -/
def MatchStatus.blank : MatchStatus := ⟨false, false, false, 0.0, "", .empty⟩

/-- A packet that shows nothing. -/
def Packet.blank : Packet := ⟨.empty, none, .blank, .empty, false⟩

/-- What the referee says about a robot, found by the word for its team and its number. -/
def Packet.robotStatus? (packet : Packet) (team : String) (number : UInt8) :
    Option RobotStatus :=
  (packet.referee.teams.get? team).bind fun status =>
    status.robots.get? (RobotName.numberText number)

end RobotSoccer
