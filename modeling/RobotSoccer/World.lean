import RobotSoccer.Duration
import RobotSoccer.Geometry.Motion
import RobotSoccer.Packet.Wire

/-!
# The world as a client knows it

The last known ball, the last known state of each robot, and what the referee said last. Each
packet overwrites what it shows and leaves the rest as it was.
-/

namespace RobotSoccer

/-- A point in time, in nanoseconds of some clock. -/
abbrev Instant := Nat

/-- What is known about a robot. -/
structure RobotView where
  /-- Its pose when it was last seen. -/
  pose : Option (Pose Float)
  /-- When it was last seen. -/
  lastSeen : Option Instant
  /-- What the referee said about it last. -/
  status : RobotStatus

namespace RobotView

/-- A robot that was never seen. -/
def unseen : RobotView := ⟨none, none, .blank⟩

/-- Whether it was ever seen. -/
def hasPosition (view : RobotView) : Bool := view.pose.isSome

/-- Its position, the centre of the field before it is seen. -/
def position (view : RobotView) : Point Float := (view.pose.map (·.position)).getD .zero

/-- Its direction, zero before it is seen. -/
def orientation (view : RobotView) : Float := (view.pose.map (·.orientation)).getD 0.0

/-- The time since it was last seen. -/
def age (view : RobotView) (now : Instant) : Option Duration :=
  view.lastSeen.map fun time => ⟨now - time⟩

/-- Its marker is seen. -/
def see (view : RobotView) (marker : Pose Float) (now : Instant) : RobotView :=
  { view with pose := some marker, lastSeen := some now }

/-- The referee says something about it. -/
def setStatus (view : RobotView) (status : RobotStatus) : RobotView :=
  { view with status := status }

/-- The step towards a target, when the robot has been seen. -/
def gotoStep? (view : RobotView) (target : Pose Float) : Option (GotoStep Float) :=
  view.pose.map fun current => gotoStep current target

/-- A packet comes in: its marker and its status of this robot count, each when it is there. -/
def receive (name : RobotName) (packet : Packet) (now : Instant) (view : RobotView) :
    RobotView :=
  let seen := match packet.markers.get? name.text with
    | none => view
    | some marker => view.see marker now
  match packet.robotStatus? name.team.text name.number with
  | none => seen
  | some status => seen.setStatus status

end RobotView

/-- What is known about the field. -/
structure World where
  /-- The ball where it was last seen. -/
  ball : Option (Point Float)
  /-- The robots. -/
  robots : Roster RobotView
  /-- What the referee said last. -/
  referee : MatchStatus

/-- What is seen of the field at one moment. -/
structure Snapshot where
  /-- The ball. -/
  ball : Option (Point Float)
  /-- The poses of the robots. -/
  robots : Roster (Option (Pose Float))

namespace World

/-- A world of which nothing was seen. -/
def blank : World := ⟨none, .fill .unseen, .blank⟩

/-- The ball is seen, or is not; then its last position stays. -/
def updateBall (world : World) (ball : Option (Point Float)) : World :=
  { world with ball := ball.or world.ball }

/-- A packet comes in. -/
def receive (world : World) (packet : Packet) (now : Instant) : World where
  ball := packet.ball.or world.ball
  robots := world.robots.mapNamed fun name view => view.receive name packet now
  referee := packet.referee

/-- The view of a robot; there is none of a robot that does not play. -/
def robot? (world : World) (name : RobotName) : Option RobotView := world.robots.get? name

/-- Changes the view of a robot. -/
def modifyRobot (world : World) (name : RobotName) (change : RobotView → RobotView) : World :=
  match world.robot? name with
  | none => world
  | some view => { world with robots := world.robots.set name (change view) }

/-- A frame comes in: a packet is taken, and anything else leaves the world as it was. -/
def receiveFrame (world : World) (frame : Bytes) (now : Instant) : Except Fault World :=
  (Packet.decode frame).map fun packet => world.receive packet now

/-- Whether the ball and every robot have been seen. -/
def isReady (world : World) : Bool :=
  world.ball.isSome && world.robots.toList.all fun entry => entry.2.hasPosition

/-- What is seen at this moment. -/
def snapshot (world : World) : Snapshot :=
  ⟨world.ball, world.robots.mapNamed fun _ view => view.pose⟩

/-- What can happen to a world. -/
inductive Event where
  /-- A frame comes in, whether it is a packet or not. -/
  | frame (bytes : Bytes)
  /-- The ball is seen, or is not. -/
  | ball (position : Option (Point Float))
  /-- The marker of a robot is seen. -/
  | marker (name : RobotName) (pose : Pose Float)
  /-- The referee says something about a robot. -/
  | status (name : RobotName) (status : RobotStatus)

/-- What an event does to a world. -/
def happen (world : World) (event : Event) (now : Instant) : World :=
  match event with
  | .frame bytes =>
    match world.receiveFrame bytes now with
    | .error _ => world
    | .ok next => next
  | .ball position => world.updateBall position
  | .marker name pose => world.modifyRobot name fun view => view.see pose now
  | .status name status => world.modifyRobot name fun view => view.setStatus status

end World

/-- One line about the ball and a robot. -/
def stateLine (ball : Option (Point Float)) (name : RobotName) (view : RobotView) : String :=
  "ball: " ++ (ball.map Point.text).getD "unknown" ++ " | " ++ name.text ++ ": " ++
    view.position.text ++ " orientation: " ++ String.ofList (Number.shownText view.orientation)

end RobotSoccer
