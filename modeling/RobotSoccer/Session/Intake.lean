import RobotSoccer.Session.Client

/-!
# Taking frames in

The task of a session that takes frames in. A packet is applied part by part, the ball first, then
each robot, then the referee, and only then it is announced to those who wait for news. Between two
parts anything else may happen in the session. A frame that is no packet is skipped, and the end of
the stream is the end of the task.
-/

namespace RobotSoccer

/-- A part of what a packet shows. -/
inductive Part where
  /-- The ball. -/
  | ball
  /-- A robot: its marker and its status. -/
  | robot (name : RobotName)
  /-- What the referee says about the match. -/
  | referee

/-- The parts of a packet, in the order in which they are applied. -/
def Part.all : List Part := .ball :: RobotName.all.map .robot ++ [.referee]

/-- The parts that must have been seen in a world that is ready, in the order in which they are
looked at. -/
def Part.needed : List Part := .ball :: RobotName.all.map .robot

namespace World

/-- A part of a packet comes in. -/
def receivePart (world : World) (packet : Packet) (now : Instant) : Part → World
  | .ball => world.updateBall packet.ball
  | .robot name => world.modifyRobot name fun view => view.receive name packet now
  | .referee => { world with referee := packet.referee }

/-- Whether a part has been seen. There is always a referee. -/
def hasSeen (world : World) : Part → Bool
  | .ball => world.ball.isSome
  | .robot name => (world.robot? name).any RobotView.hasPosition
  | .referee => true

end World

/-- A packet that was applied is announced. -/
def Client.announce {σ : Type} (client : Client σ) : Client σ :=
  { client with updates := client.updates + 1, unseen := true }

/-- What the task that takes frames in is about. -/
inductive Intake where
  /-- It waits for the next frame. -/
  | waiting
  /-- It applies a packet that came at some moment. These parts are left; when none is, it announces
  the packet. -/
  | applying (packet : Packet) (now : Instant) (parts : List Part)

namespace Intake

variable {σ : Type}

/-- What the task does. -/
inductive Act where
  /-- A frame comes in. -/
  | frame (bytes : Bytes) (now : Instant)
  /-- The task goes on with the packet that it applies. -/
  | proceed
  /-- The stream of frames ends. -/
  | lose

/-- A frame comes in, for a task that waits for one while the stream goes on. -/
def take (client : Client σ) (bytes : Bytes) (now : Instant) : Intake → Option (Client σ × Intake)
  | .waiting =>
    if client.closed then none
    else
      match Packet.decode bytes with
      | .error _ => some (client, .waiting)
      | .ok packet => some (client, .applying packet now Part.all)
  | .applying _ _ _ => none

/-- The next part of a packet is applied. -/
def proceed (client : Client σ) : Intake → Option (Client σ × Intake)
  | .waiting => none
  | .applying _ _ [] => some (client.announce, .waiting)
  | .applying packet now (part :: more) =>
    some ({ client with world := client.world.receivePart packet now part }, .applying packet now more)

/-- The stream of frames ends for a task that waits for one. -/
def lose (client : Client σ) : Intake → Option (Client σ × Intake)
  | .waiting => some ({ client with closed := true }, .waiting)
  | .applying _ _ _ => none

/-- The task does something, when it can. -/
def happen (intake : Intake) (client : Client σ) : Act → Option (Client σ × Intake)
  | .frame bytes now => intake.take client bytes now
  | .proceed => intake.proceed client
  | .lose => intake.lose client

/-- The task does things one after the other, while nothing else happens. -/
def run (intake : Intake) (client : Client σ) : List Act → Option (Client σ × Intake)
  | [] => some (client, intake)
  | act :: more => (intake.happen client act).bind fun next => next.2.run next.1 more

/-- Whether a packet is being applied. -/
def isApplying : Intake → Bool
  | .waiting => false
  | .applying _ _ _ => true

/-- Whether a packet comes in. -/
def Act.isPacket : Act → Bool
  | .frame bytes _ => (Packet.decode bytes).isOk
  | .proceed | .lose => false

/-- What the task does with a frame from one wait to the next. -/
def Act.whole (bytes : Bytes) (now : Instant) : List Act :=
  .frame bytes now ::
    match Packet.decode bytes with
    | .error _ => []
    | .ok _ => Part.all.map (fun _ => .proceed) ++ [.proceed]

end Intake

end RobotSoccer
