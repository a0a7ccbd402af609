import RobotSoccer.Controller.Simulator
import RobotSoccer.Session.Config
import RobotSoccer.Session.Error
import RobotSoccer.World

/-!
# A client of a game controller

A client keeps a world up to date from the frames that it receives and sends commands to the
far end of its control link, one after the other. The far end is any `Server`: one that gives
prepared replies, or the simulated controller.
-/

namespace RobotSoccer

/-- The far end of a control link with states in `σ`: what it answers to a request, and its
state afterwards. -/
structure Server (σ : Type) where
  /-- The reply to a request. -/
  answer : σ → Bytes → Bytes × σ

namespace Server

/-- The reply of a controller that has nothing against a command. -/
def agreement : Bytes := Controller.applied.toBytes

/-- Gives prepared replies in order and agrees to everything after them. -/
def prepared : Server (List Bytes) where
  answer
    | [], _ => (agreement, [])
    | reply :: more, _ => (reply, more)

/-- The simulated controller. -/
def simulated : Server Controller where
  answer controller request :=
    let answered := controller.answer request
    (answered.1.toBytes, answered.2)

end Server

/-- One command that was sent, and what became of it. -/
structure Exchange where
  /-- The robot it was for. -/
  robot : RobotName
  /-- The command. -/
  command : Command
  /-- What the reply said. -/
  outcome : Except CommandError Outcome

/-- A client in a session, with the state of the far end. -/
structure Client (σ : Type) where
  /-- The key that its requests carry. -/
  key : String
  /-- The world as it knows it. -/
  world : World
  /-- The state of the far end. -/
  far : σ
  /-- The commands that were sent, in order. -/
  exchanges : List Exchange
  /-- The count of packets taken in. -/
  updates : Nat
  /-- Whether a packet was taken in since the last one reported. -/
  unseen : Bool
  /-- Whether the stream of frames has been ended. -/
  closed : Bool

/-- Why something done on behalf of a session came to a halt. -/
inductive Halt where
  /-- It failed. -/
  | error (cause : SessionError)
  /-- It looked up a robot that does not play, and broke off on the spot. -/
  | stranger (name : RobotName)
  /-- It was told to stop, or nobody waits for it any longer. -/
  | stopped

/-- The step of a robot towards a target from where it was last seen, if it can be looked up and
was ever seen. -/
def World.stepTo (world : World) (robot : RobotName) (target : Pose Float) :
    Except Halt (GotoStep Float) :=
  match world.robot? robot with
  | none => .error (.stranger robot)
  | some view =>
    match view.gotoStep? target with
    | none => .error (.error (.unknownPosition robot))
    | some step => .ok step

/-- A robot that has no step does not play, or was never seen. -/
theorem World.stepTo_error {world : World} {robot : RobotName} {target : Pose Float} {halt : Halt}
    (h : world.stepTo robot target = .error halt) :
    (robot ∉ RobotName.all ∧ halt = .stranger robot) ∨ halt = .error (.unknownPosition robot) := by
  have hrobot := Roster.isSome_get? world.robots robot
  unfold stepTo World.robot? at h
  cases hview : world.robots.get? robot with
  | none =>
    rw [hview] at h hrobot
    exact .inl ⟨fun hmem => Bool.false_ne_true (hrobot.2 hmem), (Except.error.inj h).symm⟩
  | some view =>
    rw [hview] at h
    dsimp only at h
    cases hstep : view.gotoStep? target with
    | none => rw [hstep] at h; exact .inr (Except.error.inj h).symm
    | some step => rw [hstep] at h; cases h

/-- A robot that has a step plays. -/
theorem World.plays_of_stepTo {world : World} {robot : RobotName} {target : Pose Float}
    {step : GotoStep Float} (h : world.stepTo robot target = .ok step) : robot ∈ RobotName.all := by
  refine (world.robots.isSome_get? robot).1 ?_
  unfold stepTo World.robot? at h
  cases hview : world.robots.get? robot with
  | none => rw [hview] at h; cases h
  | some view => rfl

namespace Client

variable {σ : Type}

/-- A client at the start of its session. -/
def fresh (key : String) (far : σ) : Client σ := ⟨key, .blank, far, [], 0, false, false⟩

/-- A frame is published. A packet is taken into the world and counted; any other frame is
skipped, and after the end of the stream nothing comes in. -/
def receive (client : Client σ) (frame : Bytes) : Client σ :=
  if client.closed then client
  else
    match client.world.receiveFrame frame client.updates with
    | .error _ => client
    | .ok world => { client with world := world, updates := client.updates + 1, unseen := true }

/-- Frames are published in order. -/
def receiveAll (client : Client σ) (frames : List Bytes) : Client σ := frames.foldl receive client

/-- What came of the attempt to begin a session. -/
inductive Beginning (σ : Type) where
  /-- The session has begun. -/
  | begun (client : Client σ)
  /-- The controller was not reached, or the session did not begin in time. -/
  | failed (cause : SessionError)
  /-- It still waits, without a limit. -/
  | waiting

/-- Begins a session in which these frames come in first, when the controller is reached. Their
packets are news to the client. -/
def connect (config : Config) (far : σ) (frames : List Bytes) (sockets : Sockets := .available) :
    Beginning σ :=
  match config.reach sockets with
  | .error cause => .failed (.connect cause)
  | .ok () =>
    let client := (fresh config.key far).receiveAll frames
    if config.waitReady && !client.world.isReady then
      match config.readyTimeout with
      | some timeout => .failed (.notReady timeout)
      | none => .waiting
    else .begun client

/-- Sends one command and waits for its reply. -/
def command (server : Server σ) (client : Client σ) (robot : RobotName) (command : Command) :
    Except SessionError Outcome × Client σ :=
  let answered := server.answer client.far (Request.encode client.key robot command)
  let outcome := Reply.decode answered.1
  (outcome.mapError (.command robot),
    { client with
      far := answered.2
      exchanges := client.exchanges ++ [⟨robot, command, outcome⟩] })

/-- Sends a command to a robot that plays; one that does not cannot be looked up. -/
def order (server : Server σ) (client : Client σ) (robot : RobotName) (command : Command) :
    Except Halt Outcome × Client σ :=
  match client.world.robot? robot with
  | none => (.error (.stranger robot), client)
  | some _ =>
    let (result, client) := client.command server robot command
    (result.mapError .error, client)

/-- One step of a robot towards a target: nothing is sent for a robot that was never seen, and
the step says whether the robot was there already. -/
def gotoOnce (server : Server σ) (client : Client σ) (robot : RobotName) (target : Pose Float) :
    Except Halt Bool × Client σ :=
  match client.world.stepTo robot target with
  | .error halt => (.error halt, client)
  | .ok step =>
    match client.command server robot (.control step.velocity) with
    | (.error cause, client) => (.error (.error cause), client)
    | (.ok _, client) => (.ok step.arrived, client)

/-- What comes in during the periods of a wait: at most one frame in each. -/
abbrev Arrivals := List (Option Bytes)

/-- What comes in during one period. -/
def arrive (client : Client σ) : Option Bytes → Client σ
  | none => client
  | some frame => client.receive frame

/-- Steps towards a target until the robot is there, then stops it and says that it is there. What
is granted between two steps is met by the client, and the robot is given up when nothing more is
granted. Also gives what is left of it. -/
def approach {ι : Type} (server : Server σ) (meet : Client σ → ι → Client σ) (robot : RobotName)
    (target : Pose Float) : List ι → Client σ → Except Halt Bool × Client σ × List ι
  | granted, client =>
    match client.gotoOnce server robot target with
    | (.error halt, client) => (.error halt, client, granted)
    | (.ok true, client) =>
      match client.command server robot .stop with
      | (.error cause, client) => (.error (.error cause), client, granted)
      | (.ok _, client) => (.ok true, client, granted)
    | (.ok false, client) =>
      match granted with
      | [] => (.error .stopped, client, [])
      | next :: more => approach server meet robot target more (meet client next)

/-- Steps towards a target until the robot is there, one step in each period, and then stops it.
Also gives the periods left. -/
def gotoWait (server : Server σ) (robot : RobotName) (target : Pose Float) (arrivals : Arrivals)
    (client : Client σ) : Except Halt Unit × Client σ × Arrivals :=
  let (result, client, left) := approach server arrive robot target arrivals client
  (result.map fun _ => (), client, left)

/-- Stops every robot that plays, whatever becomes of each stop. -/
def stopMotion (server : Server σ) (client : Client σ) : Client σ :=
  RobotName.all.foldl (fun client robot => (client.command server robot .stop).2) client

/-- Ends the session: the robots are stopped and no frame comes in any more. -/
def close (server : Server σ) (client : Client σ) : Client σ :=
  { client.stopMotion server with closed := true }

/-- What a look for news finds. -/
inductive News where
  /-- A packet was taken in since the last look. -/
  | fresh
  /-- Nothing was, so far. -/
  | pending
  /-- Nothing was, and nothing will be. -/
  | ended

/-- Looks for news; news that was looked at is old. -/
def nextUpdate (client : Client σ) : News × Client σ :=
  if client.unseen then (.fresh, { client with unseen := false })
  else if client.closed then (.ended, client)
  else (.pending, client)

end Client

end RobotSoccer
