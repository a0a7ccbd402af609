import RobotSoccer.Controller.Pitch
import RobotSoccer.Link.Command

/-!
# The simulated game controller

How the controller answers requests and what it publishes. A request is checked in a fixed
order, its form, its robot, its key, whether the robot is preempted, and its command; only a
request that passes every check changes anything.
-/

namespace RobotSoccer

/-- A running controller. -/
structure Controller where
  /-- The keys that requests must carry. -/
  keys : TeamKeys
  /-- The pitch. -/
  pitch : Pitch
  /-- The commands that were accepted, in order. -/
  received : List ReceivedCommand

namespace Controller

/-- The time between two packets, in seconds. -/
def publishPeriod : Float := 0.01

/-- A controller at its start. -/
def fresh (keys : TeamKeys) : Controller := ⟨keys, .blank, []⟩

/-- Starts a controller, which needs a socket for its packets and one for its commands. -/
def start (sockets : Sockets) (keys : TeamKeys) : Except StartError Controller := do
  sockets.bind
  sockets.bind
  return fresh keys

/-- The reply to a request that cannot be carried out. -/
def refusal (reason : String) : Json := .arr [.bool false, .str reason]

/-- The reply to a request that was understood but not applied. -/
def notApplied (reason : String) : Json := .arr [.int Reply.notAppliedStatus, .str reason]

/-- The reply to a request that was carried out. -/
def applied : Json := .arr [.bool true, .str "ok"]

/-- What a request holds. -/
structure Order where
  /-- The key of the client. -/
  key : String
  /-- The word for the team. -/
  team : String
  /-- The number of the robot. -/
  number : UInt8
  /-- The command: its word and its arguments. -/
  command : List Json

/-- Reads a request. -/
def readOrder (bytes : Bytes) : Reading Order :=
  (Reader.four Reader.text Reader.text Codec.byte.read
    (Reader.list (Reader.value (Reader.nestingLimit - 2))) bytes).map fun read =>
      (⟨read.1.1, read.1.2.1, read.1.2.2.1, read.1.2.2.2⟩, read.2)

/-- The text of the robot that an order names. -/
def Order.robotText (order : Order) : String := order.team ++ RobotName.numberText order.number

/-- An argument as a velocity: zero when it is no number. -/
def argument (value : Json) : Float := value.number?.getD 0.0

/-- What a command does to the pitch; nothing is known of other commands. -/
def carryOut? (pitch : Pitch) (robot : RobotName) (command : List Json) : Option Pitch :=
  match command with
  | [.str name, forward, left, turn] =>
    if name = "control" then
      some (pitch.setVelocity robot ⟨argument forward, argument left, argument turn⟩)
    else none
  | [.str name, _] => if name = "kick" then some pitch else none
  | _ => none

/-- The text for a robot that is preempted. -/
def preemptionText (order : Order) (reasons : List String) : String :=
  "Robot " ++ RobotName.numberText order.number ++ " of team " ++ order.team ++
    " is preempted: " ++ String.intercalate ", " reasons

/-- The status of a robot that keeps an order from being carried out. -/
def preempting? (pitch : Pitch) (order : Order) : Option RobotStatus :=
  (pitch.packet.robotStatus? order.team order.number).filter (·.preempted)

/-- The reply to an order, and the controller after it. -/
def obey (controller : Controller) (order : Order) : Json × Controller :=
  match RobotName.ofText? order.robotText with
  | none => (refusal ("Unknown robot: " ++ order.robotText), controller)
  | some robot =>
    if controller.keys.of robot.team ≠ order.key then
      (refusal ("Bad key for team " ++ order.team), controller)
    else
      match preempting? controller.pitch order with
      | some status => (notApplied (preemptionText order status.preemptionReasons), controller)
      | none =>
        match carryOut? controller.pitch robot order.command with
        | none => (notApplied "Unknown command", controller)
        | some pitch =>
          (applied, { controller with
            pitch := pitch
            received := controller.received ++ [⟨robot, order.command⟩] })

/-- The reply to the bytes of a request, and the controller after it. -/
def answer (controller : Controller) (request : Bytes) : Json × Controller :=
  match Reader.whole readOrder request with
  | .error _ => (refusal "Unknown error", controller)
  | .ok order => controller.obey order

/-- One period: the pitch moves, then the raw frames that wait and a packet are published. -/
def tick (controller : Controller) : List Bytes × Controller :=
  let moved := controller.pitch.advance publishPeriod
  (moved.rawFrames ++ [moved.packet.encode],
    { controller with pitch := { moved with rawFrames := [] } })

/-- Several periods, and all frames published in them. -/
def ticks : Nat → Controller → List Bytes × Controller
  | 0, controller => ([], controller)
  | n + 1, controller =>
    let first := controller.tick
    let more := ticks n first.2
    (first.1 ++ more.1, more.2)

/-- Forgets the commands that were accepted. -/
def clearReceived (controller : Controller) : Controller := { controller with received := [] }

/-- Changes the pitch from the side of the controller. -/
def onPitch (controller : Controller) (change : Pitch → Pitch) : Controller :=
  { controller with pitch := change controller.pitch }

end Controller

end RobotSoccer
