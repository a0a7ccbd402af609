import RobotSoccer.Geometry.Motion
import RobotSoccer.Json.Codec
import RobotSoccer.Link.Error
import RobotSoccer.RobotName
import RobotSoccer.Text.Quoted

/-!
# Commands, requests and replies

What a client asks of the game controller and what it is answered. A request carries the key
of a team, a robot and a command; a reply carries a status and a message.
-/

namespace RobotSoccer

/-- A command to a robot. -/
inductive Command where
  /-- Move at a velocity from now on. -/
  | control (velocity : Velocity Float)
  /-- Kick with a power from zero to one. -/
  | kick (power : Float)

namespace Command

/-- The word for a command. -/
def name : Command → String
  | control _ => "control"
  | kick _ => "kick"

/-- The command to stand still. -/
def stop : Command := control .zero

/-- A command as the word for it and its numbers. -/
def toJson : Command → Json
  | control v => .arr [.str "control", .float v.forward, .float v.left, .float v.turn]
  | kick power => .arr [.str "kick", .float power]

end Command

namespace Request

/-- A request: the key, the robot as its team and its number, and the command. -/
def toJson (key : String) (robot : RobotName) (command : Command) : Json :=
  .arr [.str key, .str robot.team.text, .int robot.number.toNat, command.toJson]

/-- The bytes of a request. -/
def encode (key : String) (robot : RobotName) (command : Command) : Bytes :=
  (toJson key robot command).toBytes

end Request

/-- What the controller did with a command that it accepted. -/
inductive Outcome where
  /-- It did what was asked. -/
  | applied
  /-- It understood and did nothing, for a reason. -/
  | notApplied (reason : String)
  deriving DecidableEq, Repr

namespace Reply

/-- Reads a status of any kind and a message. -/
def read (bytes : Bytes) : Reading (Json × String) :=
  Reader.two (Reader.value (Reader.nestingLimit - 1)) Reader.text bytes

/-- The status of a reply to a command that was understood but not applied. -/
def notAppliedStatus : Int := 2

/-- What a reply says about a command. True, false and two are the statuses there are; a reply
of another form is shown as it came. -/
def decode (bytes : Bytes) : Except CommandError Outcome :=
  match Reader.whole read bytes with
  | .error _ => .error (.malformedReply (Utf8.decodeLossy bytes))
  | .ok (status, message) =>
    match status with
    | .bool true => .ok .applied
    | .bool false => .error (.failed message)
    | .int n =>
      if n = notAppliedStatus then .ok (.notApplied message)
      else .error (.malformedReply ("[" ++ status.text ++ ", " ++ Quoted.quote message ++ "]"))
    | _ => .error (.malformedReply ("[" ++ status.text ++ ", " ++ Quoted.quote message ++ "]"))

end Reply

end RobotSoccer
