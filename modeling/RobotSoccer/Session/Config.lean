import RobotSoccer.Duration
import RobotSoccer.Link.Address
import RobotSoccer.Link.Error

/-!
# Session settings

Which controller a session goes to, with which key, and how long it may take to begin.
-/

namespace RobotSoccer

/-- The settings of a session. -/
structure Config where
  /-- The host of the controller. -/
  host : Address
  /-- The key of the team, empty where no keys are asked for. -/
  key : String
  /-- The port that the state is published on. -/
  statePort : UInt16
  /-- The port that commands go to. -/
  controlPort : UInt16
  /-- Whether a session begins only when the ball and all robots have been seen. -/
  waitReady : Bool
  /-- How long it may take to begin. -/
  readyTimeout : Option Duration

namespace Config

/-- The settings of a session on the own host without a key. -/
def standard : Config where
  host := .loopback
  key := ""
  statePort := 7557
  controlPort := 7558
  waitReady := true
  readyTimeout := some (.of 10 0)

/-- The variable that holds the key. -/
def keyVariable : String := "RSK_KEY"

/-- The variable that holds the host. -/
def hostVariable : String := "RSK_HOST"

/-- The standard settings with the key and the host that variables hold. A text that spells no
address leaves the standard host. -/
def ofVariables (lookup : String → Option String) : Config :=
  { standard with
    key := (lookup keyVariable).getD standard.key
    host := ((lookup hostVariable).bind Address.ofText?).getD standard.host }

/-- The end that the state comes from. -/
def stateEndpoint (config : Config) : String := endpoint config.host config.statePort

/-- The end that commands go to. -/
def controlEndpoint (config : Config) : String := endpoint config.host config.controlPort

/-- Connects to both ends of a controller: to the one that the state comes from, with a subscription,
and then to the one that commands go to. -/
def reach (config : Config) (sockets : Sockets) : Except ConnectError Unit := do
  sockets.reach config.stateEndpoint
  sockets.subscribe
  sockets.reach config.controlEndpoint

end Config

end RobotSoccer
