import RobotSoccer.Duration
import RobotSoccer.Link.Error
import RobotSoccer.RobotName

/-!
# What goes wrong in a session
-/

namespace RobotSoccer

/-- Why a session did not do what was asked. -/
inductive SessionError where
  /-- The controller was not reached. -/
  | connect (cause : ConnectError)
  /-- A command to a robot has no outcome. -/
  | command (robot : RobotName) (cause : CommandError)
  /-- The session did not begin in time. -/
  | notReady (timeout : Duration)
  /-- The stream of the state ended. -/
  | disconnected
  /-- The robot has not been seen yet. -/
  | unknownPosition (robot : RobotName)
  deriving DecidableEq, Repr

/-- The text of what went wrong. -/
def SessionError.text : SessionError → String
  | connect cause => cause.text
  | command robot cause => "command to " ++ robot.text ++ " failed: " ++ cause.text
  | notReady timeout => "game controller not ready after " ++ timeout.text
  | disconnected => "disconnected from the game controller"
  | unknownPosition robot => "position of " ++ robot.text ++ " is unknown"

end RobotSoccer
