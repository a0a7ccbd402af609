import RobotSoccer.World

/-!
# Strategies

A strategy decides from what is seen where the robots should go. Two of them are here: one
parks every robot, the other sends robots onto the ball.
-/

namespace RobotSoccer

/-- An order to bring a robot to a target. -/
structure GotoOrder where
  /-- The robot. -/
  robot : RobotName
  /-- Where it should go. -/
  target : Pose Float
  /-- Whether to wait until it is there. -/
  wait : Bool

/-- A way of playing that may remember something from one moment to the next. -/
structure Strategy (μ : Type) where
  /-- The orders at some moment, from what is seen and the time since the moment before. -/
  plan : μ → Snapshot → Duration → List GotoOrder × μ
  /-- The robot whose state is shown. -/
  watched : μ → RobotName

namespace Strategy

/-- A strategy that remembers nothing and looks at nothing but the field. -/
def stateless (plan : Snapshot → List GotoOrder) (watched : RobotName) : Strategy Unit where
  plan _ seen _ := (plan seen, ())
  watched _ := watched

/-- Where robots are parked: the centre of the field, facing backwards. -/
def parkPose : Pose Float := .of 0.0 0.0 Scalar.pi

/-- Parks every robot, whatever is seen. -/
def park : Strategy Unit :=
  stateless (fun _ => RobotName.all.map fun name => ⟨name, parkPose, false⟩) .blue1

/-- The direction that robots on the ball face by default: a third of half a turn. -/
def followOrientation : Float := Scalar.pi / 3.0

/-- The robots that follow the ball by default. -/
def followers : List RobotName := [.blue1, .green1]

/-- Sends robots onto the ball, all facing one direction. There is nothing to do before the
ball is seen. -/
def followBall (robots : List RobotName) (orientation : Float) : Strategy Unit :=
  stateless
    (fun seen =>
      match seen.ball with
      | none => []
      | some ball => robots.map fun name => ⟨name, .of ball.x ball.y orientation, false⟩)
    (robots.head?.getD .blue1)

end Strategy

end RobotSoccer
