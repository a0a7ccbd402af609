import RobotSoccer.Proofs.Controller.Robotwise
import RobotSoccer.Proofs.Link.RoundTrip

/-!
# Robots are isolated from one another

A run of the controller shows of a robot only what the events that concern it bring about. Two
runs with the same such events show the same of it, whatever else happens in them.
-/

namespace RobotSoccer.Controller

/-- What is seen of a robot at an event. -/
structure Sight where
  /-- Where it stands after the event. -/
  pose : Option (Pose Float)
  /-- Its velocity after the event. -/
  velocity : Option (Velocity Float)
  /-- The reply, when the event is a request. -/
  reply : Option Json

/-- What a run shows of a robot: one sight for each event that concerns it. -/
def sights (robot : RobotName) : Controller → List Event → List Sight
  | _, [] => []
  | controller, event :: more =>
    let happened := controller.happen event
    if concerns controller.keys robot event then
      ⟨happened.2.pitch.robotPose? robot, happened.2.pitch.velocities.get? robot.text,
        happened.1.reply⟩ :: sights robot happened.2 more
    else sights robot happened.2 more

/-- What the machine of a robot shows in a run, and what is held about the robot at its end. -/
def Holding.run (keys : TeamKeys) (robot : RobotName) :
    Holding → List Event → List Sight × Holding
  | holding, [] => ([], holding)
  | holding, event :: more =>
    let happened := holding.happen keys robot event
    let rest := run keys robot happened.2 more
    (⟨happened.2.pose, happened.2.velocity, happened.1⟩ :: rest.1, rest.2)

/-- A run of the controller shows of a robot what the machine of the robot shows in a run of the
events that concern it, and ends where that run ends. -/
theorem sights_eq_run (controller : Controller) (robot : RobotName) (events : List Event) :
    (controller.sights robot events, (run controller events).2.holding robot) =
      (controller.holding robot).run controller.keys robot
        (events.filter (concerns controller.keys robot)) := by
  induction events generalizing controller with
  | nil => rfl
  | cons event more ih =>
    have hrest := ih (controller.happen event).2
    have hholding := controller.holding_happen robot event
    rw [keys_happen, hholding] at hrest
    cases hconcerns : concerns controller.keys robot event with
    | true =>
      have hreply := reply_happen hconcerns
      rw [List.filter_cons_of_pos hconcerns, Holding.run, ← hrest, sights, run,
        if_pos hconcerns, ← hreply, ← hholding]
      rfl
    | false =>
      have hkept := (controller.holding robot).happen_of_not_concerns hconcerns
      rw [hkept] at hrest
      have hskip : controller.sights robot (event :: more) =
          (controller.happen event).2.sights robot more := by
        rw [sights]
        exact if_neg (Bool.eq_false_iff.1 hconcerns)
      rw [List.filter_cons_of_neg (Bool.eq_false_iff.1 hconcerns), ← hrest, hskip, run]

/-- Robots are isolated: two runs with the same events that concern a robot show the same of it
after each of them, its pose, its velocity and the reply, and end with the same held about it. -/
theorem isolated {keys : TeamKeys} {robot : RobotName} {left right : List Event}
    (h : left.filter (concerns keys robot) = right.filter (concerns keys robot)) :
    (fresh keys).sights robot left = (fresh keys).sights robot right ∧
      (run (fresh keys) left).2.holding robot = (run (fresh keys) right).2.holding robot := by
  have hleft := (fresh keys).sights_eq_run robot left
  have hright := (fresh keys).sights_eq_run robot right
  have hkeys : (fresh keys).keys = keys := rfl
  rw [hkeys] at hleft hright
  rw [h, ← hright] at hleft
  exact ⟨congrArg Prod.fst hleft, congrArg Prod.snd hleft⟩

/-- Neither bytes that are no request nor a request for another robot are seen at a robot. -/
theorem isolated_from_strangers :
    (fresh ⟨"b", "g"⟩).sights .blue1
        [.setRobot .blue1 (.of 0.0 0.0 0.0), .request [],
          .request (Request.encode "g" .green1 .stop), .setPreempted .blue2 (some "foul"), .tick] =
      (fresh ⟨"b", "g"⟩).sights .blue1 [.setRobot .blue1 (.of 0.0 0.0 0.0), .tick] := by
  have hother : orderFor? ⟨"b", "g"⟩ .blue1 (Request.encode "g" .green1 .stop) = none := by
    rw [orderFor?, Request.readOrder_encode]
    exact if_neg (by decide)
  refine (isolated ?_).1
  rw [List.filter_cons_of_pos rfl, List.filter_cons_of_neg (by decide),
    List.filter_cons_of_neg (by rw [concerns, hother]; decide),
    List.filter_cons_of_neg (by decide)]
  rfl

end RobotSoccer.Controller
