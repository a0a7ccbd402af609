import RobotSoccer.Controller.Simulator

/-!
# Runs of the simulated controller

What can happen to a controller, one event at a time, and what it lets others see of each: the
reply to a request and the frames that it publishes.
-/

namespace RobotSoccer.Controller

/-- What can happen to a controller. -/
inductive Event where
  /-- The ball is put somewhere, or taken away. -/
  | setBall (ball : Option (Point Float))
  /-- A robot is put somewhere. -/
  | setRobot (name : RobotName) (pose : Pose Float)
  /-- A robot is taken from its team for a reason, or given back. -/
  | setPreempted (name : RobotName) (reason : Option String)
  /-- A frame is kept to be published as it is. -/
  | pushRaw (frame : Bytes)
  /-- The accepted commands are forgotten. -/
  | clearReceived
  /-- The bytes of a request come in. -/
  | request (bytes : Bytes)
  /-- A period passes. -/
  | tick

/-- What others see of an event. -/
structure Reaction where
  /-- The reply, when the event is a request. -/
  reply : Option Json
  /-- The frames that are published, in order. -/
  frames : List Bytes

namespace Reaction

/-- Nothing is seen. -/
def silent : Reaction := ⟨none, []⟩

end Reaction

/-- What an event does. -/
def happen (controller : Controller) : Event → Reaction × Controller
  | .setBall ball => (.silent, controller.onPitch fun pitch => pitch.setBall ball)
  | .setRobot name pose => (.silent, controller.onPitch fun pitch => pitch.setRobot name pose)
  | .setPreempted name reason =>
    (.silent, controller.onPitch fun pitch => pitch.setPreempted name reason)
  | .pushRaw frame => (.silent, controller.onPitch fun pitch => pitch.pushRaw frame)
  | .clearReceived => (.silent, controller.clearReceived)
  | .request bytes =>
    let answered := controller.answer bytes
    (⟨some answered.1, []⟩, answered.2)
  | .tick =>
    let ticked := controller.tick
    (⟨none, ticked.1⟩, ticked.2)

/-- What a run of events does, and what is seen of each of them. -/
def run : Controller → List Event → List Reaction × Controller
  | controller, [] => ([], controller)
  | controller, event :: more =>
    let first := controller.happen event
    let rest := run first.2 more
    (first.1 :: rest.1, rest.2)

/-- A run may be cut in two anywhere. -/
theorem run_append (controller : Controller) (before after : List Event) :
    run controller (before ++ after) =
      ((run controller before).1 ++ (run (run controller before).2 after).1,
        (run (run controller before).2 after).2) := by
  induction before generalizing controller with
  | nil => rfl
  | cons event more ih =>
    have rest := ih (controller.happen event).2
    simp only [List.cons_append, run, rest]

/-- A run begins with its first event. -/
theorem run_cons (controller : Controller) (event : Event) (more : List Event) :
    (run controller (event :: more)).2 = (run (controller.happen event).2 more).2 := rfl

/-- A run goes on with one more event. -/
theorem run_concat (controller : Controller) (events : List Event) (event : Event) :
    (run controller (events ++ [event])).2 = ((run controller events).2.happen event).2 := by
  rw [run_append]
  rfl

/-- What every event keeps, a run keeps. -/
theorem run_keeps {kept : Controller → Prop}
    (step : ∀ controller event, kept controller → kept (controller.happen event).2)
    (controller : Controller) (events : List Event) (start : kept controller) :
    kept (run controller events).2 := by
  induction events generalizing controller with
  | nil => exact start
  | cons event more ih => exact ih (controller.happen event).2 (step controller event start)

end RobotSoccer.Controller
