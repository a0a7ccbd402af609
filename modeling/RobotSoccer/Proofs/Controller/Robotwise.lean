import RobotSoccer.Controller.Run
import RobotSoccer.Proofs.Controller.Ways
import RobotSoccer.Proofs.Geometry.Markers

/-!
# One robot at a time

What the controller holds about one robot is a machine of its own: what an event does to it
depends on the event and on what is held about this robot, and on nothing else. Most events do
not concern the robot at all and leave what is held about it as it was.
-/

namespace RobotSoccer

/-- Different teams have different words. -/
theorem Team.text_injective {left right : Team} (h : left.text = right.text) : left = right := by
  cases left with
  | blue =>
    cases right with
    | blue => rfl
    | green => exact absurd h (by decide)
  | green =>
    cases right with
    | blue => exact absurd h (by decide)
    | green => rfl

namespace Pitch

/-- The pose that a velocity leads to in some time; a robot without a velocity stands still. -/
def poseAfter (time : Float) (velocity : Option (Velocity Float)) (pose : Pose Float) :
    Pose Float :=
  match velocity with
  | none => pose
  | some velocity => pose.moved velocity time

/-- The velocity of a robot carries it there. -/
theorem poseAfter_eq (time : Float) (velocity : Option (Velocity Float)) :
    poseAfter time velocity = Pose.carried time velocity := by
  cases velocity with
  | none => rfl
  | some velocity => rfl

/-- Passing time moves the marker of each robot by its own velocity. -/
theorem get?_markers_advance (pitch : Pitch) (time : Float) (key : String) :
    (pitch.advance time).packet.markers.get? key =
      (pitch.packet.markers.get? key).map
        (poseAfter time (pitch.velocities.get? key)) := by
  rw [advance, advanceIn, poseAfter_eq]
  exact get?_moveMarkers time pitch.velocities.nodup_keys pitch.packet.markers key

/-- The status that a robot is given when it is taken from its team or given back. -/
def givenStatus (reason : Option String) : RobotStatus :=
  { RobotStatus.blank with preempted := reason.isSome, preemptionReasons := reason.toList }

/-- Taking a robot from its team, or giving it back, changes its own status and no other. -/
theorem robotStatus?_setPreempted (pitch : Pitch) (name robot : RobotName)
    (reason : Option String) :
    (pitch.setPreempted name reason).packet.robotStatus? robot.team.text robot.number =
      if name = robot then some (givenStatus reason)
      else pitch.packet.robotStatus? robot.team.text robot.number := by
  unfold Packet.robotStatus? setPreempted
  dsimp only
  rw [Dict.get?_insert]
  by_cases hteam : name.team = robot.team
  · rw [if_pos (congrArg Team.text hteam), Option.bind_some, Dict.get?_insert, hteam]
    by_cases hnumber : name.number = robot.number
    · have hname : name = robot := by
        cases name
        cases robot
        cases hteam
        cases hnumber
        rfl
      rw [if_pos hname, if_pos (congrArg _ hnumber)]
      rfl
    · have hname : name ≠ robot := fun heq => hnumber (congrArg _ heq)
      rw [if_neg hname, if_neg fun heq => hnumber (RobotName.numberText_injective heq)]
      cases pitch.packet.referee.teams.get? robot.team.text with
      | none => rfl
      | some team => rfl
  · have hname : name ≠ robot := fun heq => hteam (congrArg _ heq)
    rw [if_neg hname, if_neg fun heq => hteam (Team.text_injective heq)]

end Pitch

namespace Controller

/-- What a controller holds about one robot. -/
structure Holding where
  /-- Where it stands. -/
  pose : Option (Pose Float)
  /-- The velocity ordered for it. -/
  velocity : Option (Velocity Float)
  /-- What the referee says about it. -/
  status : Option RobotStatus

/-- What a controller holds about a robot. -/
def holding (controller : Controller) (robot : RobotName) : Holding where
  pose := controller.pitch.robotPose? robot
  velocity := controller.pitch.velocities.get? robot.text
  status := controller.pitch.packet.robotStatus? robot.team.text robot.number

/-- The order in some bytes, when they hold one that names this robot and carries the key of
its team. -/
def orderFor? (keys : TeamKeys) (robot : RobotName) (bytes : Bytes) : Option Order :=
  match Reader.whole readOrder bytes with
  | .error _ => none
  | .ok order =>
    if RobotName.ofText? order.robotText = some robot ∧ keys.of robot.team = order.key then
      some order
    else none

/-- Whether an event concerns a robot: a period passes, the robot is put somewhere, taken from
its team or given back, or a request comes in that names it and carries the key of its team. -/
def concerns (keys : TeamKeys) (robot : RobotName) : Event → Bool
  | .setRobot name _ => name = robot
  | .setPreempted name _ => name = robot
  | .request bytes => (orderFor? keys robot bytes).isSome
  | .tick => true
  | .setBall _ => false
  | .pushRaw _ => false
  | .clearReceived => false

namespace Holding

/-- The reply to an order for the robot, and what is held about the robot after it. -/
def obey (holding : Holding) (order : Order) : Json × Holding :=
  match holding.status.filter (·.preempted) with
  | some status => (notApplied (preemptionText order status.preemptionReasons), holding)
  | none =>
    match ordered? order.command with
    | none => (notApplied "Unknown command", holding)
    | some none => (applied, holding)
    | some (some velocity) => (applied, { holding with velocity := some velocity })

/-- What an event does to what is held about a robot, with the reply to a request that concerns
the robot. -/
def happen (keys : TeamKeys) (robot : RobotName) (holding : Holding) :
    Event → Option Json × Holding
  | .setRobot name pose =>
    (none, if name = robot then ⟨some pose, none, holding.status⟩ else holding)
  | .setPreempted name reason =>
    (none, if name = robot then { holding with status := some (Pitch.givenStatus reason) }
      else holding)
  | .request bytes =>
    match orderFor? keys robot bytes with
    | none => (none, holding)
    | some order => (some (holding.obey order).1, (holding.obey order).2)
  | .tick =>
    (none, { holding with
      pose := holding.pose.map (Pitch.poseAfter publishPeriod holding.velocity) })
  | .setBall _ => (none, holding)
  | .pushRaw _ => (none, holding)
  | .clearReceived => (none, holding)

/-- An event that does not concern the robot leaves what is held about it as it was. -/
theorem happen_of_not_concerns {keys : TeamKeys} {robot : RobotName} {event : Event}
    (holding : Holding) (h : concerns keys robot event = false) :
    (holding.happen keys robot event).2 = holding := by
  cases event with
  | setBall ball => rfl
  | setRobot name pose => exact if_neg (of_decide_eq_false h)
  | setPreempted name reason => exact if_neg (of_decide_eq_false h)
  | pushRaw frame => rfl
  | clearReceived => rfl
  | request bytes =>
    have hnone : orderFor? keys robot bytes = none :=
      Option.isNone_iff_eq_none.1 (Option.isSome_eq_false_iff.1 h)
    rw [happen, hnone]
  | tick => cases h

end Holding

/-- The order that concerns a robot is the one in the bytes, when it is for the robot. -/
theorem orderFor?_eq_some_iff {keys : TeamKeys} {robot : RobotName} {bytes : Bytes}
    {order : Order} :
    orderFor? keys robot bytes = some order ↔
      Reader.whole readOrder bytes = .ok order ∧ order.For keys robot := by
  rw [orderFor?]
  cases Reader.whole readOrder bytes with
  | error fault =>
    constructor
    · intro h
      cases h
    · rintro ⟨hread, -⟩
      cases hread
  | ok found =>
    dsimp only
    constructor
    · intro h
      obtain ⟨⟨hname, hkey⟩, heq⟩ := Option.ite_none_right_eq_some.1 h
      cases heq
      obtain ⟨hplays, hteam, hnumber⟩ := Order.ofText?_robotText_eq_some_iff.1 hname
      exact ⟨rfl, hplays, hteam, hnumber, hkey⟩
    · rintro ⟨hread, hfor⟩
      cases hread
      have hname := Order.ofText?_robotText_eq_some_iff.2
        ⟨hfor.plays, hfor.team, hfor.number⟩
      exact if_pos ⟨hname, hfor.key⟩

/-- A request that does not concern a robot changes nothing that is held about it. -/
theorem holding_answer_of_none {controller : Controller} {robot : RobotName} {bytes : Bytes}
    (h : orderFor? controller.keys robot bytes = none) :
    (controller.answer bytes).2.holding robot = controller.holding robot := by
  rcases controller.answer_effect bytes with ⟨-, hsame⟩ | hcarried
  · rw [hsame]
  · obtain ⟨order, other, velocity, hread, hfor, -, hanswer⟩ := hcarried
    have hother : robot.text ≠ other.text := by
      intro htext
      have hsame := RobotName.text_injective htext
      rw [orderFor?_eq_some_iff.2 ⟨hread, hsame ▸ hfor⟩] at h
      cases h
    obtain ⟨hpacket, -, hothers⟩ := drive_frame controller.pitch other velocity
    rw [hanswer]
    unfold holding Pitch.robotPose?
    dsimp only
    rw [hpacket, hothers robot.text hother]

/-- A request that concerns a robot is answered from what is held about the robot. -/
theorem answer_of_some {controller : Controller} {robot : RobotName} {bytes : Bytes}
    {order : Order} (h : orderFor? controller.keys robot bytes = some order) :
    (controller.answer bytes).1 = ((controller.holding robot).obey order).1 ∧
      (controller.answer bytes).2.holding robot = ((controller.holding robot).obey order).2 := by
  obtain ⟨hread, hfor⟩ := orderFor?_eq_some_iff.1 h
  have hstatus : (controller.holding robot).status.filter (·.preempted) =
      preemption? controller.pitch robot := rfl
  rw [answer, hread]
  dsimp only
  rw [hfor.obey_eq, Holding.obey, hstatus]
  cases preemption? controller.pitch robot with
  | some status => exact ⟨rfl, rfl⟩
  | none =>
    cases ordered? order.command with
    | none => exact ⟨rfl, rfl⟩
    | some velocity =>
      cases velocity with
      | none => exact ⟨rfl, rfl⟩
      | some velocity =>
        refine ⟨rfl, ?_⟩
        unfold holding drive Pitch.setVelocity
        dsimp only
        rw [Dict.get?_insert, if_pos rfl]
        rfl

/-- What an event does to what is held about a robot is said by the machine of the robot. -/
theorem holding_happen (controller : Controller) (robot : RobotName) (event : Event) :
    (controller.happen event).2.holding robot =
      ((controller.holding robot).happen controller.keys robot event).2 := by
  cases event with
  | setBall ball => rfl
  | pushRaw frame => rfl
  | clearReceived => rfl
  | setRobot name pose =>
    rw [holding, Pitch.robotPose?, happen, onPitch, Pitch.setRobot]
    dsimp only
    rw [Dict.get?_insert, Dict.get?_erase, Holding.happen]
    by_cases hname : name = robot
    · rw [hname, if_pos rfl, if_pos rfl, if_pos rfl]
      rfl
    · have htext : name.text ≠ robot.text := fun heq => hname (RobotName.text_injective heq)
      rw [if_neg htext, if_neg htext, if_neg hname]
      rfl
  | setPreempted name reason =>
    rw [holding, happen, onPitch]
    dsimp only
    rw [Pitch.robotStatus?_setPreempted, Holding.happen]
    by_cases hname : name = robot
    · rw [if_pos hname, if_pos hname]
      rfl
    · rw [if_neg hname, if_neg hname]
      rfl
  | request bytes =>
    change (controller.answer bytes).2.holding robot = _
    rw [Holding.happen]
    cases horder : orderFor? controller.keys robot bytes with
    | none => exact holding_answer_of_none horder
    | some order => exact (answer_of_some horder).2
  | tick =>
    rw [holding, Pitch.robotPose?, happen, tick]
    dsimp only
    rw [Pitch.get?_markers_advance]
    rfl

/-- The reply to a request that concerns a robot is given by the machine of the robot. -/
theorem reply_happen {controller : Controller} {robot : RobotName} {event : Event}
    (h : concerns controller.keys robot event = true) :
    (controller.happen event).1.reply =
      ((controller.holding robot).happen controller.keys robot event).1 := by
  cases event with
  | setBall ball => rfl
  | pushRaw frame => rfl
  | clearReceived => rfl
  | setRobot name pose => rfl
  | setPreempted name reason => rfl
  | request bytes =>
    obtain ⟨order, horder⟩ := Option.isSome_iff_exists.1 h
    change some (controller.answer bytes).1 = _
    rw [Holding.happen, horder, (answer_of_some horder).1]
  | tick => rfl

/-- The keys of a controller never change. -/
theorem keys_happen (controller : Controller) (event : Event) :
    (controller.happen event).2.keys = controller.keys := by
  cases event with
  | setBall ball => rfl
  | pushRaw frame => rfl
  | clearReceived => rfl
  | setRobot name pose => rfl
  | setPreempted name reason => rfl
  | request bytes =>
    change (controller.answer bytes).2.keys = controller.keys
    rcases controller.answer_effect bytes with ⟨-, hsame⟩ | hcarried
    · rw [hsame]
    · obtain ⟨order, other, velocity, -, -, -, hanswer⟩ := hcarried
      rw [hanswer]
  | tick => rfl

end Controller

end RobotSoccer
