import RobotSoccer.Proofs.Controller.Ways
import RobotSoccer.Proofs.Link.RoundTrip
import RobotSoccer.Session.Client

/-!
# What requests come to

The law of commands from end to end: a client encodes a command, the controller answers the
bytes, and the client decodes the reply. And for all bytes that may come in, not only those of
a client: what an answer leaves untouched.
-/

namespace RobotSoccer

namespace Command

/-- The number that the controller keeps of an argument: zero in place of one that is not
finite. -/
def kept (x : Float) : Float := if x.isFinite then x else 0.0

/-- The velocity that the controller keeps of a command: none for a kick. -/
def keptVelocity : Command → Option (Velocity Float)
  | control v => some ⟨kept v.forward, kept v.left, kept v.turn⟩
  | kick _ => none

/-- An argument that came over the link counts as the number that was kept of it. -/
theorem argument_ofFloat (x : Float) : Controller.argument (Json.ofFloat x) = kept x := by
  rw [Json.ofFloat, kept]
  cases x.isFinite with
  | true => rfl
  | false => rfl

/-- The controller knows every command of a client, and orders the velocity kept of it. -/
theorem ordered?_items (command : Command) :
    Controller.ordered? command.items = some command.keptVelocity := by
  cases command with
  | control v =>
    rw [items, Controller.ordered?, if_pos rfl]
    simp only [argument_ofFloat, keptVelocity]
  | kick power => rfl

end Command

namespace Controller

/-- A command from end to end: what the client makes of the reply to its request, and the
controller after it. -/
def exchange (controller : Controller) (key : String) (robot : RobotName) (command : Command) :
    Except CommandError Outcome × Controller :=
  let answered := Server.simulated.answer controller (Request.encode key robot command)
  (Reply.decode answered.1, answered.2)

/-- The controller obeys the order that the client encoded. -/
theorem exchange_eq (controller : Controller) (key : String) (robot : RobotName)
    (command : Command) :
    controller.exchange key robot command =
      (Reply.decode (controller.obey (Request.order key robot command)).1.toBytes,
        (controller.obey (Request.order key robot command)).2) := by
  have hanswer : controller.answer (Request.encode key robot command) =
      controller.obey (Request.order key robot command) := by
    rw [answer, Request.readOrder_encode]
  rw [exchange, Server.simulated]
  dsimp only
  rw [hanswer]

/-- The order of a client is for its robot when the robot plays and the key is right. -/
theorem order_for {keys : TeamKeys} {key : String} {robot : RobotName} (command : Command)
    (hplays : robot ∈ RobotName.all) (hkey : keys.of robot.team = key) :
    (Request.order key robot command).For keys robot :=
  ⟨hplays, rfl, rfl, hkey⟩

/-- What keeps commands for a robot from being carried out is a status that says preempted. -/
theorem preemption?_eq_some_iff {pitch : Pitch} {robot : RobotName} {status : RobotStatus} :
    preemption? pitch robot = some status ↔
      pitch.packet.robotStatus? robot.team.text robot.number = some status ∧
        status.preempted = true := Option.filter_eq_some_iff

/-- A command for a robot that plays and is not preempted, with the right key, is carried out as it is
read. -/
theorem answer_encode {controller : Controller} {key : String} {robot : RobotName} (command : Command)
    (hplays : robot ∈ RobotName.all) (hkey : controller.keys.of robot.team = key)
    (hfree : preemption? controller.pitch robot = none) :
    controller.answer (Request.encode key robot command) = (applied, { controller with
      pitch := drive controller.pitch robot command.reread.keptVelocity
      received := controller.received ++ [⟨robot, command.reread.items⟩] }) := by
  have hcommand : ordered? (Request.order key robot command).command =
      some command.reread.keptVelocity := command.reread.ordered?_items
  rw [answer, Request.readOrder_encode]
  dsimp only
  rw [(order_for command hplays hkey).obey_eq, hfree]
  dsimp only
  rw [hcommand]
  rfl

/-- With the right key a robot that plays and is not preempted does what it is asked. -/
theorem exchange_of_free {controller : Controller} {key : String} {robot : RobotName}
    (command : Command) (hplays : robot ∈ RobotName.all) (hkey : controller.keys.of robot.team = key)
    (hfree : preemption? controller.pitch robot = none) :
    controller.exchange key robot command = (.ok .applied, { controller with
      pitch := drive controller.pitch robot command.reread.keptVelocity
      received := controller.received ++ [⟨robot, command.reread.items⟩] }) := by
  rw [exchange, Server.simulated]
  dsimp only
  rw [answer_encode command hplays hkey hfree, Reply.decode_applied]

/-- Every answer is all or nothing, whatever bytes come in. Without agreement the controller is
as it was. With it, the bytes hold an order for a robot on the field that carries the key of its
team; the order is noted behind the others, and nothing else changes but the velocity of that
robot. -/
theorem answer_atomic (controller : Controller) (bytes : Bytes) :
    ((controller.answer bytes).1 ≠ applied → (controller.answer bytes).2 = controller) ∧
    ((controller.answer bytes).1 = applied →
      ∃ order robot, Reader.whole readOrder bytes = .ok order ∧
        order.For controller.keys robot ∧
        (controller.answer bytes).2.received =
          controller.received ++ [⟨robot, order.command⟩] ∧
        (controller.answer bytes).2.keys = controller.keys ∧
        (controller.answer bytes).2.pitch.packet = controller.pitch.packet ∧
        (controller.answer bytes).2.pitch.rawFrames = controller.pitch.rawFrames ∧
        ∀ key, key ≠ robot.text →
          (controller.answer bytes).2.pitch.velocities.get? key =
            controller.pitch.velocities.get? key) := by
  rcases controller.answer_effect bytes with ⟨hrefused, hsame⟩ | hcarried
  · exact ⟨fun _ => hsame, fun happlied => absurd happlied hrefused⟩
  · obtain ⟨order, robot, velocity, hread, hfor, -, hanswer⟩ := hcarried
    obtain ⟨hpacket, hraw, hothers⟩ := drive_frame controller.pitch robot velocity
    rw [hanswer]
    refine ⟨fun hrefused => absurd rfl hrefused, fun _ => ?_⟩
    exact ⟨order, robot, hread, hfor, rfl, rfl, hpacket, hraw, hothers⟩

end Controller

end RobotSoccer
