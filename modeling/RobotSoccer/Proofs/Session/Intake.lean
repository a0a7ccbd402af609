import RobotSoccer.Proofs.World.Recall
import RobotSoccer.Session.Intake

/-!
# Packets part by part

Applied part by part without interruption a packet does to a client what it does as a whole. No part
of it takes back what was seen before.
-/

namespace RobotSoccer

namespace World

/-- The parts of a packet together are the packet. -/
theorem foldl_receivePart (world : World) (packet : Packet) (now : Instant) :
    Part.all.foldl (fun world part => world.receivePart packet now part) world =
      world.receive packet now := by
  obtain ⟨ball, ⟨blue1, blue2, green1, green2⟩, referee⟩ := world
  rfl

/-- A robot has been seen when its view has a position. -/
theorem hasSeen_robot_iff {world : World} {name : RobotName} :
    world.hasSeen (.robot name) = true ↔
      ∃ view, world.robot? name = some view ∧ view.hasPosition = true :=
  Option.any_eq_true _ _

/-- A world is ready when all that is needed has been seen. -/
theorem isReady_iff_needed (world : World) :
    world.isReady = true ↔ ∀ part ∈ Part.needed, world.hasSeen part = true := by
  rw [isReady_iff, Part.needed, List.forall_mem_cons, List.forall_mem_map]
  simp only [hasSeen_robot_iff]
  rfl

/-- A robot that was seen stays seen when a packet comes in. -/
theorem hasPosition_receive (name : RobotName) (packet : Packet) (now : Instant) {view : RobotView}
    (h : view.hasPosition = true) : (view.receive name packet now).hasPosition = true := by
  unfold RobotView.receive
  dsimp only
  cases packet.markers.get? name.text with
  | none => cases packet.robotStatus? name.team.text name.number <;> exact h
  | some marker => cases packet.robotStatus? name.team.text name.number <;> rfl

/-- What was seen stays seen when a part of a packet comes in. -/
theorem hasSeen_receivePart {world : World} {part : Part} (h : world.hasSeen part = true)
    (packet : Packet) (now : Instant) (other : Part) :
    (world.receivePart packet now other).hasSeen part = true := by
  cases part with
  | ball =>
    cases other with
    | ball =>
      have hball : (packet.ball.or world.ball).isSome = (packet.ball.isSome || world.ball.isSome) :=
        Option.isSome_or
      exact hball.trans (Bool.or_eq_true_iff.2 (.inr h))
    | robot name =>
      unfold receivePart modifyRobot
      dsimp only
      cases world.robot? name <;> exact h
    | referee => exact h
  | robot robot =>
    cases other with
    | ball => exact h
    | robot name =>
      obtain ⟨view, hview, hposition⟩ := hasSeen_robot_iff.1 h
      refine hasSeen_robot_iff.2 ⟨_, by rw [receivePart, robot?_modifyRobot, hview]; rfl, ?_⟩
      dsimp only
      by_cases hname : name = robot
      · rw [if_pos hname]
        exact hasPosition_receive name packet now hposition
      · rwa [if_neg hname]
    | referee => exact h
  | referee => rfl

end World

/-- A frame behind the end of the stream is not taken in. -/
theorem Client.receive_of_closed {σ : Type} {client : Client σ} (h : client.closed = true) (frame : Bytes) :
    client.receive frame = client := by
  rw [receive, h, if_pos rfl]

namespace Intake

variable {σ : Type} {client : Client σ} {intake : Intake}

/-- All that the task can do: it waits and begins a packet or skips a frame, applies the next part of
a packet, announces a packet that was applied, or comes to the end of the stream. -/
inductive Move (client : Client σ) : Act → Intake → Client σ × Intake → Prop
  /-- A packet begins. -/
  | begin {bytes : Bytes} {packet : Packet} (now : Instant) (hopen : client.closed = false)
    (hdecode : Packet.decode bytes = .ok packet) :
    Move client (.frame bytes now) .waiting (client, .applying packet now Part.all)
  /-- A frame that is no packet is skipped. -/
  | skip {bytes : Bytes} {fault : Fault} (now : Instant) (hopen : client.closed = false)
    (hdecode : Packet.decode bytes = .error fault) :
    Move client (.frame bytes now) .waiting (client, .waiting)
  /-- A part is applied. -/
  | apply (packet : Packet) (now : Instant) (part : Part) (more : List Part) :
    Move client .proceed (.applying packet now (part :: more))
      ({ client with world := client.world.receivePart packet now part }, .applying packet now more)
  /-- A packet is announced. -/
  | announce (packet : Packet) (now : Instant) :
    Move client .proceed (.applying packet now []) (client.announce, .waiting)
  /-- The stream ends. -/
  | lose : Move client .lose .waiting ({ client with closed := true }, .waiting)

/-- Whatever the task does is one of its moves. -/
theorem move_of_happen {act : Act} {next : Client σ × Intake} (h : intake.happen client act = some next) :
    Move client act intake next := by
  cases act with
  | frame bytes now =>
    cases intake with
    | waiting =>
      unfold happen take at h
      dsimp only at h
      cases hclosed : client.closed with
      | true => rw [hclosed] at h; cases h
      | false =>
        rw [hclosed, if_neg Bool.false_ne_true] at h
        cases hdecode : Packet.decode bytes with
        | error fault => rw [hdecode] at h; cases h; exact .skip now hclosed hdecode
        | ok packet => rw [hdecode] at h; cases h; exact .begin now hclosed hdecode
    | applying packet now parts => cases h
  | proceed =>
    cases intake with
    | waiting => cases h
    | applying packet now parts =>
      cases parts with
      | nil => cases h; exact .announce packet now
      | cons part more => cases h; exact .apply packet now part more
  | lose =>
    cases intake with
    | waiting => cases h; exact .lose
    | applying packet now parts => cases h

/-- A packet begins when it comes in while the stream goes on. -/
theorem happen_of_decode {bytes : Bytes} {packet : Packet} (hopen : client.closed = false)
    (hdecode : Packet.decode bytes = .ok packet) (now : Instant) :
    waiting.happen client (.frame bytes now) = some (client, .applying packet now Part.all) := by
  rw [happen, take, hopen, hdecode]
  rfl

/-- What the task does with a frame from one wait to the next is what the frame does to a client. -/
theorem run_whole (hopen : client.closed = false) (bytes : Bytes) :
    waiting.run client (Act.whole bytes client.updates) = some (client.receive bytes, .waiting) := by
  unfold Act.whole Client.receive World.receiveFrame
  rw [hopen, if_neg Bool.false_ne_true]
  cases hdecode : Packet.decode bytes with
  | error fault =>
    rw [run, happen, take, hopen, hdecode]
    rfl
  | ok packet =>
    rw [run, happen_of_decode hopen hdecode]
    dsimp only [Except.map]
    rw [← World.foldl_receivePart, ← hopen]
    rfl

end Intake

end RobotSoccer
