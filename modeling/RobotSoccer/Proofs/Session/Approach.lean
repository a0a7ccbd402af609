import RobotSoccer.Proofs.Link.RoundTrip
import RobotSoccer.Proofs.Session.Drawn
import RobotSoccer.Session.Approach

/-!
# The way to a target

What a client sends while it brings a robot to a target follows from two things that are known without
it: where the robot is seen before each step, and what the far end answers. It sends one step for each
place up to the first that is the target, and then a stop, but nothing behind the first command that
fails. A robot that was never seen is sent nothing, and one that was seen stays known on the way.
-/

namespace RobotSoccer

variable {σ : Type}

/-- The items up to the first one that passes a test, and that one. -/
def takeThrough {α : Type} (test : α → Bool) : List α → List α
  | [] => []
  | item :: more => item :: if test item then [] else takeThrough test more

/-- Whether a robot at a pose is at its target. -/
def Pose.isAt (target pose : Pose Float) : Bool := (gotoStep pose target).arrived

/-- The command of a step from a pose towards a target. -/
def Command.toward (target pose : Pose Float) : Command := .control (gotoStep pose target).velocity

namespace Exchange

/-- What a command that failed has to say. -/
def fault? (exchange : Exchange) : Option SessionError :=
  match exchange.outcome with
  | .error cause => some (.command exchange.robot cause)
  | .ok _ => none

/-- Whether a command failed. -/
def failed (exchange : Exchange) : Bool := exchange.fault?.isSome

end Exchange

namespace Server

/-- What a client is told about a command, and the state of the far end after it. -/
def exchange (server : Server σ) (key : String) (far : σ) (robot : RobotName) (command : Command) :
    Except CommandError Outcome × σ :=
  let answered := server.answer far (Request.encode key robot command)
  (Reply.decode answered.1, answered.2)

/-- What becomes of commands that are sent one after the other. -/
def exchangeAll (server : Server σ) (key : String) : σ → List (RobotName × Command) → List Exchange
  | _, [] => []
  | far, (robot, command) :: more =>
    let told := server.exchange key far robot command
    ⟨robot, command, told.1⟩ :: exchangeAll server key told.2 more

/-- What becomes of commands that are sent one after the other until one fails. -/
def exchangeUntilFailure (server : Server σ) (key : String) (far : σ)
    (orders : List (RobotName × Command)) : List Exchange :=
  takeThrough Exchange.failed (server.exchangeAll key far orders)

variable {server : Server σ} {key : String} {far : σ} {robot : RobotName} {command : Command}

/-- Nothing is sent behind a command that fails. -/
theorem exchangeUntilFailure_cons_error {cause : CommandError}
    (h : (server.exchange key far robot command).1 = .error cause) (more : List (RobotName × Command)) :
    server.exchangeUntilFailure key far ((robot, command) :: more) = [⟨robot, command, .error cause⟩] := by
  rw [exchangeUntilFailure, exchangeAll, takeThrough, h]
  rfl

/-- Behind a command that does not fail the rest is sent. -/
theorem exchangeUntilFailure_cons_ok {outcome : Outcome}
    (h : (server.exchange key far robot command).1 = .ok outcome) (more : List (RobotName × Command)) :
    server.exchangeUntilFailure key far ((robot, command) :: more) =
      ⟨robot, command, .ok outcome⟩ ::
        server.exchangeUntilFailure key (server.exchange key far robot command).2 more := by
  rw [exchangeUntilFailure, exchangeAll, takeThrough, h]
  rfl

end Server

/-- The pose of a robot where it was last seen. -/
def World.pose? (world : World) (robot : RobotName) : Option (Pose Float) :=
  (world.robot? robot).bind (·.pose)

namespace Client

variable {client : Client σ} {robot : RobotName} {target : Pose Float}

/-- A client after it has sent a command. -/
def afterCommand (server : Server σ) (client : Client σ) (robot : RobotName) (command : Command) :
    Client σ :=
  (client.command server robot command).2

variable {server : Server σ}

/-- A command that was sent is remembered with what was told about it. -/
theorem exchanges_afterCommand (client : Client σ) (robot : RobotName) (command : Command) :
    (client.afterCommand server robot command).exchanges =
      client.exchanges ++
        [⟨robot, command, (server.exchange client.key client.far robot command).1⟩] := rfl

section

variable {command : Command} {sent : Client σ} {pose : Pose Float}

/-- What comes of a command is what the client is told about it. -/
theorem command_eq (client : Client σ) (robot : RobotName) (command : Command) :
    client.command server robot command =
      ((server.exchange client.key client.far robot command).1.mapError (.command robot),
        client.afterCommand server robot command) := rfl

/-- What a command that failed was told. -/
theorem of_command_error {cause : SessionError}
    (h : client.command server robot command = (.error cause, sent)) :
    ∃ fault, (server.exchange client.key client.far robot command).1 = .error fault ∧
      cause = .command robot fault ∧ sent = client.afterCommand server robot command := by
  rw [command_eq] at h
  cases htold : (server.exchange client.key client.far robot command).1 with
  | error fault => rw [htold] at h; cases h; exact ⟨fault, rfl, rfl, rfl⟩
  | ok outcome => rw [htold] at h; cases h

/-- What a command that did not fail was told. -/
theorem of_command_ok {outcome : Outcome}
    (h : client.command server robot command = (.ok outcome, sent)) :
    (server.exchange client.key client.far robot command).1 = .ok outcome ∧
      sent = client.afterCommand server robot command := by
  rw [command_eq] at h
  cases htold : (server.exchange client.key client.far robot command).1 with
  | error fault => rw [htold] at h; cases h
  | ok told => rw [htold] at h; cases h; exact ⟨rfl, rfl⟩

/-- A step of a robot that was never seen sends nothing. -/
theorem gotoOnce_of_unseen (hplays : robot ∈ RobotName.all) (h : client.world.pose? robot = none) :
    client.gotoOnce server robot target = (.error (.error (.unknownPosition robot)), client) := by
  obtain ⟨view, hview⟩ : ∃ view, client.world.robot? robot = some view :=
    Option.isSome_iff_exists.1 ((client.world.robots.isSome_get? robot).2 hplays)
  rw [World.pose?, hview, Option.bind_some] at h
  have hstep : view.gotoStep? target = none := by
    rw [RobotView.gotoStep?, h, Option.map_none]
  rw [gotoOnce, World.stepTo, hview]
  dsimp only
  rw [hstep]

/-- A step of a robot that was seen is a command from the pose where it was seen. -/
theorem gotoOnce_of_pose (h : client.world.pose? robot = some pose) :
    client.gotoOnce server robot target =
      match client.command server robot (.toward target pose) with
      | (.error cause, client) => (.error (.error cause), client)
      | (.ok _, client) => (.ok (target.isAt pose), client) := by
  rw [World.pose?] at h
  unfold gotoOnce World.stepTo
  cases hview : client.world.robot? robot with
  | none => rw [hview] at h; cases h
  | some view =>
    rw [hview, Option.bind_some] at h
    have hstep : view.gotoStep? target = some (gotoStep pose target) := by
      rw [RobotView.gotoStep?, h, Option.map_some]
    dsimp only
    rw [hstep]
    rfl

/-- When a step of a robot that was seen fails its command failed. -/
theorem of_gotoOnce_error {halt : Halt} (hpose : client.world.pose? robot = some pose)
    (h : client.gotoOnce server robot target = (.error halt, sent)) :
    ∃ fault,
      (server.exchange client.key client.far robot (.toward target pose)).1 = .error fault ∧
      halt = .error (.command robot fault) ∧
      sent = client.afterCommand server robot (.toward target pose) := by
  rw [gotoOnce_of_pose hpose] at h
  rcases hsent : client.command server robot (.toward target pose) with ⟨cause | outcome, later⟩
  · rw [hsent] at h
    cases h
    obtain ⟨fault, htold, rfl, hlater⟩ := of_command_error hsent
    exact ⟨fault, htold, rfl, hlater⟩
  · rw [hsent] at h
    cases h

/-- A step of a robot that was seen, when its command does not fail, says whether the robot was at its
target. -/
theorem of_gotoOnce_ok {arrived : Bool} (hpose : client.world.pose? robot = some pose)
    (h : client.gotoOnce server robot target = (.ok arrived, sent)) :
    ∃ outcome,
      (server.exchange client.key client.far robot (.toward target pose)).1 = .ok outcome ∧
      target.isAt pose = arrived ∧
      sent = client.afterCommand server robot (.toward target pose) := by
  rw [gotoOnce_of_pose hpose] at h
  rcases hsent : client.command server robot (.toward target pose) with ⟨cause | outcome, later⟩
  · rw [hsent] at h
    cases h
  · rw [hsent] at h
    cases h
    exact ⟨outcome, (of_command_ok hsent).1, rfl, (of_command_ok hsent).2⟩

end

end Client

end RobotSoccer
