import RobotSoccer.Session.Intake
import RobotSoccer.Session.Mission

/-!
# The two tasks of a session

The control task plays a strategy while the task that takes frames in applies packets part by part.
The two have the client in common: what the one applies the other sees, and what the one announces is
news for the other. News tell that there was a packet, not how many there were.
-/

namespace RobotSoccer

/-- A strategy that counts how often it was asked for orders. -/
def Strategy.counted {μ : Type} (strategy : Strategy μ) : Strategy (Nat × μ) where
  plan memory seen time :=
    let (orders, next) := strategy.plan memory.2 seen time
    (orders, memory.1 + 1, next)
  watched memory := strategy.watched memory.2

/-- A stage on which the strategy was not asked for orders yet. -/
def Stage.counted {σ μ : Type} (stage : Stage σ μ) : Stage σ (Nat × μ) :=
  { stage with memory := (0, stage.memory) }

/-- A stage without the count of the questions to the strategy. -/
def Stage.uncounted {σ μ : Type} (stage : Stage σ (Nat × μ)) : Stage σ μ :=
  { stage with memory := stage.memory.2 }

/-- A control task without the count of the questions to the strategy. -/
def Mission.uncounted {σ μ : Type} (mission : Mission σ (Nat × μ)) : Mission σ μ :=
  { mission with stage := mission.stage.uncounted }

/-- The control task and the task that takes frames in. -/
structure Tasks (σ μ : Type) where
  /-- The control task. -/
  mission : Mission σ μ
  /-- The task that takes frames in. -/
  intake : Intake

namespace Tasks

variable {σ μ : Type}

/-- What happens in a session with two tasks. -/
inductive Act (σ : Type) where
  /-- The task that takes frames in does something. -/
  | intake (act : Intake.Act)
  /-- Some work is done on the link. -/
  | work (work : Link.Work σ)
  /-- The control task goes on; this is the time since the step before. -/
  | go (time : Duration)
  /-- The loop is told to stop. -/
  | stop

/-- Whether a packet comes in. -/
def Act.isPacket : Act σ → Bool
  | .intake act => act.isPacket
  | .work _ | .go _ | .stop => false

/-- A control task about to start. The task that takes frames in is about something already. -/
def start (stage : Stage (Link σ) μ) (intake : Intake) : Tasks σ μ := ⟨.start stage, intake⟩

/-- The tasks without the count of the questions to the strategy. -/
def uncounted (tasks : Tasks σ (Nat × μ)) : Tasks σ μ := ⟨tasks.mission.uncounted, tasks.intake⟩

/-- The client. -/
def client (tasks : Tasks σ μ) : Client (Link σ) := tasks.mission.stage.client

/-- The control task becomes another one. -/
def setMission (tasks : Tasks σ μ) (mission : Mission σ μ) : Tasks σ μ :=
  { tasks with mission := mission }

/-- Something happens, when it can. -/
def happen (peer : Peer σ) (strategy : Strategy μ) (pace : Stage.Pace) (tasks : Tasks σ μ) :
    Act σ → Option (Tasks σ μ)
  | .intake act =>
    (tasks.intake.happen tasks.client act).map fun next => ⟨tasks.mission.setClient next.1, next.2⟩
  | .work work => (tasks.mission.happen peer strategy pace (.work work)).map tasks.setMission
  | .go time => (tasks.mission.happen peer strategy pace (.go time)).map tasks.setMission
  | .stop => (tasks.mission.happen peer strategy pace .stop).map tasks.setMission

/-- Things happen one after the other. -/
def run (peer : Peer σ) (strategy : Strategy μ) (pace : Stage.Pace) :
    Tasks σ μ → List (Act σ) → Option (Tasks σ μ)
  | tasks, [] => some tasks
  | tasks, act :: more =>
    (tasks.happen peer strategy pace act).bind fun next => run peer strategy pace next more

/-- A run may be cut in two anywhere. -/
theorem run_append (peer : Peer σ) (strategy : Strategy μ) (pace : Stage.Pace) (tasks : Tasks σ μ)
    (before after : List (Act σ)) :
    tasks.run peer strategy pace (before ++ after) =
      (tasks.run peer strategy pace before).bind fun next => next.run peer strategy pace after := by
  induction before generalizing tasks with
  | nil => rfl
  | cons act more ih => simp only [List.cons_append, run, ih, Option.bind_assoc]

/-- Whether between two moments a packet is announced while the one before was not looked at. -/
def overtakes (tasks next : Tasks σ μ) : Bool :=
  tasks.client.unseen && decide (tasks.client.updates < next.client.updates)

/-- The count of packets that are announced while the one before was not looked at. -/
def overtaken (peer : Peer σ) (strategy : Strategy μ) (pace : Stage.Pace) :
    Tasks σ μ → List (Act σ) → Nat
  | _, [] => 0
  | tasks, act :: more =>
    match tasks.happen peer strategy pace act with
    | none => 0
    | some next => (tasks.overtakes next).toNat + overtaken peer strategy pace next more

/-- The control task waits for news and there are none. -/
def Idle (tasks : Tasks σ μ) : Prop := tasks.mission.place = .pausing ∧ tasks.client.unseen = false

end Tasks

end RobotSoccer
