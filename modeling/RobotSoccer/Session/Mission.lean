import RobotSoccer.Session.Link
import RobotSoccer.Session.Pilot

/-!
# Missions

A mission is the control task over a shared link, from one point where it waits to the next. Between
two of them anything may happen: exchanges go on, frames come in, the loop is told to stop. When the
loop is over the robots are stopped one after the other, unless it broke off on the spot.
-/

namespace RobotSoccer

/-- Where a mission stands. -/
inductive Place where
  /-- The loop waits for the next period, or for news. -/
  | pausing
  /-- The loop has these orders left to carry out. -/
  | carrying (orders : List GotoOrder)
  /-- The loop waits for the outcome of a call that brings the robot of an order closer, or finds it
  there. -/
  | stepping (id : Nat) (arrived : Bool) (order : GotoOrder) (more : List GotoOrder)
  /-- The loop rests before the next step of an order. -/
  | resting (order : GotoOrder) (more : List GotoOrder)
  /-- The loop waits for the outcome of a call that stops a robot where its order brought it. -/
  | arriving (id : Nat) (order : GotoOrder) (more : List GotoOrder)
  /-- The loop is over, and these robots are left to be stopped. -/
  | closing (robots : List RobotName) (result : Except SessionError Unit)
  /-- The loop is over, and the outcome of a stop is waited for. -/
  | stopping (id : Nat) (robots : List RobotName) (result : Except SessionError Unit)
  /-- The mission has come to its end. -/
  | ended (result : Except SessionError Unit)
  /-- The mission broke off at a robot that does not play. -/
  | crashed (name : RobotName)

/-- The call whose outcome is waited for. -/
def Place.awaited : Place → Option Nat
  | stepping id _ _ _ | arriving id _ _ | stopping id _ _ => some id
  | pausing | carrying _ | resting _ _ | closing _ _ | ended _ | crashed _ => none

/-- A control task over a shared link. -/
structure Mission (σ μ : Type) where
  /-- What the loop changes. What comes in is not foreseen. -/
  stage : Stage (Link σ) μ
  /-- Where the task stands. -/
  place : Place

namespace Mission

variable {σ μ : Type}

/-- What happens during a mission. -/
inductive Act (σ : Type) where
  /-- Some work is done on the link. -/
  | work (work : Link.Work σ)
  /-- A frame is published. -/
  | frame (bytes : Bytes)
  /-- The stream of frames ends. -/
  | lose
  /-- The task goes on; this is the time since the step before. -/
  | go (time : Duration)
  /-- The loop is told to stop. -/
  | stop

/-- A mission about to start. -/
def start (stage : Stage (Link σ) μ) : Mission σ μ := ⟨stage, .pausing⟩

/-- The link. -/
def link (mission : Mission σ μ) : Link σ := mission.stage.client.far

/-- The client becomes another one. -/
def setClient (mission : Mission σ μ) (client : Client (Link σ)) : Mission σ μ :=
  { mission with stage := { mission.stage with client := client } }

/-- The link becomes another one. -/
def setLink (mission : Mission σ μ) (link : Link σ) : Mission σ μ :=
  mission.setClient { mission.stage.client with far := link }

/-- Calls for a command and waits for its outcome. -/
def call (mission : Mission σ μ) (robot : RobotName) (command : Command) (place : Nat → Place) :
    Mission σ μ :=
  { mission.setLink (mission.link.call robot command) with place := place mission.link.calls.length }

/-- The outcome of a call, when it is there, with the mission that was told it. -/
def take (mission : Mission σ μ) (id : Nat) : Option (Except CommandError Outcome × Mission σ μ) :=
  match mission.link.calls[id]?, mission.link.take id with
  | some call, some (outcome, link) =>
    some (outcome, mission.setClient { mission.stage.client with
      far := link
      exchanges := mission.stage.client.exchanges ++ [⟨call.robot, call.command, outcome⟩] })
  | _, _ => none

/-- The loop is over. Its drawings are dropped. -/
def halt (mission : Mission σ μ) : Halt → Mission σ μ
  | .stranger name => ⟨mission.stage.release, .crashed name⟩
  | .error cause => ⟨mission.stage.release, .closing RobotName.all (.error cause)⟩
  | .stopped => ⟨mission.stage.release, .closing RobotName.all (.ok ())⟩

/-- Begins a step. -/
def begin (strategy : Strategy μ) (time : Duration) (mission : Mission σ μ) : Mission σ μ :=
  let (orders, stage) := mission.stage.begin strategy time
  ⟨stage, .carrying orders⟩

/-- Calls for the next step of an order, if its robot can be looked up and was seen. -/
def advance (mission : Mission σ μ) (order : GotoOrder) (more : List GotoOrder) : Mission σ μ :=
  match mission.stage.client.world.stepTo order.robot order.target with
  | .error halt => mission.halt halt
  | .ok step =>
    mission.call order.robot (.control step.velocity) fun id =>
      .stepping id step.arrived order more

/-- An order was carried out. -/
def fulfil (mission : Mission σ μ) (order : GotoOrder) (more : List GotoOrder) : Mission σ μ :=
  ⟨mission.stage.drawTarget order, .carrying more⟩

/-- A step of an order has an outcome. -/
def stepped (mission : Mission σ μ) (arrived : Bool) (order : GotoOrder) (more : List GotoOrder) :
    Except CommandError Outcome → Mission σ μ
  | .error cause => mission.halt (.error (.command order.robot cause))
  | .ok _ =>
    if order.wait then
      if arrived then mission.call order.robot .stop fun id => .arriving id order more
      else { mission with place := .resting order more }
    else mission.fulfil order more

/-- The stop at the end of an order has an outcome. -/
def arrived (mission : Mission σ μ) (order : GotoOrder) (more : List GotoOrder) :
    Except CommandError Outcome → Mission σ μ
  | .error cause => mission.halt (.error (.command order.robot cause))
  | .ok _ => mission.fulfil order more

/-- The task goes on, when what it waits for is there. -/
def go (strategy : Strategy μ) (pace : Stage.Pace) (time : Duration) (mission : Mission σ μ) :
    Option (Mission σ μ) :=
  match mission.place with
  | .pausing =>
    match pace with
    | .polling => some (mission.begin strategy time)
    | .onUpdate =>
      match mission.stage.client.nextUpdate with
      | (.fresh, client) => some ((mission.setClient client).begin strategy time)
      | (.ended, client) => some ((mission.setClient client).halt (.error .disconnected))
      | (.pending, _) => none
  | .carrying [] =>
    match mission.stage.showWatched strategy with
    | (.error halt, stage) => some (Mission.halt ⟨stage, mission.place⟩ halt)
    | (.ok (), stage) => some ⟨stage, .pausing⟩
  | .carrying (order :: more) => some (mission.advance order more)
  | .stepping id arrived order more =>
    (mission.take id).map fun taken => taken.2.stepped arrived order more taken.1
  | .resting order more => some { mission with place := .carrying (order :: more) }
  | .arriving id order more =>
    (mission.take id).map fun taken => taken.2.arrived order more taken.1
  | .closing [] result =>
    some { mission.setClient { mission.stage.client with closed := true } with
      place := .ended result }
  | .closing (robot :: more) result =>
    some (mission.call robot .stop fun id => .stopping id more result)
  | .stopping id more result =>
    (mission.take id).map fun taken => { taken.2 with place := .closing more result }
  | .ended _ | .crashed _ => none

/-- The loop is told to stop. A call whose outcome it waits for is left to itself. -/
def stop (mission : Mission σ μ) : Option (Mission σ μ) :=
  match mission.place with
  | .pausing | .carrying _ | .resting _ _ => some (mission.halt .stopped)
  | .stepping id _ _ _ | .arriving id _ _ =>
    (mission.link.leave id).map fun link => (mission.setLink link).halt .stopped
  | .closing _ _ | .stopping _ _ _ | .ended _ | .crashed _ => none

/-- Something happens during a mission, when it can. -/
def happen (peer : Peer σ) (strategy : Strategy μ) (pace : Stage.Pace) (mission : Mission σ μ) :
    Act σ → Option (Mission σ μ)
  | .work work => (mission.link.perform peer work).map mission.setLink
  | .frame bytes => some (mission.setClient (mission.stage.client.receive bytes))
  | .lose => some (mission.setClient { mission.stage.client with closed := true })
  | .go time => mission.go strategy pace time
  | .stop => mission.stop

/-- Things happen during a mission one after the other. -/
def run (peer : Peer σ) (strategy : Strategy μ) (pace : Stage.Pace) :
    Mission σ μ → List (Act σ) → Option (Mission σ μ)
  | mission, [] => some mission
  | mission, act :: more =>
    (mission.happen peer strategy pace act).bind fun next => run peer strategy pace next more

/-- A run may be cut in two anywhere. -/
theorem run_append (peer : Peer σ) (strategy : Strategy μ) (pace : Stage.Pace)
    (mission : Mission σ μ) (before after : List (Act σ)) :
    mission.run peer strategy pace (before ++ after) =
      (mission.run peer strategy pace before).bind fun next => next.run peer strategy pace after := by
  induction before generalizing mission with
  | nil => rfl
  | cons act more ih => simp only [List.cons_append, run, ih, Option.bind_assoc]

/-- What every act keeps, a run keeps. -/
theorem run_keeps {peer : Peer σ} {strategy : Strategy μ} {pace : Stage.Pace}
    (kept : Mission σ μ → Prop)
    (hstep : ∀ mission act next, mission.happen peer strategy pace act = some next →
      kept mission → kept next)
    {mission later : Mission σ μ} {acts : List (Act σ)}
    (hrun : mission.run peer strategy pace acts = some later) (hstart : kept mission) :
    kept later := by
  induction acts generalizing mission with
  | nil => exact Option.some.inj hrun ▸ hstart
  | cons act more ih =>
    obtain ⟨next, hnext, hmore⟩ := Option.bind_eq_some_iff.1 hrun
    exact ih hmore (hstep mission act next hnext hstart)

end Mission

end RobotSoccer
