import RobotSoccer.Drawing.Pool
import RobotSoccer.Session.Client
import RobotSoccer.Strategy

/-!
# Playing a strategy

The control loop: it reads the world, draws it, carries out the orders of a strategy, and shows
a line about the robot that is watched. The loop goes on until something halts it; then the
session is closed, unless the loop broke off on the spot.
-/

namespace RobotSoccer

/-- The guards of what a control loop draws. -/
structure Drawings where
  /-- The guard of the ball. -/
  ball : Option GuardId
  /-- The guards of the robots. -/
  robots : Roster (Option GuardId)
  /-- The guards of the targets. -/
  targets : Roster (Option GuardId)

namespace Drawings

/-- Nothing is drawn yet. -/
def blank : Drawings := ⟨none, .fill none, .fill none⟩

/-- All guards. -/
def guards (drawings : Drawings) : List GuardId :=
  drawings.ball.toList ++ drawings.robots.toList.filterMap (·.2) ++
    drawings.targets.toList.filterMap (·.2)

/-- Draws a shape under a guard, which is a new one where there was none. -/
def draw (pool : Pool) (shape : Drawable) : Option GuardId → GuardId × Pool
  | some id => (id, pool.update id shape)
  | none => pool.start shape

/-- Draws the ball. -/
def drawBall (drawings : Drawings) (pool : Pool) (shape : Drawable) : Drawings × Pool :=
  let drawn := draw pool shape drawings.ball
  ({ drawings with ball := some drawn.1 }, drawn.2)

/-- Draws a robot. -/
def drawRobot (drawings : Drawings) (pool : Pool) (name : RobotName) (shape : Drawable) :
    Drawings × Pool :=
  let drawn := draw pool shape ((drawings.robots.get? name).getD none)
  ({ drawings with robots := drawings.robots.set name (some drawn.1) }, drawn.2)

/-- Draws the target of a robot. -/
def drawTarget (drawings : Drawings) (pool : Pool) (name : RobotName) (shape : Drawable) :
    Drawings × Pool :=
  let drawn := draw pool shape ((drawings.targets.get? name).getD none)
  ({ drawings with targets := drawings.targets.set name (some drawn.1) }, drawn.2)

end Drawings

/-- Everything that a control loop changes, with memories of a strategy in `μ`. -/
structure Stage (σ μ : Type) where
  /-- The client. -/
  client : Client σ
  /-- What the strategy remembers. -/
  memory : μ
  /-- What is drawn. -/
  pool : Pool
  /-- The guards of the loop. -/
  drawings : Drawings
  /-- The lines shown so far. -/
  printed : List String
  /-- What will come in during the periods to come; after the last of them the loop is told to
  stop. -/
  arrivals : Client.Arrivals

namespace Stage

variable {σ μ : Type}

/-- A loop about to start. -/
def fresh (client : Client σ) (memory : μ) (pool : Pool) (arrivals : Client.Arrivals) :
    Stage σ μ := ⟨client, memory, pool, .blank, [], arrivals⟩

/-- Draws the ball when it is known. -/
def drawBall (stage : Stage σ μ) : Stage σ μ :=
  match stage.client.world.ball with
  | none => stage
  | some position =>
    let drawn := stage.drawings.drawBall stage.pool (.ball position)
    { stage with drawings := drawn.1, pool := drawn.2 }

/-- Draws a robot at a pose, preempted or not. -/
def drawRobotAt (stage : Stage σ μ) (name : RobotName) (pose : Pose Float) (preempted : Bool) :
    Stage σ μ :=
  let shape := Drawable.robot name.text name.team pose preempted
  let drawn := stage.drawings.drawRobot stage.pool name shape
  { stage with drawings := drawn.1, pool := drawn.2 }

/-- Draws a robot when it has been seen. -/
def drawRobot (stage : Stage σ μ) (entry : RobotName × RobotView) : Stage σ μ :=
  match entry.2.pose with
  | none => stage
  | some pose => stage.drawRobotAt entry.1 pose entry.2.status.preempted

/-- Draws what is seen. -/
def drawSeen (stage : Stage σ μ) : Stage σ μ :=
  stage.client.world.robots.toList.foldl drawRobot stage.drawBall

/-- Asks the strategy for its orders. -/
def ask (strategy : Strategy μ) (seen : Snapshot) (time : Duration) (stage : Stage σ μ) :
    List GotoOrder × Stage σ μ :=
  let (orders, memory) := strategy.plan stage.memory seen time
  (orders, { stage with memory := memory })

/-- Begins a step: what is seen is drawn, and the strategy gives its orders for it. -/
def begin (strategy : Strategy μ) (time : Duration) (stage : Stage σ μ) :
    List GotoOrder × Stage σ μ :=
  stage.drawSeen.ask strategy stage.client.world.snapshot time

/-- Draws the target of an order. -/
def drawTarget (stage : Stage σ μ) (order : GotoOrder) : Stage σ μ :=
  let shape := Drawable.target order.robot.text order.target
  let drawn := stage.drawings.drawTarget stage.pool order.robot shape
  { stage with drawings := drawn.1, pool := drawn.2 }

/-- Sends the robot of an order on its way. -/
def goTo (server : Server σ) (stage : Stage σ μ) (order : GotoOrder) :
    Except Halt Unit × Stage σ μ :=
  if order.wait then
    let (result, client, arrivals) :=
      Client.gotoWait server order.robot order.target stage.arrivals stage.client
    (result, { stage with client := client, arrivals := arrivals })
  else
    let (result, client) := stage.client.gotoOnce server order.robot order.target
    (result.map fun _ => (), { stage with client := client })

/-- Carries out an order; its target is drawn unless it fails. -/
def fulfil (server : Server σ) (stage : Stage σ μ) (order : GotoOrder) :
    Except Halt Unit × Stage σ μ :=
  match stage.goTo server order with
  | (.error halt, stage) => (.error halt, stage)
  | (.ok (), stage) => (.ok (), stage.drawTarget order)

/-- Carries out orders until one fails. -/
def carryOut (server : Server σ) : List GotoOrder → Stage σ μ → Except Halt Unit × Stage σ μ
  | [], stage => (.ok (), stage)
  | order :: more, stage =>
    match stage.fulfil server order with
    | (.error halt, stage) => (.error halt, stage)
    | (.ok (), stage) => carryOut server more stage

/-- Shows the line about the watched robot. -/
def showWatched (strategy : Strategy μ) (stage : Stage σ μ) : Except Halt Unit × Stage σ μ :=
  let name := strategy.watched stage.memory
  match stage.client.world.robot? name with
  | none => (.error (.stranger name), stage)
  | some view =>
    (.ok (), { stage with
      printed := stage.printed ++ [stateLine stage.client.world.ball name view] })

/-- Ends a step: the line is shown when none of its orders failed. -/
def conclude (strategy : Strategy μ) : Except Halt Unit × Stage σ μ → Except Halt Unit × Stage σ μ
  | (.error halt, stage) => (.error halt, stage)
  | (.ok (), stage) => stage.showWatched strategy

/-- One step: what is seen is drawn, the orders for it are carried out, and the line is shown
when none of them failed. -/
def step (server : Server σ) (strategy : Strategy μ) (time : Duration) (stage : Stage σ μ) :
    Except Halt Unit × Stage σ μ :=
  let (orders, stage) := stage.begin strategy time
  conclude strategy (carryOut server orders stage)

/-- Drops everything that the loop drew. -/
def release (stage : Stage σ μ) : Stage σ μ :=
  { stage with pool := stage.pool.dropAll stage.drawings.guards, drawings := .blank }

/-- How a control loop is paced. -/
inductive Pace where
  /-- One step in each period. -/
  | polling
  /-- One step for each look at the news that finds some. -/
  | onUpdate
  deriving DecidableEq, Repr

/-- Steps in every period until something halts the loop. The count bounds the steps. -/
def poll (server : Server σ) (strategy : Strategy μ) : Nat → Stage σ μ → Halt × Stage σ μ
  | 0, stage => (.stopped, stage)
  | count + 1, stage =>
    match stage.step server strategy .zero with
    | (.error halt, stage) => (halt, stage)
    | (.ok (), stage) =>
      match stage.arrivals with
      | [] => (.stopped, stage)
      | arrival :: more =>
        poll server strategy count
          { stage with client := stage.client.arrive arrival, arrivals := more }

/-- Steps at every news until something halts the loop. The count bounds the looks. -/
def follow (server : Server σ) (strategy : Strategy μ) : Nat → Stage σ μ → Halt × Stage σ μ
  | 0, stage => (.stopped, stage)
  | count + 1, stage =>
    match stage.client.nextUpdate with
    | (.ended, client) => (.error .disconnected, { stage with client := client })
    | (.fresh, client) =>
      match { stage with client := client }.step server strategy .zero with
      | (.error halt, stage) => (halt, stage)
      | (.ok (), stage) => follow server strategy count stage
    | (.pending, client) =>
      match stage.arrivals with
      | [] => (.stopped, { stage with client := client })
      | arrival :: more =>
        follow server strategy count
          { stage with client := client.arrive arrival, arrivals := more }

/-- Runs the control loop until something halts it; then its drawings are dropped. Every turn
of a loop uses up a period or some news, and news come with a period, so the bounds are never
met. -/
def loop (server : Server σ) (strategy : Strategy μ) (pace : Pace) (stage : Stage σ μ) :
    Halt × Stage σ μ :=
  let halted := match pace with
    | .polling => poll server strategy (stage.arrivals.length + 1) stage
    | .onUpdate => follow server strategy (2 * stage.arrivals.length + 2) stage
  (halted.1, halted.2.release)

/-- Runs the control loop as a task of its own, which closes the session at its end. A task
that broke off closes nothing and counts as a lost session. -/
def launch (server : Server σ) (strategy : Strategy μ) (pace : Pace) (stage : Stage σ μ) :
    Except SessionError Unit × Stage σ μ :=
  match stage.loop server strategy pace with
  | (.stranger _, stage) => (.error .disconnected, stage)
  | (.error cause, stage) =>
    (.error cause, { stage with client := stage.client.close server })
  | (.stopped, stage) => (.ok (), { stage with client := stage.client.close server })

end Stage

end RobotSoccer
