import RobotSoccer.Drawing.Gallery
import RobotSoccer.Session.Pilot

/-!
# Steps among others who draw

The steps of a control loop, taken apart where something may come in between: a step begins with the
ball, looks at one robot after the other, asks for orders and carries them out one by one. Of a robot it
reads where it stands and, when it was seen, whether it is preempted, one after the other. Meanwhile the
world goes on, and others draw on the same pool with guards of their own. A step may fail at an order or
be left there, and then the next one begins with the same drawings.
-/

namespace RobotSoccer

/-- How far a step has come. -/
inductive Progress where
  /-- No step is under way. -/
  | between
  /-- These robots are left to be looked at. This was seen when the step began. -/
  | looking (seen : Snapshot) (left : List RobotName)
  /-- A robot was seen here, and whether it is preempted is looked at next. -/
  | flagging (seen : Snapshot) (name : RobotName) (pose : Pose Float) (left : List RobotName)
  /-- These orders are left to be carried out. -/
  | carrying (orders : List GotoOrder)

/-- The robots that a step has yet to look at. -/
def Progress.left : Progress → List RobotName
  | looking _ left => left
  | flagging _ name _ left => name :: left
  | between | carrying _ => []

/-- A control loop and others who draw. -/
structure Scene (σ μ : Type) where
  /-- What the loop changes. The pool is shared with the others. -/
  stage : Stage σ μ
  /-- The guards of the others in the order in which they came, none for one that was dropped. -/
  others : List (Option GuardId)
  /-- How far the step under way has come. -/
  progress : Progress

/-- What happens while steps are taken. -/
inductive Cue (μ : Type) where
  /-- Something happens to the world. -/
  | world (event : World.Event) (now : Instant)
  /-- One of the others does something with a guard. -/
  | other (deed : Deed)
  /-- A step begins. -/
  | begin
  /-- Where a robot stands is looked at. -/
  | look (name : RobotName)
  /-- Whether the robot that was seen is preempted is looked at. -/
  | flag
  /-- A strategy gives its orders. -/
  | plan (strategy : Strategy μ) (time : Duration)
  /-- The next order is carried out. This comes in during the periods of a wait. -/
  | order (arrivals : Client.Arrivals)
  /-- The step ends with the line about the watched robot. -/
  | finish (strategy : Strategy μ)
  /-- The step is left by its caller. -/
  | leave

/-- What a loop sees of a robot. -/
structure Sight where
  /-- Where the robot stands. -/
  pose : Pose Float
  /-- Whether the robot is preempted. -/
  preempted : Bool

/-- Something that a loop saw or brought about. -/
inductive Mark where
  /-- A step began; the ball was here, if it was known. -/
  | began (ball : Option (Point Float))
  /-- A robot was looked at. There is nothing to be seen of one that was never placed. -/
  | looked (name : RobotName) (sight : Option Sight)
  /-- An order was carried out. -/
  | reached (order : GotoOrder)

namespace Scene

variable {σ μ : Type}

/-- Nobody has drawn anything. -/
def fresh (client : Client σ) (memory : μ) (draws : List GuardId) : Scene σ μ :=
  ⟨.fresh client memory (.drawing draws) [], [], .between⟩

/-- The world of the client becomes another one. -/
def setWorld (scene : Scene σ μ) (world : World) : Scene σ μ :=
  { scene with stage := { scene.stage with client := { scene.stage.client with world := world } } }

/-- One of the others does something with a guard. -/
def perform (scene : Scene σ μ) (deed : Deed) : Scene σ μ :=
  let gallery := Gallery.perform ⟨scene.stage.pool, scene.others⟩ deed
  { scene with stage := { scene.stage with pool := gallery.pool }, others := gallery.guards }

/-- The next order of a step is carried out, while this comes in. -/
def fulfil (server : Server σ) (scene : Scene σ μ) (order : GotoOrder) (arrivals : Client.Arrivals) :
    Except Halt Unit × Stage σ μ :=
  { scene.stage with arrivals := arrivals }.fulfil server order

/-- Something happens; it does nothing when its time is not there. -/
def happen (server : Server σ) (scene : Scene σ μ) : Cue μ → Scene σ μ
  | .world event now => scene.setWorld (scene.stage.client.world.happen event now)
  | .other deed => scene.perform deed
  | .begin =>
    match scene.progress with
    | .between =>
      { scene with
        stage := scene.stage.drawBall
        progress := .looking scene.stage.client.world.snapshot RobotName.all }
    | .looking _ _ | .flagging _ _ _ _ | .carrying _ => scene
  | .look name =>
    match scene.progress, scene.stage.client.world.robot? name with
    | .looking seen left, some view =>
      if name ∈ left then
        match view.pose with
        | none => { scene with progress := .looking seen (left.erase name) }
        | some pose => { scene with progress := .flagging seen name pose (left.erase name) }
      else scene
    | _, _ => scene
  | .flag =>
    match scene.progress with
    | .flagging seen name pose left =>
      match scene.stage.client.world.robot? name with
      | none => scene
      | some view =>
        { scene with
          stage := scene.stage.drawRobotAt name pose view.status.preempted
          progress := .looking seen left }
    | .between | .looking _ _ | .carrying _ => scene
  | .plan strategy time =>
    match scene.progress with
    | .looking seen [] =>
      let (orders, stage) := scene.stage.ask strategy seen time
      { scene with stage := stage, progress := .carrying orders }
    | .looking _ (_ :: _) | .between | .flagging _ _ _ _ | .carrying _ => scene
  | .order arrivals =>
    match scene.progress with
    | .carrying (order :: more) =>
      match scene.fulfil server order arrivals with
      | (.error _, stage) => { scene with stage := stage, progress := .between }
      | (.ok (), stage) => { scene with stage := stage, progress := .carrying more }
    | .carrying [] | .between | .looking _ _ | .flagging _ _ _ _ => scene
  | .finish strategy =>
    match scene.progress with
    | .carrying [] =>
      { scene with stage := (scene.stage.showWatched strategy).2, progress := .between }
    | .carrying (_ :: _) | .between | .looking _ _ | .flagging _ _ _ _ => scene
  | .leave =>
    match scene.progress with
    | .carrying _ => { scene with progress := .between }
    | .between | .looking _ _ | .flagging _ _ _ _ => scene

/-- Things happen one after the other. -/
def after (server : Server σ) (scene : Scene σ μ) (cues : List (Cue μ)) : Scene σ μ :=
  cues.foldl (happen server) scene

/-- What the loop sees or brings about when something happens. -/
def mark? (server : Server σ) (scene : Scene σ μ) : Cue μ → Option Mark
  | .begin =>
    match scene.progress with
    | .between => some (.began scene.stage.client.world.ball)
    | .looking _ _ | .flagging _ _ _ _ | .carrying _ => none
  | .look name =>
    match scene.progress, scene.stage.client.world.robot? name with
    | .looking _ left, some view =>
      if name ∈ left ∧ view.pose.isNone then some (.looked name none) else none
    | _, _ => none
  | .flag =>
    match scene.progress with
    | .flagging _ name pose _ =>
      (scene.stage.client.world.robot? name).map fun view =>
        .looked name (some ⟨pose, view.status.preempted⟩)
    | .between | .looking _ _ | .carrying _ => none
  | .order arrivals =>
    match scene.progress with
    | .carrying (order :: _) =>
      match (scene.fulfil server order arrivals).1 with
      | .error _ => none
      | .ok () => some (.reached order)
    | .carrying [] | .between | .looking _ _ | .flagging _ _ _ _ => none
  | .world _ _ | .other _ | .plan _ _ | .finish _ | .leave => none

/-- What the loop sees and brings about when things happen one after the other. -/
def marks (server : Server σ) : Scene σ μ → List (Cue μ) → List Mark
  | _, [] => []
  | scene, cue :: more =>
    (scene.mark? server cue).toList ++ marks server (scene.happen server cue) more

end Scene

/-- What the others do with guards. -/
def Cue.deed? {μ : Type} : Cue μ → Option Deed
  | .other deed => some deed
  | .world _ _ | .begin | .look _ | .flag | .plan _ _ | .order _ | .finish _ | .leave => none

end RobotSoccer
