import RobotSoccer.World

/-!
# The last one to say something is believed

What a world knows after a history of events is what the latest event said that said anything
about it: about the pose of a robot, about its status, and about the ball.
-/

namespace RobotSoccer

/-- What the latest step said among those that said anything. -/
def latest {ε α : Type} (said : ε → Option α) (steps : List ε) : Option α :=
  (steps.filterMap said).getLast?

section Latest

variable {ε α : Type} {said : ε → Option α}

/-- The first step counts when none of the others said anything. -/
theorem latest_cons (step : ε) (more : List ε) :
    latest said (step :: more) = (latest said more).or (said step) := by
  unfold latest
  cases hstep : said step with
  | none => rw [List.filterMap_cons_none hstep, Option.or_none]
  | some value =>
    rw [List.filterMap_cons_some hstep, List.getLast?_cons]
    cases (more.filterMap said).getLast? with
    | none => rfl
    | some later => rfl

/-- The last step counts when it said anything. -/
theorem latest_concat (steps : List ε) (step : ε) :
    latest said (steps ++ [step]) = (said step).or (latest said steps) := by
  induction steps with
  | nil =>
    have hnone : latest said [] = none := rfl
    rw [List.nil_append, latest_cons, hnone, Option.none_or, Option.or_none]
  | cons first steps ih => rw [List.cons_append, latest_cons, latest_cons, ih, Option.or_assoc]

/-- Nothing was said when no step said anything. -/
theorem latest_eq_none {steps : List ε} (h : ∀ step ∈ steps, said step = none) :
    latest said steps = none := by
  rw [latest, List.filterMap_eq_nil_iff.2 h]
  rfl

end Latest

namespace World

/-- What is said about the pose of a robot. -/
def Event.pose? (robot : RobotName) : Event → Option (Pose Float)
  | .frame bytes =>
    match Packet.decode bytes with
    | .error _ => none
    | .ok packet => packet.markers.get? robot.text
  | .ball _ => none
  | .marker name pose => if name = robot then some pose else none
  | .status _ _ => none

/-- What is said about the status of a robot. -/
def Event.status? (robot : RobotName) : Event → Option RobotStatus
  | .frame bytes =>
    match Packet.decode bytes with
    | .error _ => none
    | .ok packet => packet.robotStatus? robot.team.text robot.number
  | .ball _ => none
  | .marker _ _ => none
  | .status name found => if name = robot then some found else none

/-- What is said about the ball. -/
def Event.ball? : Event → Option (Point Float)
  | .frame bytes =>
    match Packet.decode bytes with
    | .error _ => none
    | .ok packet => packet.ball
  | .ball position => position
  | .marker _ _ => none
  | .status _ _ => none

/-- The world after a history of events, each at its time. -/
def after (world : World) (steps : List (Event × Instant)) : World :=
  steps.foldl (fun world step => world.happen step.1 step.2) world

/-- What an event does to the view of a robot. -/
def Event.onView (robot : RobotName) (event : Event) (now : Instant) (view : RobotView) :
    RobotView :=
  match event with
  | .frame bytes =>
    match Packet.decode bytes with
    | .error _ => view
    | .ok packet => view.receive robot packet now
  | .ball _ => view
  | .marker name pose => if name = robot then view.see pose now else view
  | .status name found => if name = robot then view.setStatus found else view

/-- A change of one robot changes the view of that robot and of no other. -/
theorem robot?_modifyRobot (world : World) (name robot : RobotName)
    (change : RobotView → RobotView) :
    (world.modifyRobot name change).robot? robot =
      (world.robot? robot).map fun view => if name = robot then change view else view := by
  rw [modifyRobot]
  cases hview : world.robot? name with
  | none =>
    by_cases hname : name = robot
    · subst hname
      rw [hview]
      rfl
    · simp only [if_neg hname, Option.map_id']
  | some view =>
    have hset := world.robots.get?_set name robot (change view)
    change (world.robots.set name (change view)).get? robot = _
    rw [hset]
    by_cases hname : name = robot
    · subst hname
      have hsame : world.robots.get? name = some view := hview
      rw [if_pos rfl, hview, hsame, Option.map_some, Option.map_some, if_pos rfl]
    · simp only [if_neg hname, Option.map_id']
      rfl

/-- An event changes the view of a robot as it says. -/
theorem robot?_happen (world : World) (robot : RobotName) (event : Event) (now : Instant) :
    (world.happen event now).robot? robot =
      (world.robot? robot).map (event.onView robot now) := by
  cases event with
  | frame bytes =>
    unfold happen receiveFrame Event.onView
    dsimp only
    cases Packet.decode bytes with
    | error fault => exact Option.map_id'.symm
    | ok packet => exact world.robots.get?_mapNamed _ robot
  | ball position => exact Option.map_id'.symm
  | marker name pose => exact world.robot?_modifyRobot name robot _
  | status name status => exact world.robot?_modifyRobot name robot _

/-- An event gives a view the pose that it says, if any. -/
theorem Event.pose_onView (robot : RobotName) (event : Event) (now : Instant)
    (view : RobotView) :
    (event.onView robot now view).pose = (event.pose? robot).or view.pose := by
  cases event with
  | frame bytes =>
    unfold onView pose?
    dsimp only
    cases Packet.decode bytes with
    | error fault => rfl
    | ok packet =>
      unfold RobotView.receive
      dsimp only
      cases packet.robotStatus? robot.team.text robot.number with
      | none => cases packet.markers.get? robot.text <;> rfl
      | some status => cases packet.markers.get? robot.text <;> rfl
  | ball position => rfl
  | marker name pose =>
    unfold onView pose?
    dsimp only
    by_cases hname : name = robot
    · rw [if_pos hname, if_pos hname]
      rfl
    · rw [if_neg hname, if_neg hname]
      rfl
  | status name status =>
    unfold onView pose?
    dsimp only
    by_cases hname : name = robot
    · rw [if_pos hname]
      rfl
    · rw [if_neg hname]
      rfl

/-- An event gives a view the status that it says, if any. -/
theorem Event.status_onView (robot : RobotName) (event : Event) (now : Instant)
    (view : RobotView) :
    (event.onView robot now view).status = (event.status? robot).getD view.status := by
  cases event with
  | frame bytes =>
    unfold onView status?
    dsimp only
    cases Packet.decode bytes with
    | error fault => rfl
    | ok packet =>
      unfold RobotView.receive
      dsimp only
      cases packet.robotStatus? robot.team.text robot.number with
      | none => cases packet.markers.get? robot.text <;> rfl
      | some status => rfl
  | ball position => rfl
  | marker name pose =>
    unfold onView status?
    dsimp only
    by_cases hname : name = robot
    · rw [if_pos hname]
      rfl
    · rw [if_neg hname]
      rfl
  | status name status =>
    unfold onView status?
    dsimp only
    by_cases hname : name = robot
    · rw [if_pos hname, if_pos hname]
      rfl
    · rw [if_neg hname, if_neg hname]
      rfl

/-- An event gives the world the ball that it says, if any. -/
theorem ball_happen (world : World) (event : Event) (now : Instant) :
    (world.happen event now).ball = event.ball?.or world.ball := by
  cases event with
  | frame bytes =>
    unfold happen receiveFrame Event.ball?
    dsimp only
    cases Packet.decode bytes with
    | error fault => rfl
    | ok packet => rfl
  | ball position => rfl
  | marker name pose =>
    unfold happen modifyRobot
    dsimp only
    cases world.robot? name with
    | none => rfl
    | some view => rfl
  | status name status =>
    unfold happen modifyRobot
    dsimp only
    cases world.robot? name with
    | none => rfl
    | some view => rfl

/-- At the start every robot that plays is unseen. -/
theorem robot?_blank {robot : RobotName} (h : robot ∈ RobotName.all) :
    blank.robot? robot = some .unseen := by
  simp only [RobotName.all, List.mem_cons, List.not_mem_nil, or_false] at h
  rcases h with rfl | rfl | rfl | rfl <;> rfl

/-- After a history each robot is viewed as if the latest pose and the latest status said about
it were all that was ever said. -/
theorem robot?_after (robot : RobotName) {world : World} {view : RobotView}
    (h : world.robot? robot = some view) (steps : List (Event × Instant)) :
    ∃ later, (world.after steps).robot? robot = some later ∧
      later.pose = (latest (fun step => step.1.pose? robot) steps).or view.pose ∧
      later.status = (latest (fun step => step.1.status? robot) steps).getD view.status := by
  induction steps generalizing world view with
  | nil => exact ⟨view, h, rfl, rfl⟩
  | cons step more ih =>
    have hnext : (world.happen step.1 step.2).robot? robot =
        some (step.1.onView robot step.2 view) := by
      rw [robot?_happen, h]
      rfl
    obtain ⟨later, hlater, hpose, hstatus⟩ := ih hnext
    refine ⟨later, hlater, ?_, ?_⟩
    · rw [hpose, Event.pose_onView, latest_cons, Option.or_assoc]
    · rw [hstatus, Event.status_onView, latest_cons]
      cases latest (fun step => step.1.status? robot) more with
      | none => rfl
      | some status => rfl

/-- After a history the ball is where it was latest said to be. -/
theorem ball_after (world : World) (steps : List (Event × Instant)) :
    (world.after steps).ball = (latest (fun step => step.1.ball?) steps).or world.ball := by
  induction steps generalizing world with
  | nil => rfl
  | cons step more ih =>
    have hrest := ih (world.happen step.1 step.2)
    rw [latest_cons, Option.or_assoc, ← ball_happen]
    exact hrest

end World

end RobotSoccer
