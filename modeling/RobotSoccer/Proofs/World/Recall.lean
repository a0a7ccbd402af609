import RobotSoccer.Proofs.World.LastWriter

/-!
# A world recalls the latest word and nothing else

After any history a world that began blank holds the latest word about each pose, each status, the
ball and the match. So the age of a robot and a step towards a target are known together with its
pose, and a world is ready when the ball and every robot were shown at least once, which no later
event takes back.
-/

namespace RobotSoccer.World

/-- What is said about the match. -/
def Event.referee? : Event → Option MatchStatus
  | .frame bytes =>
    match Packet.decode bytes with
    | .error _ => none
    | .ok packet => some packet.referee
  | .ball _ => none
  | .marker _ _ => none
  | .status _ _ => none

/-- When a robot is seen, if it is seen in a step. -/
def seenAt? (robot : RobotName) (step : Event × Instant) : Option Instant :=
  (step.1.pose? robot).map fun _ => step.2

/-- A world holds what a history said last: about each robot that plays, the ball and the match. -/
structure Recalls (world : World) (steps : List (Event × Instant)) : Prop where
  /-- Each robot that plays has the pose and the status that were said last about it. -/
  robots : ∀ robot ∈ RobotName.all, ∃ view, world.robot? robot = some view ∧
    view.pose = latest (fun step => step.1.pose? robot) steps ∧
    view.lastSeen = latest (seenAt? robot) steps ∧
    view.status = (latest (fun step => step.1.status? robot) steps).getD .blank
  /-- The ball is where it was last said to be. -/
  ball : world.ball = latest (fun step => step.1.ball?) steps
  /-- The match is as it was last said to be, as a whole. -/
  referee : world.referee = (latest (fun step => step.1.referee?) steps).getD .blank

/-- An event that says nothing: no packet, no ball, or a robot that does not play. -/
def Event.Silent : Event → Prop
  | .frame bytes => ∃ fault, Packet.decode bytes = .error fault
  | .ball position => position = none
  | .marker name _ => name ∉ RobotName.all
  | .status name _ => name ∉ RobotName.all

/-- The ball and every robot that plays were each shown at least once. -/
def Shown (steps : List (Event × Instant)) : Prop :=
  (∃ step ∈ steps, ∃ p, step.1.ball? = some p) ∧
    ∀ robot ∈ RobotName.all, ∃ step ∈ steps, ∃ pose, step.1.pose? robot = some pose

/-- Something was said exactly when some step said it. -/
theorem isSome_latest {ε α : Type} (said : ε → Option α) (steps : List ε) :
    (latest said steps).isSome = true ↔ ∃ step ∈ steps, ∃ value, said step = some value := by
  induction steps with
  | nil =>
    have hnone : latest said [] = none := rfl
    simp only [hnone, Option.isSome_none, Bool.false_eq_true, List.not_mem_nil, false_and,
      exists_false]
  | cons step more ih =>
    rw [latest_cons, Option.isSome_or, Bool.or_eq_true, ih, Option.isSome_iff_exists]
    simp only [List.mem_cons, or_and_right, exists_or, exists_eq_left]
    exact or_comm

/-- An event leaves a view seen when it says so, and else when it was seen before. -/
theorem Event.lastSeen_onView (robot : RobotName) (event : Event) (now : Instant)
    (view : RobotView) :
    (event.onView robot now view).lastSeen = (seenAt? robot (event, now)).or view.lastSeen := by
  unfold seenAt?
  cases event with
  | frame bytes =>
    simp only [onView, pose?]
    cases Packet.decode bytes with
    | error fault => rfl
    | ok packet =>
      simp only [RobotView.receive]
      cases packet.robotStatus? robot.team.text robot.number with
      | none => cases packet.markers.get? robot.text <;> rfl
      | some found => cases packet.markers.get? robot.text <;> rfl
  | ball position => rfl
  | marker name pose =>
    by_cases hname : name = robot
    · simp only [onView, pose?, if_pos hname, Option.map_some, Option.some_or, RobotView.see]
    · simp only [onView, pose?, if_neg hname, Option.map_none, Option.none_or]
  | status name status =>
    have hkept : (if name = robot then view.setStatus status else view).lastSeen =
        view.lastSeen := by
      by_cases hname : name = robot
      · simp only [if_pos hname, RobotView.setStatus]
      · simp only [if_neg hname]
    simp only [onView, pose?, hkept, Option.map_none, Option.none_or]

/-- After a history a robot was last seen at the latest step that showed it. -/
theorem lastSeen_after (robot : RobotName) {world : World} {view : RobotView}
    (h : world.robot? robot = some view) (steps : List (Event × Instant)) :
    ∃ later, (world.after steps).robot? robot = some later ∧
      later.lastSeen = (latest (seenAt? robot) steps).or view.lastSeen := by
  induction steps generalizing world view with
  | nil => exact ⟨view, h, rfl⟩
  | cons step more ih =>
    have hnext : (world.happen step.1 step.2).robot? robot =
        some (step.1.onView robot step.2 view) := by
      rw [robot?_happen, h]
      rfl
    obtain ⟨later, hlater, hseen⟩ := ih hnext
    refine ⟨later, hlater, ?_⟩
    rw [hseen, Event.lastSeen_onView, latest_cons, Option.or_assoc]

/-- An event replaces what is known about the match by what it says about it, if anything. -/
theorem referee_happen (world : World) (event : Event) (now : Instant) :
    (world.happen event now).referee = event.referee?.getD world.referee := by
  have hmodify (name : RobotName) (change : RobotView → RobotView) :
      (world.modifyRobot name change).referee = world.referee := by
    unfold modifyRobot
    cases world.robot? name <;> rfl
  cases event with
  | frame bytes =>
    simp only [happen, receiveFrame, Event.referee?]
    cases Packet.decode bytes <;> rfl
  | ball position => rfl
  | marker name pose => exact hmodify name _
  | status name status => exact hmodify name _

/-- After a history the match is as it was latest said to be. -/
theorem referee_after (world : World) (steps : List (Event × Instant)) :
    (world.after steps).referee =
      (latest (fun step => step.1.referee?) steps).getD world.referee := by
  induction steps generalizing world with
  | nil => rfl
  | cons step more ih =>
    have hrest := ih (world.happen step.1 step.2)
    rw [referee_happen] at hrest
    rw [latest_cons]
    cases hlater : latest (fun step => step.1.referee?) more with
    | none => rw [hlater] at hrest; exact hrest
    | some referee => rw [hlater] at hrest; exact hrest

/-- A world that began blank holds what its history said last. -/
theorem recalls_after (steps : List (Event × Instant)) : (blank.after steps).Recalls steps where
  robots := by
    intro robot hplays
    have hblank := robot?_blank hplays
    obtain ⟨view, hview, hpose, hstatus⟩ := robot?_after robot hblank steps
    obtain ⟨same, hsame, hseen⟩ := lastSeen_after robot hblank steps
    have heq : view = same := Option.some.inj (hview.symm.trans hsame)
    subst heq
    have hnopose : RobotView.unseen.pose = none := rfl
    have hnever : RobotView.unseen.lastSeen = none := rfl
    rw [hnopose, Option.or_none] at hpose
    rw [hnever, Option.or_none] at hseen
    exact ⟨view, hview, hpose, hseen, hstatus⟩
  ball := by
    have hnone : blank.ball = none := rfl
    rw [ball_after, hnone, Option.or_none]
  referee := referee_after blank steps

/-- A robot has a pose exactly when it was seen at some time, since one step gives both. -/
theorem latest_seenAt? (robot : RobotName) (steps : List (Event × Instant)) :
    (latest (seenAt? robot) steps).isSome =
      (latest (fun step => step.1.pose? robot) steps).isSome := by
  induction steps with
  | nil => rfl
  | cons step more ih =>
    rw [latest_cons, latest_cons, Option.isSome_or, Option.isSome_or, ih, seenAt?,
      Option.isSome_map]

/-- Whatever the history was, a robot has a pose, an age and a step towards a target all together
or not at all. -/
theorem sighted_after (steps : List (Event × Instant)) {robot : RobotName} {view : RobotView}
    (h : (blank.after steps).robot? robot = some view) (now : Instant) (target : Pose Float) :
    (view.age now).isSome = view.hasPosition ∧
      (view.gotoStep? target).isSome = view.hasPosition := by
  have hplays : robot ∈ RobotName.all := by
    rw [← (blank.after steps).robots.isSome_get? robot]
    exact Option.isSome_iff_exists.2 ⟨view, h⟩
  obtain ⟨same, hsame, hpose, hseen, -⟩ := (recalls_after steps).robots robot hplays
  have heq : view = same := Option.some.inj (h.symm.trans hsame)
  subst heq
  constructor
  · rw [RobotView.age, Option.isSome_map, hseen, latest_seenAt?, ← hpose, RobotView.hasPosition]
  · rw [RobotView.gotoStep?, Option.isSome_map, RobotView.hasPosition]

/-- A world is ready when its ball is known and every robot that plays has a pose. -/
theorem isReady_iff (world : World) :
    world.isReady = true ↔ world.ball.isSome = true ∧
      ∀ robot ∈ RobotName.all, ∃ view, world.robot? robot = some view ∧
        view.hasPosition = true := by
  rw [isReady, Bool.and_eq_true, List.all_eq_true]
  refine and_congr_right fun _ => ⟨fun hall robot hplays => ?_, fun hall entry hentry => ?_⟩
  · obtain ⟨view, hview⟩ :=
      Option.isSome_iff_exists.1 ((world.robots.isSome_get? robot).2 hplays)
    exact ⟨view, hview, hall (robot, view) (Roster.mem_toList.2 hview)⟩
  · have hget := Roster.mem_toList.1 hentry
    have hplays := (world.robots.isSome_get? entry.1).1 (Option.isSome_iff_exists.2 ⟨_, hget⟩)
    obtain ⟨view, hview, hposition⟩ := hall entry.1 hplays
    have heq : entry.2 = view := Option.some.inj (hget.symm.trans hview)
    rw [heq]
    exact hposition

/-- A world that began blank is ready exactly when everything was shown. -/
theorem isReady_after_iff (steps : List (Event × Instant)) :
    (blank.after steps).isReady = true ↔ Shown steps := by
  have hrecalls := recalls_after steps
  rw [isReady_iff, hrecalls.ball, isSome_latest, Shown]
  refine and_congr_right fun _ => forall_congr' fun robot => imp_congr_right fun hplays => ?_
  obtain ⟨view, hview, hpose, -⟩ := hrecalls.robots robot hplays
  rw [← isSome_latest, ← hpose, hview]
  constructor
  · rintro ⟨same, hsame, hposition⟩
    rw [Option.some.inj hsame]
    exact hposition
  · exact fun hposition => ⟨view, rfl, hposition⟩

/-- What was shown stays shown. -/
theorem Shown.append {steps : List (Event × Instant)} (h : Shown steps)
    (more : List (Event × Instant)) : Shown (steps ++ more) := by
  obtain ⟨⟨step, hstep, hball⟩, hrobots⟩ := h
  refine ⟨⟨step, List.mem_append_left more hstep, hball⟩, fun robot hplays => ?_⟩
  obtain ⟨step, hstep, hpose⟩ := hrobots robot hplays
  exact ⟨step, List.mem_append_left more hstep, hpose⟩

/-- A silent event changes nothing. -/
theorem happen_silent (world : World) {event : Event} (h : event.Silent) (now : Instant) :
    world.happen event now = world := by
  have hstranger {name : RobotName} (hname : name ∉ RobotName.all)
      (change : RobotView → RobotView) : world.modifyRobot name change = world := by
    have hnone : world.robot? name = none := by
      rw [← Option.not_isSome_iff_eq_none]
      exact fun hsome => hname ((world.robots.isSome_get? name).1 hsome)
    rw [modifyRobot, hnone]
  cases event with
  | frame bytes =>
    obtain ⟨fault, hfault⟩ := h
    simp only [happen, receiveFrame, hfault, Except.map]
  | ball position =>
    have hnone : position = none := h
    rw [happen, updateBall, hnone, Option.none_or]
  | marker name pose => exact hstranger h _
  | status name status => exact hstranger h _

/-- A marker under a name that is no robot's changes nothing of what a packet does. -/
theorem receive_stray (world : World) (packet : Packet) {key : String}
    (hkey : ∀ robot ∈ RobotName.all, robot.text ≠ key) (marker : Pose Float) (now : Instant) :
    world.receive { packet with markers := packet.markers.insert key marker } now =
      world.receive packet now := by
  have hview (robot : RobotName) (hplays : robot ∈ RobotName.all) (view : RobotView) :
      view.receive robot { packet with markers := packet.markers.insert key marker } now =
        view.receive robot packet now := by
    have hget := packet.markers.get?_insert key robot.text marker
    rw [if_neg (hkey robot hplays).symm] at hget
    simp only [RobotView.receive, hget]
    rfl
  have hroster : (world.robots.mapNamed fun name view =>
      view.receive name { packet with markers := packet.markers.insert key marker } now) =
        world.robots.mapNamed fun name view => view.receive name packet now := by
    simp only [Roster.mapNamed]
    rw [hview .blue1 (by decide), hview .blue2 (by decide), hview .green1 (by decide),
      hview .green2 (by decide)]
  simp only [receive, hroster]

/-- The law of the latest word. After any history a world that began blank holds, for each robot,
the latest pose under exactly its name and the latest status, the latest ball, and the match of
the latest packet as a whole. Undecodable frames, missing balls and markers under other names
change nothing. A pose, an age and a step towards a target come together, and the world is ready
exactly when everything was shown once, from then on for good. -/
theorem latest_word_law (steps : List (Event × Instant)) :
    (blank.after steps).Recalls steps ∧
      (∀ event now, event.Silent →
        (blank.after steps).happen event now = blank.after steps) ∧
      (∀ packet key marker now, (∀ robot ∈ RobotName.all, robot.text ≠ key) →
        (blank.after steps).receive
            { packet with markers := packet.markers.insert key marker } now =
          (blank.after steps).receive packet now) ∧
      (∀ robot view now target, (blank.after steps).robot? robot = some view →
        (view.age now).isSome = view.hasPosition ∧
          (view.gotoStep? target).isSome = view.hasPosition) ∧
      ((blank.after steps).isReady = true ↔ Shown steps) ∧
      ∀ more, (blank.after steps).isReady = true →
        (blank.after (steps ++ more)).isReady = true := by
  refine ⟨recalls_after steps, ?silent, ?stray, ?sighted, isReady_after_iff steps, ?ready⟩
  case silent => exact fun event now hsilent => happen_silent _ hsilent now
  case stray => exact fun packet key marker now hkey => receive_stray _ packet hkey marker now
  case sighted => exact fun robot view now target hview => sighted_after steps hview now target
  case ready =>
    intro more hready
    have hshown := (isReady_after_iff steps).1 hready
    exact (isReady_after_iff _).2 (hshown.append more)

end RobotSoccer.World
