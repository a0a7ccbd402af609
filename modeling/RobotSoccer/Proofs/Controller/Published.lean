import RobotSoccer.Proofs.Controller.Robotwise

/-!
# What a run publishes and what it never takes back

Every frame that a run publishes was pushed as it is or is the packet of one of its ticks. A
marker that was placed and a status that was given are never taken away again, and the timer of
the referee never runs.
-/

namespace RobotSoccer.Controller

/-- The frames that a run publishes, in order. -/
def published (controller : Controller) (events : List Event) : List Bytes :=
  (run controller events).1.flatMap (·.frames)

/-- The packets of the ticks of a run, in order. -/
def packets : Controller → List Event → List Packet
  | _, [] => []
  | controller, event :: more =>
    let next := (controller.happen event).2
    match event with
    | .tick => next.pitch.packet :: packets next more
    | _ => packets next more

/-- A run publishes what its parts publish. -/
theorem published_append (controller : Controller) (before after : List Event) :
    controller.published (before ++ after) =
      controller.published before ++ (run controller before).2.published after := by
  unfold published
  rw [run_append, List.flatMap_append]

/-- A tick publishes the frames that wait and then its packet. -/
theorem published_tick (controller : Controller) :
    controller.published [.tick] =
      controller.pitch.rawFrames ++ [(controller.happen .tick).2.pitch.packet.encode] := by
  rw [published, run, List.flatMap_cons]
  exact List.append_nil _

/-- The packets of a run are those of its parts. -/
theorem packets_append (controller : Controller) (before after : List Event) :
    controller.packets (before ++ after) =
      controller.packets before ++ (run controller before).2.packets after := by
  induction before generalizing controller with
  | nil => rfl
  | cons event more ih =>
    have hrest := ih (controller.happen event).2
    cases event with
    | tick => exact congrArg _ hrest
    | setBall ball => exact hrest
    | setRobot name pose => exact hrest
    | setPreempted name reason => exact hrest
    | pushRaw pushed => exact hrest
    | clearReceived => exact hrest
    | request bytes => exact hrest

/-- What is held as the packet after a tick of a run is one of its packets. -/
theorem packet_mem_packets (controller : Controller) (before after : List Event) :
    (run controller (before ++ [.tick])).2.pitch.packet ∈
      controller.packets (before ++ [.tick] ++ after) := by
  rw [packets_append, packets_append, run_append]
  exact List.mem_append_left _ (List.mem_append_right _ List.mem_cons_self)

/-- The last frame of a run that ends with a tick is the packet that the controller then holds. -/
theorem last_published {controller : Controller} {events : List Event} {earlier : List Bytes}
    {last : Bytes} (h : controller.published (events ++ [.tick]) = earlier ++ [last]) :
    last = (run controller (events ++ [.tick])).2.pitch.packet.encode := by
  rw [published_append, published_tick, ← List.append_assoc] at h
  obtain ⟨-, hlast⟩ := List.append_singleton_inj.1 h
  rw [← hlast, run_append]
  rfl

/-- The answer to a request leaves the packet and the waiting frames as they were. -/
theorem answer_frame (controller : Controller) (bytes : Bytes) :
    (controller.answer bytes).2.pitch.packet = controller.pitch.packet ∧
      (controller.answer bytes).2.pitch.rawFrames = controller.pitch.rawFrames := by
  rcases controller.answer_effect bytes with ⟨-, hsame⟩ | hcarried
  · rw [hsame]
    exact ⟨rfl, rfl⟩
  · obtain ⟨order, robot, velocity, -, -, -, hanswer⟩ := hcarried
    obtain ⟨hpacket, hraw, -⟩ := drive_frame controller.pitch robot velocity
    rw [hanswer]
    exact ⟨hpacket, hraw⟩

/-- A frame that waits after an event waited before or was pushed. -/
theorem mem_rawFrames_happen {controller : Controller} {event : Event} {frame : Bytes}
    (h : frame ∈ (controller.happen event).2.pitch.rawFrames) :
    frame ∈ controller.pitch.rawFrames ∨ event = .pushRaw frame := by
  cases event with
  | setBall ball => exact .inl h
  | setRobot name pose => exact .inl h
  | setPreempted name reason => exact .inl h
  | pushRaw pushed =>
    rcases List.mem_append.1 h with h | h
    · exact .inl h
    · exact .inr (congrArg _ (List.mem_singleton.1 h).symm)
  | clearReceived => exact .inl h
  | request bytes =>
    have hframes := (controller.answer_frame bytes).2
    exact .inl (hframes ▸ h)
  | tick => cases h

/-- A frame that a run publishes waited at its start, was pushed, or is the packet of a tick. -/
theorem mem_published {controller : Controller} {events : List Event} {frame : Bytes}
    (h : frame ∈ controller.published events) :
    frame ∈ controller.pitch.rawFrames ∨ .pushRaw frame ∈ events ∨
      ∃ before after, events = before ++ [.tick] ++ after ∧
        frame = (run controller (before ++ [.tick])).2.pitch.packet.encode := by
  induction events generalizing controller with
  | nil => cases h
  | cons event more ih =>
    have hparts := controller.published_append [event] more
    rw [List.singleton_append] at hparts
    rw [hparts] at h
    rcases List.mem_append.1 h with hnow | hlater
    · cases event with
      | tick =>
        rw [published_tick] at hnow
        rcases List.mem_append.1 hnow with hraw | hpacket
        · exact .inl hraw
        · exact .inr (.inr ⟨[], more, rfl, List.mem_singleton.1 hpacket⟩)
      | setBall ball => cases hnow
      | setRobot name pose => cases hnow
      | setPreempted name reason => cases hnow
      | pushRaw pushed => cases hnow
      | clearReceived => cases hnow
      | request bytes => cases hnow
    · rcases ih hlater with hraw | hpushed | ⟨before, after, hmore, hframe⟩
      · rcases mem_rawFrames_happen hraw with hraw | hpushed
        · exact .inl hraw
        · exact .inr (.inl (hpushed ▸ List.mem_cons_self))
      · exact .inr (.inl (List.mem_cons_of_mem _ hpushed))
      · exact .inr (.inr ⟨event :: before, after, by rw [hmore]; rfl, hframe⟩)

/-- The timer of the referee never runs. -/
theorem timer_happen (controller : Controller) (event : Event) :
    (controller.happen event).2.pitch.packet.referee.timer =
      controller.pitch.packet.referee.timer := by
  cases event with
  | setBall ball => rfl
  | setRobot name pose => rfl
  | setPreempted name reason => rfl
  | pushRaw pushed => rfl
  | clearReceived => rfl
  | request bytes =>
    have hpacket := (controller.answer_frame bytes).1
    exact congrArg (·.referee.timer) hpacket
  | tick => rfl

/-- In every run from the start the timer shows zero. -/
theorem timer_run_fresh (keys : TeamKeys) (events : List Event) :
    (run (fresh keys) events).2.pitch.packet.referee.timer = 0.0 := by
  have hkeeps := @run_keeps fun controller => controller.pitch.packet.referee.timer = 0.0
  exact hkeeps (fun controller event h => (controller.timer_happen event).trans h) _ events rfl

namespace Holding

variable {keys : TeamKeys} {robot : RobotName}

/-- An order moves no robot by itself and leaves what the referee says. -/
theorem obey_frame (holding : Holding) (order : Order) :
    (holding.obey order).2.pose = holding.pose ∧
      (holding.obey order).2.status = holding.status := by
  rw [obey]
  cases holding.status.filter (·.preempted) with
  | some status => exact ⟨rfl, rfl⟩
  | none =>
    cases ordered? order.command with
    | none => exact ⟨rfl, rfl⟩
    | some velocity => cases velocity <;> exact ⟨rfl, rfl⟩

/-- A request moves no robot by itself and leaves what the referee says. -/
theorem request_frame (holding : Holding) (bytes : Bytes) :
    (holding.happen keys robot (.request bytes)).2.pose = holding.pose ∧
      (holding.happen keys robot (.request bytes)).2.status = holding.status := by
  unfold happen
  dsimp only
  cases orderFor? keys robot bytes with
  | none => exact ⟨rfl, rfl⟩
  | some order => exact holding.obey_frame order

/-- A robot stands nowhere after an event when it stood nowhere and was not put anywhere. -/
theorem pose_happen_eq_none (keys : TeamKeys) (robot : RobotName) (holding : Holding)
    (event : Event) :
    (holding.happen keys robot event).2.pose = none ↔
      holding.pose = none ∧ ∀ pose, event ≠ .setRobot robot pose := by
  cases event with
  | setRobot name pose =>
    rw [happen]
    dsimp only
    by_cases hname : name = robot
    · subst hname
      rw [if_pos rfl]
      exact iff_of_false (Option.some_ne_none pose) fun h => h.2 pose rfl
    · rw [if_neg hname]
      refine (and_iff_left fun other heq => ?_).symm
      injection heq with heq
      exact hname heq
  | setPreempted name reason =>
    rw [happen]
    dsimp only
    refine Iff.trans ?_ (and_iff_left fun _ => Event.noConfusion).symm
    by_cases hname : name = robot
    · rw [if_pos hname]
    · rw [if_neg hname]
  | request bytes =>
    rw [(holding.request_frame bytes).1]
    exact (and_iff_left fun _ => Event.noConfusion).symm
  | tick => exact Option.map_eq_none_iff.trans (and_iff_left fun _ => Event.noConfusion).symm
  | setBall ball => exact (and_iff_left fun _ => Event.noConfusion).symm
  | pushRaw pushed => exact (and_iff_left fun _ => Event.noConfusion).symm
  | clearReceived => exact (and_iff_left fun _ => Event.noConfusion).symm

/-- What the referee once said about a robot may change, but something stays said. -/
theorem status_of_happen_eq_none {holding : Holding} {event : Event}
    (h : (holding.happen keys robot event).2.status = none) : holding.status = none := by
  cases event with
  | setRobot name pose =>
    rw [happen] at h
    dsimp only at h
    by_cases hname : name = robot
    · rw [if_pos hname] at h
      exact h
    · rw [if_neg hname] at h
      exact h
  | setPreempted name reason =>
    rw [happen] at h
    dsimp only at h
    by_cases hname : name = robot
    · rw [if_pos hname] at h
      cases h
    · rw [if_neg hname] at h
      exact h
  | request bytes => exact (holding.request_frame bytes).2 ▸ h
  | tick => exact h
  | setBall ball => exact h
  | pushRaw pushed => exact h
  | clearReceived => exact h

end Holding

/-- A robot stands nowhere after a run when it stood nowhere before and was never put anywhere
in it. -/
theorem pose_run_eq_none (controller : Controller) (robot : RobotName) (events : List Event) :
    (run controller events).2.pitch.robotPose? robot = none ↔
      controller.pitch.robotPose? robot = none ∧ ∀ pose, .setRobot robot pose ∉ events := by
  induction events generalizing controller with
  | nil => exact (and_iff_left fun _ => List.not_mem_nil).symm
  | cons event more ih =>
    have hnow := Holding.pose_happen_eq_none controller.keys robot (controller.holding robot)
      event
    rw [← holding_happen] at hnow
    have hlater := ih (controller.happen event).2
    refine hlater.trans ((and_congr_left' hnow).trans ?_)
    rw [and_assoc]
    refine and_congr_right fun _ => ?_
    constructor
    · rintro ⟨hfirst, hmore⟩ pose hmem
      rcases List.mem_cons.1 hmem with heq | hmem
      · exact hfirst pose heq.symm
      · exact hmore pose hmem
    · intro hnever
      exact ⟨fun pose heq => hnever pose (heq ▸ List.mem_cons_self),
        fun pose hmem => hnever pose (List.mem_cons_of_mem _ hmem)⟩

/-- When the referee says nothing about a robot after a run, it said nothing before. -/
theorem status_of_run_eq_none {controller : Controller} {robot : RobotName}
    {events : List Event} (h : ((run controller events).2.holding robot).status = none) :
    (controller.holding robot).status = none := by
  induction events generalizing controller with
  | nil => exact h
  | cons event more ih =>
    have hnow : ((controller.happen event).2.holding robot).status = none := ih h
    rw [holding_happen] at hnow
    exact Holding.status_of_happen_eq_none hnow

end RobotSoccer.Controller
