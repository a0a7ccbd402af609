import RobotSoccer.Proofs.Controller.Requests
import RobotSoccer.Proofs.Session.Closing

/-!
# What overtakes the stops

The exchange of a command that the loop left when it was told to stop runs on beside the stops. When
it has not asked for the link yet it may come behind the stop of its own robot, and then the robot
goes on moving. Nothing else that a mission calls for can come behind a stop.
-/

namespace RobotSoccer

variable {σ μ : Type}

/-- Nothing is under way when every exchange is done. -/
theorem Link.Orderly.current_of_done {link : Link σ} {turns : List Turn}
    {current : Option (Nat × Bytes)} (h : Orderly link turns current)
    (hdone : ∀ call ∈ link.calls, ∃ outcome, call.phase = .done outcome) : current = none := by
  cases hcurrent : current with
  | none => rfl
  | some sent =>
    obtain ⟨call, hcall, hsent⟩ := h.sender sent.1 sent.2 hcurrent
    obtain ⟨outcome, hdone⟩ := hdone call (List.mem_of_getElem? hcall)
    cases hsent.symm.trans hdone

namespace Controller

/-- A controller that preempts nobody accepts every command for a robot that plays, with the right
key. -/
theorem serve_simulated {controller served : Controller} {key : String}
    {orders : List (RobotName × Command)}
    (hserved : Server.simulated.peer.serve key controller orders = served)
    (hplays : ∀ order ∈ orders, order.1 ∈ RobotName.all)
    (hkey : ∀ team, controller.keys.of team = key)
    (hfree : ∀ robot, preemption? controller.pitch robot = none) :
    served.received =
        controller.received ++ orders.map (fun order => ⟨order.1, order.2.reread.items⟩) ∧
      (∀ team, served.keys.of team = key) ∧ ∀ robot, preemption? served.pitch robot = none := by
  induction orders generalizing controller with
  | nil =>
    cases hserved
    exact ⟨(List.append_nil _).symm, hkey, hfree⟩
  | cons order more ih =>
    obtain ⟨horder, hmore⟩ := List.forall_mem_cons.1 hplays
    have hanswer := answer_encode order.2 horder (hkey order.1.team) (hfree order.1)
    let next := (controller.answer (Request.encode key order.1 order.2)).2
    have hnext : next = { controller with
        pitch := drive controller.pitch order.1 order.2.reread.keptVelocity
        received := controller.received ++ [⟨order.1, order.2.reread.items⟩] } :=
      congrArg Prod.snd hanswer
    have hstill (robot : RobotName) : preemption? next.pitch robot = none := by
      rw [hnext, preemption?, (drive_frame _ _ _).1]
      exact hfree robot
    have hserve : Server.simulated.peer.serve key next more = served := hserved
    obtain ⟨hreceived, hlast⟩ := ih hserve hmore (hnext ▸ hkey) hstill
    refine ⟨?_, hlast⟩
    rw [hreceived, hnext, List.map_cons, List.append_assoc]
    rfl

end Controller

namespace Mission

variable {peer : Peer σ} {strategy : Strategy μ} {pace : Stage.Pace} {mission : Mission σ μ}
  {link origin : Link σ} {k : Nat} {dropped : Option Nat} {before : List (RobotName × Command)}
  {turns : List Turn} {current : Option (Nat × Bytes)} {robot : RobotName}

/-- A turn behind the stop of a robot is for another robot or that of a stray call. -/
theorem Closed.stray_of_behind (h : Closed link origin dropped before turns current)
    (hrobot : RobotName.all[k]? = some robot) {stop turn : Turn}
    (hstop : stop.call = before.length + k) (hbehind : Link.InOrder origin dropped stop turn)
    (hturn : turn ∈ turns) {call : Call} (hcall : link.calls[turn.call]? = some call)
    (hsame : call.robot = robot) : Link.Stray origin dropped turn.call := by
  by_contra hkept
  have hle : before.length ≤ stop.call := hstop ▸ Nat.le_add_right _ _
  have hlt : stop.call < turn.call :=
    hbehind (.inl (h.origin_le.trans hle)) (fun hstray => Nat.not_lt.2 hle (h.lt_of_stray hstray)) hkept
  obtain ⟨other, hother⟩ := Nat.exists_eq_add_of_le (hle.trans hlt.le)
  have hknown := h.orderly.known turn hturn
  rw [h.length_calls, hother] at hknown
  have hget := List.getElem?_eq_getElem (Nat.lt_of_add_lt_add_left hknown)
  obtain ⟨found, hfound, horder⟩ := h.exists_call hget
  rw [← hother, hcall] at hfound
  obtain rfl := Option.some.inj hfound
  have hname : RobotName.all[other] = robot := (Prod.mk.inj horder).1.symm.trans hsame
  have hsame : k = other := (List.getElem?_inj (List.getElem?_eq_some_iff.1 hrobot).1
    (by decide : RobotName.all.Nodup)).1 (hrobot.trans (hget.trans (congrArg some hname)).symm)
  omega

/-- A task over a link on which nothing was called for, which has seen the ball and one robot. -/
def eager (far : σ) : Stage (Link σ) Unit :=
  .fresh { Client.fresh "" (.fresh "" far) with world := glimpse } () .empty []

/-- An outcome that is there is told. -/
theorem exists_take (mission : Mission σ μ) {id : Nat} {link : Link σ}
    {outcome : Except CommandError Outcome} (h : mission.link.take id = some (outcome, link)) :
    ∃ stage, mission.take id = some (outcome, ⟨stage, mission.place⟩) ∧ stage.client.far = link := by
  obtain ⟨call, hcall, -⟩ := Link.take_cases h
  exact ⟨_, take_eq mission hcall h, rfl⟩

/-- The second of two exchanges gets the link before the first asks for it. -/
def crossedWorks : List (Link.Work σ) :=
  [.proceed 1, .proceed 1, .answer, .proceed 1, .proceed 0, .proceed 1, .proceed 0, .answer,
    .proceed 0, .proceed 0]

/-- The far end then answers the second of them first. -/
theorem run_crossedWorks (peer : Peer σ) (key : String) (far : σ) (robot : RobotName)
    (command : Command) :
    ∃ (later : Link σ) (outcome told : Except CommandError Outcome),
      Link.run peer ⟨key, far, [⟨robot, command, .begun, .gone⟩, ⟨robot, .stop, .begun, .waiting⟩],
          [], [], [], [], []⟩ (crossedWorks.map .work) = some later ∧
        later.calls = [⟨robot, command, .done outcome, .gone⟩, ⟨robot, .stop, .done told, .waiting⟩] ∧
        later.key = key ∧ later.line = [] ∧ later.requests = [] ∧ later.replies = [] ∧
        later.far = peer.serve key far [(robot, .stop), (robot, command)] :=
  ⟨_, _, _, rfl, rfl, rfl, rfl, rfl, rfl, rfl⟩

/-- The loop is told to stop right after it has called for a command. The exchange of that command
asks for the link when the stop of its robot has it. -/
def overtakingActs : List (Act σ) :=
  [.go .zero, .go .zero, .stop, .go .zero] ++
    (crossedWorks.map .work ++ .go .zero :: closingActs 2 [.blue2, .green1, .green2])

/-- The velocity that turns a robot at the ball. -/
def turning : Velocity Float := (gotoStep (.of 0.0 0.0 0.0) (.of 0.0 0.0 1.0)).velocity

/-- What the far end answers when a command is overtaken by the stop of its robot. -/
theorem run_overtaking (peer : Peer σ) (far : σ) :
    ∃ mission : Mission σ Unit,
      (start (eager far)).run peer (.followBall [.blue1] 1.0) .polling overtakingActs = some mission ∧
        mission.place = .ended (.ok ()) ∧
        (∀ call ∈ mission.link.calls, ∃ outcome, call.phase = .done outcome) ∧
        mission.link.calls.map Call.order =
          (.blue1, .control turning) :: RobotName.all.map (fun robot => (robot, .stop)) ∧
        mission.link.far = peer.serve "" far [(.blue1, .stop), (.blue1, .control turning),
          (.blue2, .stop), (.green1, .stop), (.green2, .stop)] := by
  obtain ⟨begun, hbegun, hlink⟩ : ∃ begun : Stage (Link σ) Unit,
      (start (eager far)).run peer (.followBall [.blue1] 1.0) .polling
          [.go .zero, .go .zero, .stop, .go .zero] =
        some ⟨begun, .stopping 1 [.blue2, .green1, .green2] (.ok ())⟩ ∧
      begun.client.far = ⟨"", far, [⟨.blue1, .control turning, .begun, .gone⟩,
        ⟨.blue1, .stop, .begun, .waiting⟩], [], [], [], [], []⟩ := ⟨_, rfl, rfl⟩
  obtain ⟨crossed, outcome, told, hcrossed, hcalls, hkey, hline, hrequests, hreplies, hfar⟩ :=
    run_crossedWorks peer "" far .blue1 (.control turning)
  rw [← hlink] at hcrossed
  let calls : List Call := [⟨.blue1, .control turning, .done outcome, .gone⟩,
    ⟨.blue1, .stop, .done told, .told told⟩]
  let served : Mission σ Unit := ⟨begun, .stopping 1 [.blue2, .green1, .green2] (.ok ())⟩
  have hworks : served.run peer (.followBall [.blue1] 1.0) .polling (crossedWorks.map .work) =
      some (served.setLink crossed) := run_works hcrossed
  have htake : crossed.take 1 = some (told, { crossed with calls := calls }) := by
    simp [Link.take, Link.setCall, hcalls, calls]
  obtain ⟨stopped, hstopped, hafter⟩ := exists_take (served.setLink crossed) htake
  have hgo : (served.setLink crossed).go (.followBall [.blue1] 1.0) .polling .zero =
      some ⟨stopped, .closing [.blue2, .green1, .green2] (.ok ())⟩ := by
    change Option.map _ ((served.setLink crossed).take 1) = _
    rw [hstopped]
    rfl
  obtain ⟨mission, hclosing, hended, hlast, stops, hstops, horders, hdone⟩ :=
    run_closing peer (.followBall [.blue1] 1.0) .polling stopped [.blue2, .green1, .green2] (.ok ())
      (hafter ▸ hline) (hafter ▸ hrequests) (hafter ▸ hreplies)
  have hcount : stopped.client.far.calls.length = 2 := by
    rw [hafter]
    rfl
  rw [hcount] at hclosing
  rw [hafter] at hlast hstops
  refine ⟨mission, ?_, hended, ?_, ?_, ?_⟩
  · rw [overtakingActs, run_append, hbegun, Option.bind_some, run_append, hworks, Option.bind_some,
      run, happen, hgo, Option.bind_some, hclosing]
  · rw [hstops]
    exact List.forall_mem_cons.2 ⟨⟨outcome, rfl⟩, List.forall_mem_cons.2 ⟨⟨told, rfl⟩, hdone⟩⟩
  · rw [hstops, List.map_append, horders]
    rfl
  · rw [hlast, hkey, hfar]
    rfl

/-- After any run of a mission that has come to its end, when every exchange is done, whatever went on
over the link before: what the far end answered behind the stop of a robot and was for that robot is
of exchanges that were under way when the mission began, or of the command that was called for last
before the stops, which the loop left when it was told to stop. -/
theorem overtaking_law {key : String} {far : σ} {acts : List (Link.Act σ)} {stage : Stage (Link σ) μ}
    {more : List (Act σ)} {result : Except SessionError Unit}
    (hlink : (Link.fresh key far).run peer acts = some stage.client.far)
    (hrun : (start stage).run peer strategy pace more = some mission)
    (hended : mission.place = .ended result)
    (hdone : ∀ call ∈ mission.link.calls, ∃ outcome, call.phase = .done outcome) :
    ∃ (wanted : List (RobotName × Command)) (left : Option Nat) (turns : List Turn),
      mission.link.calls.map Call.order =
          wanted ++ RobotName.all.map (fun robot => (robot, Command.stop)) ∧
        mission.link.traffic = turns.flatMap Turn.traffic ∧
        mission.link.served = turns.map Turn.service ∧
        (∀ id, left = some id → id + 1 = wanted.length ∧
          ∃ call, mission.link.calls[id]? = some call ∧ call.caller = .gone) ∧
        ∀ robot ∈ RobotName.all, ∃ earlier stop later, turns = earlier ++ stop :: later ∧
          stop.request = Request.encode key robot .stop ∧
          ∀ turn ∈ later, ∀ call, mission.link.calls[turn.call]? = some call →
            call.robot = robot → stage.client.far.Pending turn.call ∨ left = some turn.call := by
  obtain ⟨dropped, hsound⟩ := exists_sound hlink hrun
  obtain ⟨wanted, turns, current, hclosed⟩ := hsound.exists_closed hended
  obtain rfl := hclosed.orderly.current_of_done hdone
  have hserved : mission.link.served = turns.map Turn.service := by
    cases hclosed.orderly.wire with
    | idle _ _ _ hserved => exact hserved
  refine ⟨wanted, dropped, turns, hclosed.order, ?_, hserved, fun id hid => ?_, fun robot hrobot => ?_⟩
  · exact hclosed.orderly.traffic_eq.trans (List.append_nil _)
  · exact ⟨hclosed.last id hid, hclosed.attended.gone id hid⟩
  · obtain ⟨k, hk⟩ := List.mem_iff_getElem?.1 hrobot
    obtain ⟨message, hstop⟩ := hclosed.exists_turn hk
    obtain ⟨earlier, later, hturns⟩ := List.append_of_mem hstop
    have hkey : mission.link.key = key := hclosed.attended.key.trans (Link.key_of_run hlink)
    refine ⟨earlier, _, later, hturns, hkey ▸ rfl, fun turn hturn call hcall hsame => ?_⟩
    have hsorted := hclosed.attended.sorted
    rw [hturns] at hsorted
    have hbehind := List.rel_of_pairwise_cons (List.pairwise_append.1 hsorted).2.1 hturn
    have hmem : turn ∈ turns := by
      rw [hturns]
      exact List.mem_append_right _ (List.mem_cons_of_mem _ hturn)
    exact hclosed.stray_of_behind hk rfl hbehind hmem hcall hsame

/-- The command that overtook the stop is the one that the loop left. -/
theorem overtaking_left : ∃ mission : Mission Controller Unit,
    (start (eager (.fresh ⟨"", ""⟩))).run Server.simulated.peer (.followBall [.blue1] 1.0) .polling
        overtakingActs = some mission ∧
      mission.place = .ended (.ok ()) ∧
      (∀ call ∈ mission.link.calls, ∃ outcome, call.phase = .done outcome) ∧
      ∃ turns : List Turn, mission.link.served = turns.map Turn.service ∧
        ∃ earlier stop later, turns = earlier ++ stop :: later ∧
          stop.request = Request.encode "" .blue1 .stop ∧
          ∀ turn ∈ later, ∀ call, mission.link.calls[turn.call]? = some call →
            call.robot = .blue1 → turn.call = 0 := by
  obtain ⟨mission, hrun, hended, hdone, horders, -⟩ :=
    run_overtaking Server.simulated.peer (.fresh ⟨"", ""⟩)
  have hlink : (Link.fresh "" (.fresh ⟨"", ""⟩)).run Server.simulated.peer [] =
      some (eager (.fresh ⟨"", ""⟩)).client.far := rfl
  obtain ⟨wanted, left, turns, hcalls, -, hserved, hleft, hrobots⟩ :=
    overtaking_law hlink hrun hended hdone
  obtain rfl : wanted = [(.blue1, .control turning)] :=
    (List.append_cancel_right (horders.symm.trans hcalls)).symm
  obtain ⟨earlier, stop, later, hturns, hstop, hlater⟩ := hrobots .blue1 List.mem_cons_self
  refine ⟨mission, hrun, hended, hdone, turns, hserved, earlier, stop, later, hturns, hstop, ?_⟩
  intro turn hturn call hcall hsame
  rcases hlater turn hturn call hcall hsame with ⟨pending, hpending, -⟩ | hdropped
  · cases hpending
  · exact Nat.succ.inj (hleft _ hdropped).1

/-- The simulated controller then accepts the stop of the robot first and the command that it
overtook last: the mission ends, and the robot goes on turning. -/
theorem overtaken_stop :
    (∀ name, (Strategy.followBall [.blue1] 1.0).Names name → name ∈ RobotName.all) ∧
    ∃ mission : Mission Controller Unit,
      (start (eager (.fresh ⟨"", ""⟩))).run Server.simulated.peer (.followBall [.blue1] 1.0) .polling
          overtakingActs = some mission ∧
        mission.place = .ended (.ok ()) ∧
        (∀ call ∈ mission.link.calls, ∃ outcome, call.phase = .done outcome) ∧
        (∀ team, mission.link.far.keys.of team = "") ∧
        (∀ robot, Controller.preemption? mission.link.far.pitch robot = none) ∧
        mission.link.far.received.reverse.find? (fun received => received.robot = .blue1) =
          some ⟨.blue1, (Command.control turning).reread.items⟩ ∧
        turning.reread.turn = 1.5 := by
  refine ⟨?_, ?_⟩
  · rintro name (⟨memory, rfl⟩ | ⟨memory, ⟨ball, robots⟩, time, order, horder, rfl⟩)
    · exact List.mem_cons_self
    · cases ball with
      | none => cases horder
      | some ball =>
        obtain rfl := List.mem_singleton.1 horder
        exact List.mem_cons_self
  obtain ⟨mission, hrun, hended, hdone, -, hfar⟩ :=
    run_overtaking Server.simulated.peer (.fresh ⟨"", ""⟩)
  obtain ⟨hreceived, hkeys, hfree⟩ := Controller.serve_simulated hfar.symm (by decide)
    (fun team => by cases team <;> rfl) (fun _ => rfl)
  refine ⟨mission, hrun, hended, hdone, hkeys, hfree, ?_, by decide +kernel⟩
  rw [hreceived]
  rfl

end Mission

end RobotSoccer
