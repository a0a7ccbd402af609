import RobotSoccer.Proofs.Session.Attended

/-!
# What missions call for

The invariant of missions: while the loop goes on every command but the one that is waited for is
done; when it is over, the stops of the robots were called for one after the other behind all that
the strategy wanted.
-/

namespace RobotSoccer

variable {σ μ : Type}

/-- A look for news does nothing to the far end. -/
theorem Client.far_nextUpdate (client : Client σ) : client.nextUpdate.2.far = client.far := by
  unfold nextUpdate
  cases client.unseen with
  | true => rfl
  | false =>
    cases client.closed with
    | true => rfl
    | false => rfl

/-- A frame does nothing to the far end. -/
theorem Client.far_receive (client : Client σ) (frame : Bytes) :
    (client.receive frame).far = client.far := by
  unfold receive
  cases client.closed with
  | true => rfl
  | false =>
    cases client.world.receiveFrame frame client.updates with
    | error fault => rfl
    | ok world => rfl

namespace Stage

/-- Drawing a robot changes nothing but the drawings. -/
theorem drawRobot_frame (stage : Stage σ μ) (entry : RobotName × RobotView) :
    stage.drawRobot entry = { stage with
      drawings := (stage.drawRobot entry).drawings
      pool := (stage.drawRobot entry).pool } := by
  unfold drawRobot
  cases entry.2.pose with
  | none => rfl
  | some pose => rfl

/-- Drawing the ball changes nothing but the drawings. -/
theorem drawBall_frame (stage : Stage σ μ) :
    stage.drawBall =
      { stage with drawings := stage.drawBall.drawings, pool := stage.drawBall.pool } := by
  unfold drawBall
  cases stage.client.world.ball with
  | none => rfl
  | some position => rfl

/-- Drawing what is seen changes nothing but the drawings. -/
theorem drawSeen_frame (stage : Stage σ μ) :
    stage.drawSeen =
      { stage with drawings := stage.drawSeen.drawings, pool := stage.drawSeen.pool } := by
  refine List.foldlRecOn (motive := fun drawn : Stage σ μ =>
    drawn = { stage with drawings := drawn.drawings, pool := drawn.pool }) _ _ stage.drawBall_frame ?_
  intro drawn ih entry _
  have hstage := congrArg (fun other : Stage σ μ => { other with
    drawings := (drawn.drawRobot entry).drawings, pool := (drawn.drawRobot entry).pool }) ih
  exact (drawn.drawRobot_frame entry).trans hstage

/-- Drawing a robot does nothing to the client. -/
theorem client_drawRobot (stage : Stage σ μ) (entry : RobotName × RobotView) :
    (stage.drawRobot entry).client = stage.client := by
  rw [drawRobot_frame]

/-- Drawing the ball does nothing to the client. -/
theorem client_drawBall (stage : Stage σ μ) : stage.drawBall.client = stage.client := by
  rw [drawBall_frame]

/-- Drawing what is seen does nothing to the client. -/
theorem client_drawSeen (stage : Stage σ μ) : stage.drawSeen.client = stage.client := by
  rw [drawSeen_frame]

/-- Drawing what is seen is nothing to the strategy. -/
theorem memory_drawSeen (stage : Stage σ μ) : stage.drawSeen.memory = stage.memory := by
  rw [drawSeen_frame]

/-- A step begins with one question to the strategy. -/
theorem begin_eq (strategy : Strategy μ) (time : Duration) (stage : Stage σ μ) :
    stage.begin strategy time =
      ((strategy.plan stage.memory stage.client.world.snapshot time).1, { stage.drawSeen with
        memory := (strategy.plan stage.memory stage.client.world.snapshot time).2 }) := by
  rw [begin, ask, stage.memory_drawSeen]

/-- The beginning of a step does nothing to the client. -/
theorem client_begin (strategy : Strategy μ) (time : Duration) (stage : Stage σ μ) :
    (stage.begin strategy time).2.client = stage.client := stage.client_drawSeen

/-- The line about the watched robot is shown, and does nothing to the client, unless that robot does
not play. -/
theorem showWatched_cases (strategy : Strategy μ) (stage : Stage σ μ) :
    (strategy.watched stage.memory ∉ RobotName.all ∧
      stage.showWatched strategy = (.error (.stranger (strategy.watched stage.memory)), stage)) ∨
    ∃ shown, stage.showWatched strategy = (.ok (), shown) ∧ shown.client = stage.client := by
  have hrobot := Roster.isSome_get? stage.client.world.robots (strategy.watched stage.memory)
  unfold showWatched World.robot?
  dsimp only
  cases hview : stage.client.world.robots.get? (strategy.watched stage.memory) with
  | none =>
    rw [hview] at hrobot
    exact .inl ⟨fun hmem => Bool.false_ne_true (hrobot.2 hmem), rfl⟩
  | some view => exact .inr ⟨_, rfl, rfl⟩

/-- Showing the line about the watched robot changes nothing but what is shown. -/
theorem showWatched_frame (strategy : Strategy μ) (stage : Stage σ μ) :
    (stage.showWatched strategy).2 =
      { stage with printed := (stage.showWatched strategy).2.printed } := by
  unfold showWatched
  dsimp only
  cases stage.client.world.robot? (strategy.watched stage.memory) with
  | none => rfl
  | some view => rfl

end Stage

/-- A strategy names a robot when it may watch it or give an order for it. -/
def Strategy.Names (strategy : Strategy μ) (name : RobotName) : Prop :=
  (∃ memory, strategy.watched memory = name) ∨
    ∃ memory seen time, ∃ order ∈ (strategy.plan memory seen time).1, order.robot = name

namespace Mission

variable {peer : Peer σ} {strategy : Strategy μ} {pace : Stage.Pace} {mission next : Mission σ μ}
  {origin : Link σ} {dropped : Option Nat} {id : Nat}

/-- What was called for over a link ends with the stops of the robots but for those that are left. A
dropped exchange is the last before the stops. -/
def Issued (link origin : Link σ) (dropped : Option Nat) (left : List RobotName) : Prop :=
  ∃ before stopped, stopped ++ left = RobotName.all ∧
    link.calls.map Call.order = before ++ stopped.map (fun robot => (robot, Command.stop)) ∧
    origin.calls.length ≤ before.length ∧ ∀ id, dropped = some id → id + 1 = before.length

/-- How the place of a mission goes with what was called for, and with what its strategy may name. -/
def Agrees (strategy : Strategy μ) (link origin : Link σ) (dropped : Option Nat) : Place → Prop
  | .pausing => dropped = none
  | .carrying orders => dropped = none ∧ ∀ order ∈ orders, strategy.Names order.robot
  | .stepping _ _ order more | .resting order more | .arriving _ order more =>
    dropped = none ∧ ∀ other ∈ order :: more, strategy.Names other.robot
  | .closing robots _ | .stopping _ robots _ => Issued link origin dropped robots
  | .ended _ => Issued link origin dropped []
  | .crashed name => dropped = none ∧ name ∉ RobotName.all ∧ strategy.Names name

/-- A link on which every exchange is done but for stray ones and one that is waited for. -/
def Waits (link origin : Link σ) (dropped awaited : Option Nat) : Prop :=
  ∃ turns current, Link.Orderly link turns current ∧ Link.Attended link turns origin dropped awaited

/-- A mission that has called for what its place says. -/
structure Sound (strategy : Strategy μ) (mission : Mission σ μ) (origin : Link σ)
    (dropped : Option Nat) : Prop where
  /-- Every exchange is done but for the stray ones and the one that is waited for. -/
  waits : Waits mission.link origin dropped mission.place.awaited
  /-- What was called for goes with the place. -/
  agrees : Agrees strategy mission.link origin dropped mission.place

/-- A new call is waited for. -/
theorem Waits.of_call {link : Link σ} (h : Waits link origin dropped none) (robot : RobotName)
    (command : Command) : Waits (link.call robot command) origin dropped (some link.calls.length) := by
  obtain ⟨turns, current, horderly, hattended⟩ := h
  exact ⟨turns, current, horderly.of_call robot command, hattended.of_call robot command⟩

/-- When an outcome is told nothing is waited for. -/
theorem Waits.of_take {link later : Link σ} (h : Waits link origin dropped (some id))
    {outcome : Except CommandError Outcome} (htake : link.take id = some (outcome, later)) :
    Waits later origin dropped none := by
  obtain ⟨turns, current, horderly, hattended⟩ := h
  obtain ⟨call, hcall, hdone, -, heq⟩ := Link.take_cases htake
  refine ⟨turns, current, heq ▸ horderly.of_caller hcall fun told htold => ?_,
    hattended.of_take htake⟩
  cases htold
  exact hdone

/-- What is waited for is dropped when its caller leaves. It is the last so far. -/
theorem Waits.of_leave {link later : Link σ} (h : Waits link origin none (some id))
    (hleave : link.leave id = some later) :
    Waits later origin (some id) none ∧ id + 1 = link.calls.length := by
  obtain ⟨turns, current, horderly, hattended⟩ := h
  obtain ⟨call, hcall, -, heq⟩ := Link.leave_cases hleave
  exact ⟨⟨turns, current, heq ▸ horderly.of_caller hcall nofun, hattended.of_leave hleave⟩,
    hattended.last id rfl⟩

/-- Work keeps waited for what was. -/
theorem Waits.of_perform {link later : Link σ} {awaited : Option Nat} (h : Waits link origin dropped awaited)
    {work : Link.Work σ} (hwork : link.perform peer work = some later) :
    Waits later origin dropped awaited := by
  obtain ⟨turns, current, horderly, hattended⟩ := h
  exact hattended.of_perform horderly hwork

/-- What was called for matters to a place, and nothing else of the link. -/
theorem Agrees.of_order {link later : Link σ} {place : Place}
    (h : Agrees strategy link origin dropped place)
    (horder : later.calls.map Call.order = link.calls.map Call.order) :
    Agrees strategy later origin dropped place := by
  unfold Agrees Issued at h ⊢
  rw [horder]
  exact h

/-- A loop that is over while nothing is waited for has called for no stop yet. -/
theorem Sound.of_halt {halt : Halt} (h : Waits mission.link origin dropped none)
    (hlast : ∀ id, dropped = some id → id + 1 = mission.link.calls.length)
    (hname : ∀ name, halt = .stranger name →
      dropped = none ∧ name ∉ RobotName.all ∧ strategy.Names name) :
    Sound strategy (mission.halt halt) origin dropped := by
  have hissued : Issued mission.link origin dropped RobotName.all := by
    obtain ⟨turns, current, -, hattended⟩ := h
    refine ⟨mission.link.calls.map Call.order, [], rfl, (List.append_nil _).symm, ?_⟩
    rw [List.length_map]
    exact ⟨hattended.origin_le, hlast⟩
  cases halt with
  | stranger name => exact ⟨h, hname name rfl⟩
  | error cause => exact ⟨h, hissued⟩
  | stopped => exact ⟨h, hissued⟩

/-- Nothing has been dropped while the loop goes on. -/
theorem Sound.of_halt_loop {halt : Halt} (h : Waits mission.link origin none none)
    (hname : ∀ name, halt = .stranger name → name ∉ RobotName.all ∧ strategy.Names name) :
    Sound strategy (mission.halt halt) origin none :=
  .of_halt h nofun fun name hhalt => ⟨rfl, hname name hhalt⟩

/-- A step that begins calls for nothing. -/
theorem Sound.of_begin (h : Waits mission.link origin none none) (time : Duration) :
    Sound strategy (mission.begin strategy time) origin none := by
  have hclient : (mission.begin strategy time).link = mission.link :=
    congrArg Client.far (mission.stage.client_begin strategy time)
  exact ⟨hclient.symm ▸ h, rfl, fun order horder => .inr ⟨_, _, _, order, horder, rfl⟩⟩

variable {order : GotoOrder} {more : List GotoOrder}

/-- A step of an order calls for one command or ends the loop. -/
theorem Sound.of_advance (h : Waits mission.link origin none none)
    (hnamed : ∀ other ∈ order :: more, strategy.Names other.robot) :
    Sound strategy (mission.advance order more) origin none := by
  unfold advance
  cases hstep : mission.stage.client.world.stepTo order.robot order.target with
  | error halt =>
    obtain ⟨hstranger, rfl⟩ | rfl := World.stepTo_error hstep
    · refine .of_halt_loop h fun name hname => ?_
      obtain rfl := Halt.stranger.inj hname
      exact ⟨hstranger, hnamed order List.mem_cons_self⟩
    · exact .of_halt_loop h nofun
  | ok step => exact ⟨h.of_call order.robot (.control step.velocity), rfl, hnamed⟩

/-- What follows an order calls for nothing. -/
theorem Sound.of_fulfil (h : Waits mission.link origin none none)
    (hnamed : ∀ other ∈ order :: more, strategy.Names other.robot) :
    Sound strategy (mission.fulfil order more) origin none :=
  ⟨h, rfl, List.forall_mem_of_forall_mem_cons hnamed⟩

/-- What follows a step of an order calls for a stop at most. -/
theorem Sound.of_stepped (h : Waits mission.link origin none none) (arrived : Bool)
    (hnamed : ∀ other ∈ order :: more, strategy.Names other.robot)
    (outcome : Except CommandError Outcome) :
    Sound strategy (mission.stepped arrived order more outcome) origin none := by
  unfold stepped
  cases outcome with
  | error cause => exact .of_halt_loop h nofun
  | ok outcome =>
    cases order.wait with
    | false => exact .of_fulfil h hnamed
    | true =>
      cases arrived with
      | true => exact ⟨h.of_call order.robot .stop, rfl, hnamed⟩
      | false => exact ⟨h, rfl, hnamed⟩

/-- What follows the stop of an order calls for nothing. -/
theorem Sound.of_arrived (h : Waits mission.link origin none none)
    (hnamed : ∀ other ∈ order :: more, strategy.Names other.robot)
    (outcome : Except CommandError Outcome) :
    Sound strategy (mission.arrived order more outcome) origin none := by
  unfold arrived
  cases outcome with
  | error cause => exact .of_halt_loop h nofun
  | ok outcome => exact .of_fulfil h hnamed

/-- The stop of the next robot is called for. -/
theorem Issued.of_call {link : Link σ} {robot : RobotName} {more : List RobotName}
    (h : Issued link origin dropped (robot :: more)) : Issued (link.call robot .stop) origin dropped more := by
  obtain ⟨before, stopped, hall, horder, hlast⟩ := h
  refine ⟨before, stopped ++ [robot], ?_, ?_, hlast⟩
  · rw [List.append_assoc]
    exact hall
  · rw [Link.call, List.map_append, horder, List.map_append, List.append_assoc]
    rfl

/-- The link after an outcome was told. -/
theorem take_cases {outcome : Except CommandError Outcome} (h : mission.take id = some (outcome, next)) :
    mission.link.take id = some (outcome, next.link) ∧ next.place = mission.place ∧
      next.stage.client.world = mission.stage.client.world := by
  unfold take at h
  cases hcall : mission.link.calls[id]? with
  | none => rw [hcall] at h; cases h
  | some call =>
    cases htake : mission.link.take id with
    | none => rw [hcall, htake] at h; cases h
    | some taken =>
      rw [hcall, htake] at h
      obtain ⟨rfl, rfl⟩ := Prod.mk.inj (Option.some.inj h)
      exact ⟨rfl, rfl, rfl⟩

/-- The task that goes on keeps a mission sound. -/
theorem Sound.of_go (h : Sound strategy mission origin dropped) {time : Duration}
    (hgo : mission.go strategy pace time = some next) : ∃ dropped, Sound strategy next origin dropped := by
  obtain ⟨stage, place⟩ := mission
  obtain ⟨hwaits, hagrees⟩ := h
  cases place with
  | pausing =>
    obtain rfl := hagrees
    cases pace with
    | polling =>
      obtain rfl := Option.some.inj hgo
      exact ⟨none, .of_begin hwaits time⟩
    | onUpdate =>
      have hfar := stage.client.far_nextUpdate
      dsimp only [go] at hgo
      cases hnews : stage.client.nextUpdate with
      | mk news client =>
        rw [hnews] at hgo hfar
        have hclient : Waits client.far origin none none := hfar.symm ▸ hwaits
        cases news with
        | fresh =>
          obtain rfl := Option.some.inj hgo
          have hmission : Waits (Mission.setClient ⟨stage, .pausing⟩ client).link origin none none := hclient
          exact ⟨none, .of_begin hmission time⟩
        | ended =>
          obtain rfl := Option.some.inj hgo
          exact ⟨none, .of_halt_loop hclient nofun⟩
        | pending => cases hgo
  | carrying orders =>
    obtain ⟨rfl, hnamed⟩ := hagrees
    cases orders with
    | nil =>
      rcases stage.showWatched_cases strategy with ⟨hname, hshown⟩ | ⟨shown, hshown, hclient⟩
      · dsimp only [go] at hgo
        rw [hshown] at hgo
        obtain rfl := Option.some.inj hgo
        refine ⟨none, .of_halt_loop hwaits fun name hwatched => ?_⟩
        obtain rfl := Halt.stranger.inj hwatched
        exact ⟨hname, .inl ⟨_, rfl⟩⟩
      · dsimp only [go] at hgo
        rw [hshown] at hgo
        obtain rfl := Option.some.inj hgo
        have hlink : Waits shown.client.far origin none none := hclient.symm ▸ hwaits
        exact ⟨none, hlink, rfl⟩
    | cons order more =>
      obtain rfl := Option.some.inj hgo
      exact ⟨none, .of_advance hwaits hnamed⟩
  | stepping id arrived order more =>
    obtain ⟨rfl, hnamed⟩ := hagrees
    obtain ⟨⟨outcome, told⟩, htake, rfl⟩ := Option.map_eq_some_iff.1 hgo
    exact ⟨none, .of_stepped (hwaits.of_take (take_cases htake).1) arrived hnamed outcome⟩
  | resting order more =>
    obtain ⟨rfl, hnamed⟩ := hagrees
    obtain rfl := Option.some.inj hgo
    exact ⟨none, hwaits, rfl, hnamed⟩
  | arriving id order more =>
    obtain ⟨rfl, hnamed⟩ := hagrees
    obtain ⟨⟨outcome, told⟩, htake, rfl⟩ := Option.map_eq_some_iff.1 hgo
    exact ⟨none, .of_arrived (hwaits.of_take (take_cases htake).1) hnamed outcome⟩
  | closing robots result =>
    cases robots with
    | nil =>
      obtain rfl := Option.some.inj hgo
      exact ⟨dropped, hwaits, hagrees⟩
    | cons robot more =>
      obtain rfl := Option.some.inj hgo
      exact ⟨dropped, hwaits.of_call robot .stop, hagrees.of_call⟩
  | stopping id robots result =>
    obtain ⟨⟨outcome, told⟩, htake, rfl⟩ := Option.map_eq_some_iff.1 hgo
    have htaken := (take_cases htake).1
    obtain ⟨call, hcall, -, -, hlater⟩ := Link.take_cases htaken
    refine ⟨dropped, hwaits.of_take htaken, Agrees.of_order hagrees ?_⟩
    change told.link.calls.map Call.order = _
    rw [hlater]
    exact Link.map_order_set hcall rfl
  | ended result => cases hgo
  | crashed name => cases hgo

/-- The loop that is told to stop leaves a mission sound. -/
theorem Sound.of_stop (h : Sound strategy mission origin dropped) (hstop : mission.stop = some next) :
    ∃ dropped, Sound strategy next origin dropped := by
  obtain ⟨stage, place⟩ := mission
  obtain ⟨hwaits, hagrees⟩ := h
  have hleave {id : Nat} (hwaits : Waits stage.client.far origin none (some id))
      (hstop : (stage.client.far.leave id).map (fun link =>
        ((⟨stage, place⟩ : Mission σ μ).setLink link).halt .stopped) = some next) :
      ∃ dropped, Sound strategy next origin dropped := by
    obtain ⟨later, hlater, rfl⟩ := Option.map_eq_some_iff.1 hstop
    obtain ⟨hlink, hlast⟩ := hwaits.of_leave hlater
    obtain ⟨call, -, -, heq⟩ := Link.leave_cases hlater
    refine ⟨some id, .of_halt hlink (fun other hother => ?_) nofun⟩
    change other + 1 = later.calls.length
    rw [heq, Link.setCall, List.length_set]
    exact Option.some.inj hother ▸ hlast
  cases place with
  | pausing =>
    obtain rfl := hagrees
    exact Option.some.inj hstop ▸ ⟨none, .of_halt_loop hwaits nofun⟩
  | carrying orders =>
    obtain ⟨rfl, hnamed⟩ := hagrees
    exact Option.some.inj hstop ▸ ⟨none, .of_halt_loop hwaits nofun⟩
  | resting order more =>
    obtain ⟨rfl, hnamed⟩ := hagrees
    exact Option.some.inj hstop ▸ ⟨none, .of_halt_loop hwaits nofun⟩
  | stepping id arrived order more =>
    obtain ⟨rfl, hnamed⟩ := hagrees
    exact hleave hwaits hstop
  | arriving id order more =>
    obtain ⟨rfl, hnamed⟩ := hagrees
    exact hleave hwaits hstop
  | closing => cases hstop
  | stopping => cases hstop
  | ended => cases hstop
  | crashed => cases hstop

/-- Whatever happens keeps a mission sound. -/
theorem Sound.of_happen (h : Sound strategy mission origin dropped) {act : Act σ}
    (hact : mission.happen peer strategy pace act = some next) : ∃ dropped, Sound strategy next origin dropped := by
  cases act with
  | work work =>
    obtain ⟨later, hwork, rfl⟩ := Option.map_eq_some_iff.1 hact
    refine ⟨dropped, h.waits.of_perform hwork, h.agrees.of_order ?_⟩
    have hhappen : mission.link.happen peer (.work work) = some later := hwork
    exact (Link.map_order_of_happen hhappen).trans (List.append_nil _)
  | frame bytes =>
    obtain rfl := Option.some.inj hact
    have hfar := mission.stage.client.far_receive bytes
    have hwaits : Waits (mission.stage.client.receive bytes).far origin dropped
        mission.place.awaited := hfar.symm ▸ h.waits
    have hagrees : Agrees strategy (mission.stage.client.receive bytes).far origin dropped mission.place :=
      hfar.symm ▸ h.agrees
    exact ⟨dropped, hwaits, hagrees⟩
  | lose =>
    obtain rfl := Option.some.inj hact
    exact ⟨dropped, h.waits, h.agrees⟩
  | go time => exact h.of_go hact
  | stop => exact h.of_stop hact

/-- A mission is sound at its start and after any run, whatever went on over the link before. -/
theorem exists_sound {key : String} {far : σ} {before : List (Link.Act σ)} {stage : Stage (Link σ) μ}
    {acts : List (Act σ)} (hlink : (Link.fresh key far).run peer before = some stage.client.far)
    (hrun : (start stage).run peer strategy pace acts = some mission) :
    ∃ dropped, Sound strategy mission stage.client.far dropped := by
  refine run_keeps (fun mission => ∃ dropped, Sound strategy mission stage.client.far dropped)
    (fun _ _ _ hact ⟨_, hsound⟩ => hsound.of_happen hact) hrun ?_
  obtain ⟨turns, current, horderly⟩ := Link.exists_orderly hlink
  refine ⟨none, ⟨turns, current, horderly, ?_⟩, rfl⟩
  refine ⟨rfl, fun id call hcall hkept _ => ?_, Nat.le_refl _, nofun, nofun, ?_⟩
  · by_contra hpending
    exact hkept (.inl ⟨call, hcall, not_exists.1 hpending⟩)
  · refine List.pairwise_of_forall_mem_list fun before hbefore after hafter hsince _ _ => ?_
    have hlt := horderly.known before hbefore
    have hafterLt := horderly.known after hafter
    omega

end Mission

end RobotSoccer
