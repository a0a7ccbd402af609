import RobotSoccer.Proofs.Session.Closing
import RobotSoccer.Proofs.Session.Counted
import RobotSoccer.Proofs.Session.Intake
import RobotSoccer.Proofs.Session.Missions
import RobotSoccer.Session.Tasks

/-!
# How many packets a strategy is asked about

A loop that is paced by news asks its strategy once for each look that finds news. So of packets that
are announced before the loop looks again all but the last are overtaken, and news from before the loop
are looked at as well. But for these two the strategy is asked once for each packet.
-/

namespace RobotSoccer

variable {σ μ : Type}

namespace Mission

variable {strategy : Strategy μ} {mission next : Mission σ μ} {time : Duration}

/-- What the strategy remembers, the count of packets, and whether one of them is news. -/
def tidings (mission : Mission σ μ) : μ × Nat × Bool :=
  (mission.stage.memory, mission.stage.client.updates, mission.stage.client.unseen)

/-- The tidings stay what they are when the loop is over. -/
theorem tidings_halt (mission : Mission σ μ) (halt : Halt) :
    (mission.halt halt).tidings = mission.tidings := by
  cases halt <;> rfl

/-- The tidings stay what they are when an outcome is told. -/
theorem tidings_take {id : Nat} {outcome : Except CommandError Outcome}
    (h : mission.take id = some (outcome, next)) : next.tidings = mission.tidings := by
  unfold take at h
  cases hcall : mission.link.calls[id]? with
  | none => rw [hcall] at h; cases h
  | some call =>
    cases htake : mission.link.take id with
    | none => rw [hcall, htake] at h; cases h
    | some taken =>
      rw [hcall, htake] at h
      obtain ⟨rfl, rfl⟩ := Prod.mk.inj (Option.some.inj h)
      rfl

/-- The tidings stay what they are when an order is begun. -/
theorem tidings_advance (mission : Mission σ μ) (order : GotoOrder) (more : List GotoOrder) :
    (mission.advance order more).tidings = mission.tidings := by
  unfold advance
  cases mission.stage.client.world.stepTo order.robot order.target with
  | error halt => exact mission.tidings_halt halt
  | ok step => rfl

/-- The tidings stay what they are when a step of an order has an outcome. -/
theorem tidings_stepped (mission : Mission σ μ) (arrived : Bool) (order : GotoOrder) (more : List GotoOrder)
    (outcome : Except CommandError Outcome) :
    (mission.stepped arrived order more outcome).tidings = mission.tidings := by
  cases outcome with
  | error cause => exact mission.tidings_halt _
  | ok outcome =>
    unfold stepped
    dsimp only
    cases order.wait with
    | false => rfl
    | true => cases arrived <;> rfl

/-- The tidings stay what they are when a robot was stopped where its order brought it. -/
theorem tidings_arrived (mission : Mission σ μ) (order : GotoOrder) (more : List GotoOrder)
    (outcome : Except CommandError Outcome) :
    (mission.arrived order more outcome).tidings = mission.tidings := by
  cases outcome with
  | error cause => exact mission.tidings_halt _
  | ok outcome => rfl

/-- A step begins with one question to the strategy. -/
theorem tidings_begin (mission : Mission σ μ) (time : Duration) :
    (mission.begin strategy time).tidings =
      ((strategy.plan mission.stage.memory mission.stage.client.world.snapshot time).2,
        mission.stage.client.updates, mission.stage.client.unseen) := by
  rw [Mission.begin, mission.stage.begin_eq, tidings]
  dsimp only
  rw [mission.stage.client_drawSeen]

/-- The task that goes on looks at the news and asks the strategy, or leaves the tidings what they
are. -/
theorem tidings_go (h : mission.go strategy .onUpdate time = some next) :
    (mission.stage.client.unseen = true ∧
      next.tidings = ((strategy.plan mission.stage.memory mission.stage.client.world.snapshot time).2,
        mission.stage.client.updates, false)) ∨
    next.tidings = mission.tidings := by
  obtain ⟨stage, place⟩ := mission
  cases place with
  | pausing =>
    dsimp only [go, Client.nextUpdate] at h
    cases hunseen : stage.client.unseen with
    | true =>
      rw [hunseen, if_pos rfl] at h
      obtain rfl := Option.some.inj h
      exact .inl ⟨rfl, tidings_begin _ time⟩
    | false =>
      rw [hunseen, if_neg Bool.false_ne_true] at h
      cases hclosed : stage.client.closed with
      | true =>
        rw [hclosed, if_pos rfl] at h
        obtain rfl := Option.some.inj h
        exact .inr (tidings_halt _ _)
      | false =>
        rw [hclosed] at h
        cases h
  | carrying orders =>
    right
    cases orders with
    | nil =>
      have hframe := stage.showWatched_frame strategy
      dsimp only [go] at h
      cases hshown : stage.showWatched strategy with
      | mk result shown =>
        rw [hshown] at h hframe
        dsimp only at hframe
        have hkept : tidings ⟨shown, .pausing⟩ = tidings ⟨stage, .carrying []⟩ := by
          rw [hframe]
          rfl
        cases result with
        | error halt =>
          obtain rfl := Option.some.inj h
          exact (tidings_halt _ _).trans hkept
        | ok =>
          obtain rfl := Option.some.inj h
          exact hkept
    | cons order more =>
      obtain rfl := Option.some.inj h
      exact tidings_advance _ order more
  | stepping id arrived order more =>
    obtain ⟨⟨outcome, told⟩, htake, rfl⟩ := Option.map_eq_some_iff.1 h
    exact .inr ((told.tidings_stepped arrived order more outcome).trans (tidings_take htake))
  | resting order more =>
    obtain rfl := Option.some.inj h
    exact .inr rfl
  | arriving id order more =>
    obtain ⟨⟨outcome, told⟩, htake, rfl⟩ := Option.map_eq_some_iff.1 h
    exact .inr ((told.tidings_arrived order more outcome).trans (tidings_take htake))
  | closing robots result =>
    cases robots with
    | nil => obtain rfl := Option.some.inj h; exact .inr rfl
    | cons robot more => obtain rfl := Option.some.inj h; exact .inr rfl
  | stopping id robots result =>
    obtain ⟨⟨outcome, told⟩, htake, rfl⟩ := Option.map_eq_some_iff.1 h
    have htold : told.tidings = tidings ⟨stage, .stopping id robots result⟩ := tidings_take htake
    exact .inr htold
  | ended result => cases h
  | crashed name => cases h

/-- The tidings stay what they are when the loop is told to stop. -/
theorem tidings_stop (h : mission.stop = some next) : next.tidings = mission.tidings := by
  obtain ⟨stage, place⟩ := mission
  have hleave {id : Nat}
      (hstop : (stage.client.far.leave id).map (fun link =>
        ((⟨stage, place⟩ : Mission σ μ).setLink link).halt .stopped) = some next) :
      next.tidings = tidings ⟨stage, place⟩ := by
    obtain ⟨link, -, rfl⟩ := Option.map_eq_some_iff.1 hstop
    rfl
  cases place with
  | pausing => obtain rfl := Option.some.inj h; rfl
  | carrying orders => obtain rfl := Option.some.inj h; rfl
  | resting order more => obtain rfl := Option.some.inj h; rfl
  | stepping id arrived order more => exact hleave h
  | arriving id order more => exact hleave h
  | closing => cases h
  | stopping => cases h
  | ended => cases h
  | crashed => cases h

end Mission

namespace Tasks

variable {peer : Peer σ} {strategy : Strategy μ} {tasks next later : Tasks σ (Nat × μ)}

/-- How often the strategy was asked for orders. -/
def plans (tasks : Tasks σ (Nat × μ)) : Nat := tasks.mission.stage.memory.1

/-- The count of packets that came in, announced or not. -/
def taken (tasks : Tasks σ μ) : Nat := tasks.client.updates + tasks.intake.isApplying.toNat

/-- Nothing is overtaken when nothing is announced. -/
theorem overtakes_eq_false {tasks next : Tasks σ μ} (h : next.client.updates = tasks.client.updates) :
    tasks.overtakes next = false := by
  rw [overtakes, h, decide_eq_false (Nat.lt_irrefl _), Bool.and_false]

/-- Questions and packets between two moments: each packet that was announced or that was news already
is news still, or it was overtaken, or the strategy was asked about it. -/
def Balanced (tasks next : Tasks σ (Nat × μ)) : Prop :=
  next.plans + (tasks.overtakes next).toNat + next.client.unseen.toNat + tasks.client.updates =
    tasks.plans + tasks.client.unseen.toNat + next.client.updates

/-- Questions and packets stay balanced when the tidings stay what they are. -/
theorem Balanced.of_tidings (h : next.mission.tidings = tasks.mission.tidings) : tasks.Balanced next := by
  have hplans : next.plans = tasks.plans := congrArg (fun tidings => tidings.1.1) h
  have hupdates : next.client.updates = tasks.client.updates := congrArg (fun tidings => tidings.2.1) h
  have hunseen : next.client.unseen = tasks.client.unseen := congrArg (fun tidings => tidings.2.2) h
  rw [Balanced, overtakes_eq_false hupdates, hplans, hupdates, hunseen]
  rfl

/-- The task that takes frames in keeps questions and packets balanced. -/
theorem Balanced.of_move {mission : Mission σ (Nat × μ)} {intake moved : Intake} {act : Intake.Act}
    {client : Client (Link σ)} (h : Intake.Move mission.stage.client act intake (client, moved)) :
    Balanced ⟨mission, intake⟩ ⟨mission.setClient client, moved⟩ := by
  cases h with
  | begin now hopen hdecode => exact .of_tidings rfl
  | skip now hopen hdecode => exact .of_tidings rfl
  | apply packet now part more => exact .of_tidings rfl
  | announce packet now =>
    have hannounced : overtakes ⟨mission, .applying packet now []⟩
        ⟨mission.setClient mission.stage.client.announce, .waiting⟩ = mission.stage.client.unseen := by
      have hlater : mission.stage.client.updates < mission.stage.client.announce.updates := Nat.lt_succ_self _
      exact (congrArg (mission.stage.client.unseen && ·) (decide_eq_true hlater)).trans (Bool.and_true _)
    rw [Balanced, hannounced]
    change _ + mission.stage.client.unseen.toNat + 1 + mission.stage.client.updates =
      _ + mission.stage.client.unseen.toNat + (mission.stage.client.updates + 1)
    rw [Nat.add_assoc _ 1, Nat.add_comm 1]
    rfl
  | lose => exact .of_tidings rfl

/-- A packet that comes in is applied and then announced. -/
theorem taken_of_move {mission : Mission σ μ} {intake moved : Intake} {act : Intake.Act}
    {client : Client (Link σ)} (h : Intake.Move mission.stage.client act intake (client, moved)) :
    taken ⟨mission.setClient client, moved⟩ = taken ⟨mission, intake⟩ + act.isPacket.toNat := by
  cases h with
  | begin now hopen hdecode => rw [Intake.Act.isPacket, hdecode]; rfl
  | skip now hopen hdecode => rw [Intake.Act.isPacket, hdecode]; rfl
  | apply packet now part more => rfl
  | announce packet now => rfl
  | lose => rfl

/-- Every act keeps questions and packets balanced. -/
theorem balanced_of_happen {act : Act σ} (h : tasks.happen peer strategy.counted .onUpdate act = some next) :
    tasks.Balanced next ∧ next.taken = tasks.taken + act.isPacket.toNat := by
  obtain ⟨mission, intake⟩ := tasks
  have htaken {next : Mission σ (Nat × μ)} (hnext : next.tidings = mission.tidings) :
      taken ⟨next, intake⟩ = taken ⟨mission, intake⟩ :=
    congrArg (· + intake.isApplying.toNat) (congrArg (fun tidings => tidings.2.1) hnext)
  cases act with
  | intake act =>
    obtain ⟨⟨client, moved⟩, hnext, rfl⟩ := Option.map_eq_some_iff.1 h
    have hmove := Intake.move_of_happen hnext
    exact ⟨.of_move hmove, taken_of_move hmove⟩
  | work work =>
    obtain ⟨later, hlater, rfl⟩ := Option.map_eq_some_iff.1 h
    obtain ⟨link, -, rfl⟩ := Option.map_eq_some_iff.1 hlater
    exact ⟨.of_tidings rfl, rfl⟩
  | go time =>
    obtain ⟨later, hlater, rfl⟩ := Option.map_eq_some_iff.1 h
    rcases Mission.tidings_go hlater with ⟨hunseen, hasked⟩ | hkept
    · have hplans : later.stage.memory.1 = mission.stage.memory.1 + 1 :=
        congrArg (fun tidings => tidings.1.1) hasked
      have hupdates : later.stage.client.updates = mission.stage.client.updates :=
        congrArg (fun tidings => tidings.2.1) hasked
      have hlooked : later.stage.client.unseen = false := congrArg (fun tidings => tidings.2.2) hasked
      have hnone : overtakes ⟨mission, intake⟩ ⟨later, intake⟩ = false := overtakes_eq_false hupdates
      refine ⟨?_, congrArg (· + intake.isApplying.toNat) hupdates⟩
      rw [Balanced, setMission, hnone]
      change later.stage.memory.1 + 0 + later.stage.client.unseen.toNat + mission.stage.client.updates =
        mission.stage.memory.1 + mission.stage.client.unseen.toNat + later.stage.client.updates
      rw [hplans, hupdates, hlooked, hunseen]
      rfl
    · exact ⟨.of_tidings hkept, htaken hkept⟩
  | stop =>
    obtain ⟨later, hlater, rfl⟩ := Option.map_eq_some_iff.1 h
    have hkept := Mission.tidings_stop hlater
    exact ⟨.of_tidings hkept, htaken hkept⟩

/-- Any run keeps questions and packets balanced. -/
theorem balanced_of_run {acts : List (Act σ)}
    (hrun : tasks.run peer strategy.counted .onUpdate acts = some later) :
    later.plans + overtaken peer strategy.counted .onUpdate tasks acts + later.client.unseen.toNat +
          tasks.client.updates = tasks.plans + tasks.client.unseen.toNat + later.client.updates ∧
      later.taken = tasks.taken + acts.countP Act.isPacket := by
  induction acts generalizing tasks with
  | nil =>
    obtain rfl := Option.some.inj hrun
    exact ⟨rfl, rfl⟩
  | cons act more ih =>
    obtain ⟨next, hnext, hmore⟩ := Option.bind_eq_some_iff.1 hrun
    obtain ⟨hstep, htaken⟩ := balanced_of_happen hnext
    obtain ⟨hrest, hlater⟩ := ih hmore
    unfold Balanced at hstep
    rw [overtaken, hnext, List.countP_cons]
    dsimp only
    constructor
    · omega
    · rw [hlater, htaken, Nat.add_assoc, Nat.add_comm act.isPacket.toNat]
      cases act.isPacket <;> rfl

/-- What the task that takes frames in does, while the control task does nothing, happens in a session. -/
theorem run_intake (peer : Peer σ) (strategy : Strategy μ) (pace : Stage.Pace) (mission : Mission σ μ)
    {client : Client (Link σ)} {intake moved : Intake} {acts : List Intake.Act}
    (hrun : intake.run mission.stage.client acts = some (client, moved)) :
    run peer strategy pace ⟨mission, intake⟩ (acts.map .intake) =
      some ⟨mission.setClient client, moved⟩ := by
  induction acts generalizing mission intake with
  | nil => cases hrun; rfl
  | cons act more ih =>
    obtain ⟨⟨between, turned⟩, hact, hmore⟩ := Option.bind_eq_some_iff.1 hrun
    have hact' : intake.happen (Tasks.client ⟨mission, intake⟩) act = some (between, turned) := hact
    rw [List.map_cons, run, happen, hact']
    exact ih (mission.setClient between) hmore

/-- A mission in which every frame is taken in at once is a session with two tasks. -/
theorem exists_run_of_mission {peer : Peer σ} {strategy : Strategy μ} {pace : Stage.Pace}
    {mission later : Mission σ μ} {acts : List (Mission.Act σ)}
    (hrun : mission.run peer strategy pace acts = some later) :
    ∃ acts, run peer strategy pace ⟨mission, .waiting⟩ acts = some ⟨later, .waiting⟩ := by
  induction acts generalizing mission with
  | nil => exact ⟨[], by rw [Option.some.inj hrun]; rfl⟩
  | cons act more ih =>
    obtain ⟨next, hnext, hmore⟩ := Option.bind_eq_some_iff.1 hrun
    obtain ⟨rest, hrest⟩ := ih hmore
    have hone (same : Act σ)
        (hsame : happen peer strategy pace ⟨mission, .waiting⟩ same = some ⟨next, .waiting⟩) :
        ∃ acts, run peer strategy pace ⟨mission, .waiting⟩ acts = some ⟨later, .waiting⟩ :=
      ⟨same :: rest, by rw [run, hsame]; exact hrest⟩
    cases act with
    | work work => exact hone (.work work) (congrArg (Option.map (setMission ⟨mission, .waiting⟩)) hnext)
    | go time => exact hone (.go time) (congrArg (Option.map (setMission ⟨mission, .waiting⟩)) hnext)
    | stop => exact hone .stop (congrArg (Option.map (setMission ⟨mission, .waiting⟩)) hnext)
    | lose =>
      obtain rfl := Option.some.inj hnext
      exact hone (.intake .lose) rfl
    | frame bytes =>
      obtain rfl := Option.some.inj hnext
      cases hclosed : mission.stage.client.closed with
      | true =>
        -- a frame behind the end of the stream is not taken in at all
        rw [Client.receive_of_closed hclosed] at hrest
        exact ⟨rest, hrest⟩
      | false =>
        refine ⟨(Intake.Act.whole bytes mission.stage.client.updates).map .intake ++ rest, ?_⟩
        rw [run_append, run_intake peer strategy pace mission (Intake.run_whole hclosed bytes)]
        exact hrest

/-- However packets come in while a loop that is paced by news waits, and while it steps, the questions
to its strategy can be counted: each packet, and news from before the loop as well, is one that the
strategy was asked about, or one that was overtaken, or news still, or one that is being applied. So
when the loop waits and nothing is pending, the strategy was asked once for each packet exactly when as
many packets were overtaken as there were news from before the loop. -/
theorem serving_law {strategy : Strategy μ} {stage : Stage (Link σ) μ} {intake : Intake}
    {acts : List (Act σ)} {later : Tasks σ μ}
    (hrun : (start stage intake).run peer strategy .onUpdate acts = some later) :
    let packets := acts.countP Act.isPacket
    let lost := overtaken peer strategy.counted .onUpdate (start stage.counted intake) acts
    ∃ counting, (start stage.counted intake).run peer strategy.counted .onUpdate acts = some counting ∧
      counting.uncounted = later ∧
      counting.plans + lost + later.client.unseen.toNat + later.intake.isApplying.toNat =
        packets + stage.client.unseen.toNat + intake.isApplying.toNat ∧
      (later.Idle → later.intake = .waiting → intake = .waiting →
        (counting.plans = packets ↔ lost = stage.client.unseen.toNat)) := by
  intro packets lost
  obtain ⟨counting, hcounting, rfl⟩ := exists_run_counted hrun
  obtain ⟨hbalance, htaken⟩ := balanced_of_run hcounting
  have hsum : counting.plans + lost + counting.client.unseen.toNat + counting.intake.isApplying.toNat =
      packets + stage.client.unseen.toNat + intake.isApplying.toNat := by
    change counting.plans + lost + counting.client.unseen.toNat + stage.client.updates =
      0 + stage.client.unseen.toNat + counting.client.updates at hbalance
    change counting.client.updates + counting.intake.isApplying.toNat =
      stage.client.updates + intake.isApplying.toNat + packets at htaken
    omega
  refine ⟨counting, hcounting, rfl, hsum, fun hidle hlater hintake => ?_⟩
  have hunseen : counting.client.unseen = false := hidle.2
  have hwaiting : counting.intake = .waiting := hlater
  rw [hunseen, hwaiting, hintake] at hsum
  change counting.plans + lost + 0 + 0 = packets + stage.client.unseen.toNat + 0 at hsum
  omega

/-- All that is done about a packet that shows nothing. -/
def packetActs : List (Act (List Bytes)) := (Intake.Act.whole [0x7B, 0x7D] 0).map .intake

/-- A packet comes in while the loop waits, and two more while it steps. -/
def crowdedActs : List (Act (List Bytes)) :=
  packetActs ++ [.go .zero] ++ packetActs ++ packetActs ++ [.go .zero, .go .zero, .go .zero]

/-- One of these packets is overtaken, so the strategy is asked twice. -/
theorem serving_crowded : ∃ counting : Tasks (List Bytes) (Nat × Unit),
    (start Mission.blind .waiting).run Server.prepared.peer (.followBall [.blue1] 1.0) .onUpdate
        crowdedActs = some counting.uncounted ∧
      counting.plans = 2 ∧
      overtaken Server.prepared.peer (Strategy.followBall [.blue1] 1.0).counted .onUpdate
        (start Mission.blind.counted .waiting) crowdedActs = 1 := by
  obtain ⟨later, hrun, hidle, hwaiting⟩ : ∃ later,
      (start Mission.blind .waiting).run Server.prepared.peer (.followBall [.blue1] 1.0) .onUpdate
        crowdedActs = some later ∧ later.Idle ∧ later.intake = .waiting :=
    ⟨_, rfl, ⟨rfl, rfl⟩, rfl⟩
  obtain ⟨counting, hcounting, rfl, hsum, -⟩ := serving_law hrun
  have hplans : ((start Mission.blind.counted .waiting).run Server.prepared.peer
      (Strategy.followBall [.blue1] 1.0).counted .onUpdate crowdedActs).map plans = some 2 := rfl
  have hpackets : crowdedActs.countP Act.isPacket = 3 := rfl
  rw [hcounting, Option.map_some, Option.some_inj] at hplans
  rw [hidle.2, hwaiting, hplans, hpackets] at hsum
  exact ⟨counting, hrun, hplans, Nat.add_left_cancel hsum⟩

/-- A loop whose strategy was asked twice about three packets waits with nothing pending, and so does
one whose strategy was asked about a packet from before the loop when none came in since. -/
theorem served_otherwise :
    (∃ counting : Tasks (List Bytes) (Nat × Unit),
      (start Mission.blind.counted .waiting).run Server.prepared.peer
          (Strategy.followBall [.blue1] 1.0).counted .onUpdate crowdedActs = some counting ∧
        counting.Idle ∧ counting.intake = .waiting ∧
        crowdedActs.countP Act.isPacket = 3 ∧ counting.plans = 2) ∧
    ∃ counting : Tasks (List Bytes) (Nat × Unit),
      let stage := { Mission.blind with client := Mission.blind.client.receive [0x7B, 0x7D] }
      let acts : List (Act (List Bytes)) := [.go .zero, .go .zero]
      (start stage.counted .waiting).run Server.prepared.peer
          (Strategy.followBall [.blue1] 1.0).counted .onUpdate acts = some counting ∧
        counting.Idle ∧ counting.intake = .waiting ∧ acts.countP Act.isPacket = 0 ∧ counting.plans = 1 :=
  ⟨⟨_, rfl, ⟨rfl, rfl⟩, rfl, rfl, rfl⟩, _, rfl, ⟨rfl, rfl⟩, rfl, rfl, rfl⟩

end Tasks

end RobotSoccer
