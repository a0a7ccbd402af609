import RobotSoccer.Proofs.Controller.Requests
import RobotSoccer.Proofs.Session.Approach
import RobotSoccer.Proofs.Session.WholeSteps

/-!
# The orders of a step

What a step of the control loop sends follows from what is known without it: where the robots of its
orders were last seen, and what the far end answers. Each order is one command, and the first that fails
is the last. An order for a robot that was never seen fails before anything is sent, and any other when
its command does; that the far end did not apply a command is no failure.
-/

namespace RobotSoccer

variable {σ μ : Type}

/-- The commands of orders: a step for each of them from where its robot was last seen, up to the first
order for a robot that was never seen. -/
def World.commands (world : World) : List GotoOrder → List (RobotName × Command)
  | [] => []
  | order :: more =>
    match world.pose? order.robot with
    | none => []
    | some pose => (order.robot, .toward order.target pose) :: world.commands more

/-- What is wrong with orders whatever the far end answers: the first of them that is for a robot that
was never seen. -/
def World.firstUnseen? (world : World) (orders : List GotoOrder) : Option SessionError :=
  (orders.find? fun order => (world.pose? order.robot).isNone).map fun order =>
    .unknownPosition order.robot

/-- Why orders fail for which this was sent: a command failed, or else a robot was never seen. -/
def World.fault? (world : World) (orders : List GotoOrder) (sent : List Exchange) :
    Option SessionError :=
  (sent.findSome? Exchange.fault?).or (world.firstUnseen? orders)

/-- An order for a robot that was never seen is at fault when it is the first. -/
theorem World.fault?_of_unseen {world : World} {order : GotoOrder}
    (h : world.pose? order.robot = none) (more : List GotoOrder) :
    world.fault? (order :: more) [] = some (.unknownPosition order.robot) := by
  rw [fault?, firstUnseen?, List.find?_cons_of_pos (by rw [h]; rfl)]
  rfl

/-- An order whose command did not fail leaves it to the others why they fail. -/
theorem World.fault?_cons {world : World} {order : GotoOrder} {pose : Pose Float}
    (h : world.pose? order.robot = some pose) (more : List GotoOrder) (robot : RobotName)
    (command : Command) (outcome : Outcome) (sent : List Exchange) :
    world.fault? (order :: more) (⟨robot, command, .ok outcome⟩ :: sent) = world.fault? more sent := by
  rw [fault?, firstUnseen?, List.find?_cons_of_neg (by rw [h]; exact Bool.false_ne_true)]
  rfl

/-- Nothing is sent from an order for a robot that was never seen on. -/
theorem World.commands_of_unseen {world : World} {order : GotoOrder}
    (h : world.pose? order.robot = none) (more : List GotoOrder) :
    world.commands (order :: more) = [] := by
  rw [commands, h]

/-- An order for a robot that was seen is a command, and the others come behind it. -/
theorem World.commands_of_pose {world : World} {order : GotoOrder} {pose : Pose Float}
    (h : world.pose? order.robot = some pose) (more : List GotoOrder) :
    world.commands (order :: more) = (order.robot, .toward order.target pose) :: world.commands more := by
  rw [commands, h]

/-- What a controller notes of a command: the command as it is read, when it was applied. -/
def Exchange.noted? (exchange : Exchange) : Option ReceivedCommand :=
  match exchange.outcome with
  | .ok .applied => some ⟨exchange.robot, exchange.command.reread.items⟩
  | .ok (.notApplied _) | .error _ => none

namespace Server

/-- The far end after these commands were sent. -/
def stateAfter (server : Server σ) (key : String) : σ → List Exchange → σ
  | far, [] => far
  | far, exchange :: more =>
    stateAfter server key (server.exchange key far exchange.robot exchange.command).2 more

/-- A far end that notes every command that it says it applied, and no other, behind those it noted
before. -/
def Notes (server : Server σ) (noted : σ → List ReceivedCommand) : Prop :=
  ∀ key far robot command, noted (server.exchange key far robot command).2 =
    noted far ++ (Exchange.noted? ⟨robot, command, (server.exchange key far robot command).1⟩).toList

/-- Of the commands that are sent until one fails, those that are applied are noted in their order. -/
theorem Notes.stateAfter {server : Server σ} {noted : σ → List ReceivedCommand} (h : server.Notes noted)
    (key : String) (far : σ) (orders : List (RobotName × Command)) :
    noted (server.stateAfter key far (server.exchangeUntilFailure key far orders)) =
      noted far ++ (server.exchangeUntilFailure key far orders).filterMap Exchange.noted? := by
  induction orders generalizing far with
  | nil => exact (List.append_nil _).symm
  | cons order orders ih =>
    obtain ⟨robot, command⟩ := order
    have htold := h key far robot command
    cases hanswer : (server.exchange key far robot command).1 with
    | error cause =>
      rw [hanswer] at htold
      rw [exchangeUntilFailure_cons_error hanswer]
      exact htold
    | ok outcome =>
      rw [hanswer] at htold
      rw [exchangeUntilFailure_cons_ok hanswer, Server.stateAfter, ih, htold, List.append_assoc]
      cases outcome <;> rfl

/-- The simulated controller notes every command that it says it applied. -/
theorem notes_simulated : simulated.Notes Controller.received := by
  intro key controller robot command
  have hexchange : simulated.exchange key controller robot command =
      controller.exchange key robot command := rfl
  have hway := controller.obey_way (Request.order key robot command)
  rw [hexchange, Controller.exchange_eq]
  generalize controller.obey (Request.order key robot command) = ended at hway ⊢
  cases hway with
  | unknownRobot hname => rw [Reply.decode_refusal]; exact (List.append_nil _).symm
  | wrongKey other hname hkey => rw [Reply.decode_refusal]; exact (List.append_nil _).symm
  | preempted other hfor status hstatus =>
    rw [Reply.decode_notApplied]; exact (List.append_nil _).symm
  | unknownCommand other hfor hfree hcommand =>
    rw [Reply.decode_notApplied]; exact (List.append_nil _).symm
  | carriedOut other hfor hfree velocity hcommand =>
    obtain rfl : robot = other := RobotName.text_injective (by
      rw [RobotName.text, RobotName.text, ← hfor.team, ← hfor.number]
      rfl)
    rw [Reply.decode_applied]
    rfl

end Server

namespace Client

variable {server : Server σ}

/-- A client after these commands were sent. -/
def afterExchanges (server : Server σ) (client : Client σ) (sent : List Exchange) : Client σ :=
  { client with
    far := server.stateAfter client.key client.far sent
    exchanges := client.exchanges ++ sent }

/-- A client that sent nothing more is as it was. -/
theorem afterExchanges_nil (client : Client σ) : client.afterExchanges server [] = client := by
  rw [afterExchanges, List.append_nil]
  rfl

/-- Commands are sent one after the other. -/
theorem afterExchanges_afterCommand (client : Client σ) (robot : RobotName) (command : Command)
    (sent : List Exchange) :
    (client.afterCommand server robot command).afterExchanges server sent =
      client.afterExchanges server
        (⟨robot, command, (server.exchange client.key client.far robot command).1⟩ :: sent) := by
  rw [afterExchanges, exchanges_afterCommand, List.append_assoc]
  rfl

end Client

namespace Stage

variable {server : Server σ} {stage : Stage σ μ} {order : GotoOrder}

/-- An order that does not wait is one step of its robot. -/
theorem goTo_of_not_wait (h : order.wait = false) :
    stage.goTo server order =
      ((stage.client.gotoOnce server order.robot order.target).1.map fun _ => (),
        { stage with client := (stage.client.gotoOnce server order.robot order.target).2 }) := by
  rw [goTo, h, if_neg Bool.false_ne_true]

/-- All that an order can come to: its robot was never seen and nothing is sent, or its command is sent
and fails, or it is sent and does not fail. -/
theorem goTo_cases (server : Server σ) (stage : Stage σ μ) (hplays : order.robot ∈ RobotName.all)
    (hwait : order.wait = false) :
    (stage.client.world.pose? order.robot = none ∧
      stage.goTo server order = (.error (.error (.unknownPosition order.robot)), stage)) ∨
    ∃ pose, stage.client.world.pose? order.robot = some pose ∧
      ((∃ fault,
        (server.exchange stage.client.key stage.client.far order.robot (.toward order.target pose)).1 =
          .error fault ∧
        stage.goTo server order = (.error (.error (.command order.robot fault)), { stage with
          client := stage.client.afterCommand server order.robot (.toward order.target pose) })) ∨
      ∃ outcome,
        (server.exchange stage.client.key stage.client.far order.robot (.toward order.target pose)).1 =
          .ok outcome ∧
        stage.goTo server order = (.ok (), { stage with
          client := stage.client.afterCommand server order.robot (.toward order.target pose) })) := by
  rw [goTo_of_not_wait hwait]
  cases hpose : stage.client.world.pose? order.robot with
  | none =>
    rw [Client.gotoOnce_of_unseen hplays hpose]
    exact .inl ⟨rfl, rfl⟩
  | some pose =>
    refine .inr ⟨pose, rfl, ?_⟩
    rcases hsent : stage.client.gotoOnce server order.robot order.target with ⟨halt | arrived, sent⟩
    · obtain ⟨fault, htold, rfl, rfl⟩ := Client.of_gotoOnce_error hpose hsent
      exact .inl ⟨fault, htold, rfl⟩
    · obtain ⟨outcome, htold, -, rfl⟩ := Client.of_gotoOnce_ok hpose hsent
      exact .inr ⟨outcome, htold, rfl⟩

/-- What carrying out orders sends, and what comes of it. The strategy is not asked again. -/
theorem carryOut_law (server : Server σ) (orders : List GotoOrder) (stage : Stage σ μ)
    (h : ∀ order ∈ orders, order.robot ∈ RobotName.all ∧ order.wait = false) :
    let sent := server.exchangeUntilFailure stage.client.key stage.client.far
      (stage.client.world.commands orders)
    let carried := stage.carryOut server orders
    carried.2.client = stage.client.afterExchanges server sent ∧ carried.2.memory = stage.memory ∧
      carried.1 = match stage.client.world.fault? orders sent with
        | some cause => .error (.error cause)
        | none => .ok () := by
  dsimp only
  induction orders generalizing stage with
  | nil => exact ⟨(Client.afterExchanges_nil stage.client).symm, rfl, rfl⟩
  | cons order more ih =>
    obtain ⟨⟨hplays, hwait⟩, hmore⟩ := List.forall_mem_cons.1 h
    rw [carryOut, fulfil]
    rcases stage.goTo_cases server hplays hwait with
      ⟨hunseen, hgone⟩ | ⟨pose, hpose, ⟨fault, htold, hgone⟩ | ⟨outcome, htold, hgone⟩⟩
    · have hnothing : server.exchangeUntilFailure stage.client.key stage.client.far
          (stage.client.world.commands (order :: more)) = [] := by
        rw [World.commands_of_unseen hunseen]
        rfl
      rw [hgone, hnothing, World.fault?_of_unseen hunseen]
      exact ⟨(Client.afterExchanges_nil stage.client).symm, rfl, rfl⟩
    · rw [hgone, World.commands_of_pose hpose, Server.exchangeUntilFailure_cons_error htold]
      refine ⟨?_, rfl, rfl⟩
      rw [← htold, ← Client.afterExchanges_afterCommand]
      exact (Client.afterExchanges_nil _).symm
    · obtain ⟨hclient, hmemory, hresult⟩ := ih ({ stage with
        client := stage.client.afterCommand server order.robot (.toward order.target pose) }.drawTarget order)
        hmore
      rw [hgone, World.commands_of_pose hpose, Server.exchangeUntilFailure_cons_ok htold,
        World.fault?_cons hpose]
      refine ⟨?_, hmemory, hresult⟩
      rw [← htold, ← Client.afterExchanges_afterCommand]
      exact hclient

/-- What comes of a step, from the robot that it is to watch and from what is wrong with its orders. A
robot that does not play breaks the step off. -/
def stepResult (watched : RobotName) : Option SessionError → Except Halt Unit
  | some cause => .error (.error cause)
  | none => if watched ∈ RobotName.all then .ok () else .error (.stranger watched)

/-- What comes of showing the line about the watched robot is what comes of a step without a fault. -/
theorem fst_showWatched (strategy : Strategy μ) (stage : Stage σ μ) :
    (stage.showWatched strategy).1 = stepResult (strategy.watched stage.memory) none := by
  have hrobot := Roster.isSome_get? stage.client.world.robots (strategy.watched stage.memory)
  unfold showWatched World.robot? stepResult
  dsimp only
  cases hview : stage.client.world.robots.get? (strategy.watched stage.memory) with
  | none =>
    rw [hview] at hrobot
    exact (if_neg fun hplays => Bool.false_ne_true (hrobot.2 hplays)).symm
  | some view =>
    rw [hview] at hrobot
    exact (if_pos (hrobot.1 rfl)).symm

/-- The law of a step, for every world, every strategy whose orders are for robots that play and do not
wait, and every far end. The step sends the commands of the orders up to the first that fails, and
remembers what it was told about each. When an order fails the step fails for the same reason; otherwise
it comes to its end, unless the robot that it is to watch does not play. A far end that notes the commands
that it applies has noted those of them that were sent, and the simulated controller is one. -/
theorem step_law (server : Server σ) (strategy : Strategy μ) (time : Duration) (stage : Stage σ μ)
    (hplan : ∀ order ∈ (strategy.plan stage.memory stage.client.world.snapshot time).1,
      order.robot ∈ RobotName.all ∧ order.wait = false) :
    let planned := strategy.plan stage.memory stage.client.world.snapshot time
    let client := stage.client
    let sent := server.exchangeUntilFailure client.key client.far (client.world.commands planned.1)
    let stepped := stage.step server strategy time
    stepped.2.client = client.afterExchanges server sent ∧
    stepped.1 = stepResult (strategy.watched planned.2) (client.world.fault? planned.1 sent) ∧
    (∀ noted, server.Notes noted →
      noted stepped.2.client.far = noted client.far ++ sent.filterMap Exchange.noted?) ∧
    Server.simulated.Notes Controller.received := by
  intro planned client sent stepped
  let begun : Stage σ μ := { stage.drawSeen with memory := planned.2 }
  have hbegin : stepped = conclude strategy (begun.carryOut server planned.1) := by
    dsimp only [stepped, step]
    rw [stage.begin_eq]
  have hbegun : begun.client = client := stage.client_drawSeen
  obtain ⟨hclient, hmemory, hresult⟩ := carryOut_law server planned.1 begun hplan
  rw [hbegun] at hclient hresult
  have hstepped : stepped.2.client = client.afterExchanges server sent ∧
      stepped.1 = stepResult (strategy.watched planned.2) (client.world.fault? planned.1 sent) := by
    rcases hcarry : begun.carryOut server planned.1 with ⟨halt | _, carried⟩
    · rw [hcarry] at hclient hresult
      have hstep : stepped = (.error halt, carried) := by
        rw [hbegin, hcarry]
        rfl
      cases hfault : client.world.fault? planned.1 sent with
      | some cause =>
        rw [hfault] at hresult
        rw [hstep]
        exact ⟨hclient, hresult⟩
      | none => rw [hfault] at hresult; cases hresult
    · rw [hcarry] at hclient hmemory hresult
      have hstep : stepped = carried.showWatched strategy := by
        rw [hbegin, hcarry]
        rfl
      have hremembers : carried.memory = planned.2 := hmemory
      cases hfault : client.world.fault? planned.1 sent with
      | some cause => rw [hfault] at hresult; cases hresult
      | none =>
        rw [hstep, fst_showWatched, showWatched_frame, hremembers]
        exact ⟨hclient, rfl⟩
  refine ⟨hstepped.1, hstepped.2, fun noted hnoted => ?_, Server.notes_simulated⟩
  rw [hstepped.1]
  exact hnoted.stateAfter client.key client.far (client.world.commands planned.1)

/-- A client with the key of the blue team is to bring three robots to a target. The first order is
applied; the second is for a green robot and is refused, and the third is not sent. -/
theorem step_refused :
    let target := Pose.of 0.0 0.0 1.0
    let orders := [⟨.blue1, target, false⟩, ⟨.green1, target, false⟩, ⟨.blue2, target, false⟩]
    let strategy := Strategy.stateless (fun _ => orders) .blue1
    let seen := (World.blank.happen (.marker .blue1 (.of 0.0 0.0 0.0)) 0).happen
      (.marker .green1 (.of 1.0 0.0 0.0)) 0
    let client := { Client.fresh "b" (Controller.fresh ⟨"b", "g"⟩) with world := seen }
    let stage := Stage.fresh client () (.drawing []) []
    let stepped := stage.step Server.simulated strategy .zero
    (∀ order ∈ orders, order.robot ∈ RobotName.all ∧ order.wait = false) ∧
      stepped.1 = .error (.error (.command .green1 (.failed "Bad key for team green"))) ∧
      stepped.2.client.exchanges =
        [⟨.blue1, .toward target (.of 0.0 0.0 0.0), .ok .applied⟩,
          ⟨.green1, .toward target (.of 1.0 0.0 0.0), .error (.failed "Bad key for team green")⟩] ∧
      stepped.2.client.far.received =
        [⟨.blue1, (Command.toward target (.of 0.0 0.0 0.0)).reread.items⟩] := by
  intro target orders strategy seen client stage stepped
  let first := Command.toward target (.of 0.0 0.0 0.0)
  let second := Command.toward target (.of 1.0 0.0 0.0)
  have hplan : ∀ order ∈ orders, order.robot ∈ RobotName.all ∧ order.wait = false := by
    simp only [orders, List.forall_mem_cons]
    decide
  have hcommands : seen.commands orders = [(.blue1, first), (.green1, second)] := by
    rw [World.commands_of_pose rfl, World.commands_of_pose rfl, World.commands_of_unseen rfl]
  obtain ⟨driven, hfirst, hkeys⟩ : ∃ driven : Controller,
      client.far.exchange "b" .blue1 first = (.ok .applied, driven) ∧ driven.keys = ⟨"b", "g"⟩ :=
    ⟨_, Controller.exchange_of_free first List.mem_cons_self rfl rfl, rfl⟩
  have hsecond : (driven.exchange "b" .green1 second).1 =
      .error (.failed "Bad key for team green") := by
    have hname : RobotName.ofText? (Request.order "b" .green1 second).robotText = some .green1 :=
      Controller.Order.ofText?_robotText_eq_some_iff.2 ⟨by decide, rfl, rfl⟩
    have hkey : driven.keys.of RobotName.green1.team ≠ "b" := by
      rw [hkeys]
      decide
    rw [Controller.exchange_eq, Controller.obey_of_wrongKey hname hkey, Reply.decode_refusal]
    rfl
  have hsent : Server.simulated.exchangeUntilFailure "b" client.far (seen.commands orders) =
      [⟨.blue1, first, .ok .applied⟩,
        ⟨.green1, second, .error (.failed "Bad key for team green")⟩] := by
    have htold : Server.simulated.exchange "b" client.far .blue1 first = (.ok .applied, driven) := hfirst
    have hrefused : (Server.simulated.exchange "b" driven .green1 second).1 =
      .error (.failed "Bad key for team green") := hsecond
    rw [hcommands, Server.exchangeUntilFailure_cons_ok (congrArg Prod.fst htold), htold,
      Server.exchangeUntilFailure_cons_error hrefused]
  have hstepped : stage.step Server.simulated strategy .zero = stepped := rfl
  have hplanned : Server.simulated.exchangeUntilFailure stage.client.key stage.client.far
      (stage.client.world.commands (strategy.plan stage.memory stage.client.world.snapshot .zero).1) = _ := hsent
  obtain ⟨hclient, hresult, hnoted, hsimulated⟩ :=
    step_law Server.simulated strategy .zero stage hplan
  have hreceived := hnoted Controller.received hsimulated
  rw [hstepped, hplanned] at hclient hresult hreceived
  refine ⟨hplan, hresult, ?_, ?_⟩
  · rw [hclient]
    rfl
  · rw [hreceived]
    rfl

end Stage

end RobotSoccer
