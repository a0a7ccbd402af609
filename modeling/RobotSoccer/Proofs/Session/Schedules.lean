import RobotSoccer.Proofs.Session.Missions

/-!
# Control loops are missions

A control loop that sends its commands one by one and waits for each reply does what a mission does
under one of its schedules: each exchange is served as soon as it is called for, a frame comes in at
the end of a period, and the loop is told to stop when no period is left.
-/

namespace RobotSoccer

variable {σ μ : Type}

namespace Link

variable {peer : Peer σ} {link later : Link σ}

/-- A link that nobody has, with nothing on its way, as a client sees its far end. -/
structure Rests (link : Link σ) (client : Client σ) : Prop where
  /-- Requests carry the key of the client. -/
  key : link.key = client.key
  /-- The far end is where the client has it. -/
  far : link.far = client.far
  /-- Nobody has the link. -/
  line : link.line = []
  /-- No request is on its way. -/
  requests : link.requests = []
  /-- No message is on its way. -/
  replies : link.replies = []

/-- An exchange that nobody interrupts leaves a link at rest, and does for the client what sending
the command and waiting does. -/
theorem Rests.exchanged {server : Server σ} {client : Client σ} (h : Rests link client)
    (robot : RobotName) (command : Command) (caller : Caller) :
    Rests (link.exchanged server.peer robot command caller)
        (client.command server robot command).2 ∧
      client.command server robot command =
        let outcome := Reply.decodeMessage (link.answered server.peer robot command).1
        (outcome.mapError (.command robot), { client with
          far := (link.exchanged server.peer robot command caller).far
          exchanges := client.exchanges ++ [⟨robot, command, outcome⟩] }) := by
  have hcommand : client.command server robot command =
      let outcome := Reply.decodeMessage (link.answered server.peer robot command).1
      (outcome.mapError (.command robot), { client with
        far := (link.exchanged server.peer robot command caller).far
        exchanges := client.exchanges ++ [⟨robot, command, outcome⟩] }) := by
    rw [Client.command, ← h.key, ← h.far]
    rfl
  exact ⟨⟨h.key, hcommand ▸ rfl, h.line, h.requests, h.replies⟩, hcommand⟩

end Link

/-- A stage over a shared link. What comes in is not foreseen. -/
def Stage.sharing (stage : Stage σ μ) (link : Link σ) : Stage (Link σ) μ where
  client := ⟨stage.client.key, stage.client.world, link, stage.client.exchanges,
    stage.client.updates, stage.client.unseen, stage.client.closed⟩
  memory := stage.memory
  pool := stage.pool
  drawings := stage.drawings
  printed := stage.printed
  arrivals := []

namespace Stage

/-- Drawing a robot does not look at the far end. -/
theorem drawRobot_sharing (stage : Stage σ μ) (link : Link σ) (entry : RobotName × RobotView) :
    (stage.sharing link).drawRobot entry = (stage.drawRobot entry).sharing link := by
  unfold drawRobot
  cases entry.2.pose with
  | none => rfl
  | some pose => rfl

/-- Drawing what is seen does not look at the far end. -/
theorem drawSeen_sharing (stage : Stage σ μ) (link : Link σ) :
    (stage.sharing link).drawSeen = stage.drawSeen.sharing link := by
  have hball : (stage.sharing link).drawBall = stage.drawBall.sharing link := by
    unfold drawBall
    dsimp only [sharing]
    cases stage.client.world.ball with
    | none => rfl
    | some position => rfl
  rw [drawSeen, drawSeen, hball]
  exact List.foldl_hom (fun other : Stage σ μ => other.sharing link)
    fun other entry => other.drawRobot_sharing link entry

/-- The beginning of a step does not look at the far end. -/
theorem begin_sharing (strategy : Strategy μ) (time : Duration) (stage : Stage σ μ) (link : Link σ) :
    (stage.sharing link).begin strategy time =
      ((stage.begin strategy time).1, (stage.begin strategy time).2.sharing link) := by
  unfold begin
  rw [stage.drawSeen_sharing]
  rfl

/-- Showing the line about the watched robot does not look at the far end. -/
theorem showWatched_sharing (strategy : Strategy μ) (stage : Stage σ μ) (link : Link σ) :
    (stage.sharing link).showWatched strategy =
      ((stage.showWatched strategy).1, (stage.showWatched strategy).2.sharing link) := by
  unfold showWatched
  dsimp only [sharing]
  cases stage.client.world.robot? (strategy.watched stage.memory) with
  | none => rfl
  | some view => rfl

end Stage

/-- A frame that comes in does not change the far end. -/
theorem Link.Rests.receive {link : Link σ} {client : Client σ} (h : Rests link client)
    (frame : Bytes) : Rests link (client.receive frame) := by
  have hkey : (client.receive frame).key = client.key := by
    unfold Client.receive
    cases client.closed with
    | true => rfl
    | false =>
      cases client.world.receiveFrame frame client.updates with
      | error fault => rfl
      | ok world => rfl
  exact ⟨h.key.trans hkey.symm, h.far.trans (client.far_receive frame).symm, h.line, h.requests,
    h.replies⟩

/-- Nor does the end of the stream of frames. -/
theorem Link.Rests.lose {link : Link σ} {client : Client σ} (h : Rests link client) :
    Rests link { client with closed := true } := ⟨h.key, h.far, h.line, h.requests, h.replies⟩

/-- Nor does what comes in during a period. -/
theorem Link.Rests.arrive {link : Link σ} {client : Client σ} (h : Rests link client)
    (arrival : Option Bytes) : Rests link (client.arrive arrival) := by
  cases arrival with
  | none => exact h
  | some frame => exact h.receive frame

namespace Mission

variable {peer : Peer σ} {strategy : Strategy μ} {pace : Stage.Pace} {mission next later : Mission σ μ}

/-- One mission leads to another when some schedule brings it there. -/
def Leads (peer : Peer σ) (strategy : Strategy μ) (pace : Stage.Pace) (mission later : Mission σ μ) :
    Prop := ∃ acts, mission.run peer strategy pace acts = some later

/-- A mission leads to itself. -/
theorem Leads.refl (mission : Mission σ μ) : Leads peer strategy pace mission mission := ⟨[], rfl⟩

/-- Schedules follow one another. -/
theorem Leads.trans (h : Leads peer strategy pace mission next)
    (hmore : Leads peer strategy pace next later) : Leads peer strategy pace mission later := by
  obtain ⟨acts, hacts⟩ := h
  obtain ⟨more, hmore⟩ := hmore
  exact ⟨acts ++ more, by rw [run_append, hacts]; exact hmore⟩

/-- One act is a schedule. -/
theorem Leads.of_happen (act : Act σ) (h : mission.happen peer strategy pace act = some next) :
    Leads peer strategy pace mission next := ⟨[act], by rw [run, h]; rfl⟩

/-- What works do to the link they do to a mission, wherever it stands. -/
theorem run_works {link : Link σ} {works : List (Link.Work σ)}
    (h : mission.link.run peer (works.map .work) = some link) :
    mission.run peer strategy pace (works.map .work) = some (mission.setLink link) := by
  induction works generalizing mission with
  | nil =>
    obtain rfl := Option.some.inj h
    rfl
  | cons work more ih =>
    obtain ⟨next, hnext, hmore⟩ := Option.bind_eq_some_iff.1 h
    have hwork : mission.happen peer strategy pace (.work work) = some (mission.setLink next) :=
      Option.map_eq_some_iff.2 ⟨next, hnext, rfl⟩
    rw [List.map_cons, run, hwork]
    exact ih hmore

/-- A command that is called for can be served at once, wherever the mission stands. -/
theorem run_serving (mission : Mission σ μ) (peer : Peer σ) (strategy : Strategy μ)
    (pace : Stage.Pace) (robot : RobotName) (command : Command) (wait : Nat → Place)
    (hline : mission.link.line = []) (hrequests : mission.link.requests = [])
    (hreplies : mission.link.replies = []) :
    (mission.call robot command wait).run peer strategy pace
        ((Link.serving mission.link.calls.length).map .work) =
      some ((mission.call robot command wait).setLink
        (mission.link.exchanged peer robot command .waiting)) :=
  run_works (mission.link.run_serving peer robot command hline hrequests hreplies)

/-- An outcome that the link tells is told to the client. -/
theorem take_eq (mission : Mission σ μ) {id : Nat} {call : Call} {link : Link σ}
    {outcome : Except CommandError Outcome} (hcall : mission.link.calls[id]? = some call)
    (htake : mission.link.take id = some (outcome, link)) :
    mission.take id = some (outcome, mission.setClient { mission.stage.client with
      far := link
      exchanges := mission.stage.client.exchanges ++ [⟨call.robot, call.command, outcome⟩] }) := by
  rw [take, hcall, htake]

/-- The outcome of a command that was served at once is told. -/
theorem take_served (mission : Mission σ μ) (peer : Peer σ) (robot : RobotName) (command : Command)
    (wait : Nat → Place) :
    let outcome := Reply.decodeMessage (mission.link.answered peer robot command).1
    ((mission.call robot command wait).setLink
        (mission.link.exchanged peer robot command .waiting)).take mission.link.calls.length =
      some (outcome, (mission.call robot command wait).setClient { mission.stage.client with
        far := mission.link.exchanged peer robot command (.told outcome)
        exchanges := mission.stage.client.exchanges ++ [⟨robot, command, outcome⟩] }) := by
  intro outcome
  have hcall : (mission.link.exchanged peer robot command .waiting).calls[mission.link.calls.length]? =
      some ⟨robot, command, .done outcome, .waiting⟩ := List.getElem?_concat_length
  exact take_eq ((mission.call robot command wait).setLink
    (mission.link.exchanged peer robot command .waiting)) hcall (mission.link.take_exchanged peer ..)

/-- A frame comes in while the task stands anywhere. -/
theorem Leads.receive (stage : Stage σ μ) (link : Link σ) (place : Place) (frame : Bytes) :
    Leads peer strategy pace ⟨stage.sharing link, place⟩
      ⟨({ stage with client := stage.client.receive frame }).sharing link, place⟩ := by
  have hreceive : (stage.sharing link).client.receive frame =
      (({ stage with client := stage.client.receive frame } : Stage σ μ).sharing link).client := by
    obtain ⟨⟨key, world, far, exchanges, updates, unseen, closed⟩, memory, pool, drawings, printed,
      arrivals⟩ := stage
    unfold Client.receive
    dsimp only [Stage.sharing]
    cases closed with
    | true => rfl
    | false =>
      cases world.receiveFrame frame updates with
      | error fault => rfl
      | ok world => rfl
  have hhappen : happen peer strategy pace ⟨stage.sharing link, place⟩ (.frame frame) =
      some ⟨({ stage with client := stage.client.receive frame }).sharing link, place⟩ := by
    rw [happen, setClient, hreceive]
    rfl
  exact .of_happen _ hhappen

/-- A mission goes on from what something came to, or is halted by it. -/
def orHalt {α : Type} (mission : Mission σ μ) (result : Except Halt α) (next : α → Mission σ μ) :
    Mission σ μ :=
  match result with
  | .error halt => mission.halt halt
  | .ok value => next value

/-- A frame, or none, comes in while the task stands anywhere. -/
theorem Leads.arrive (stage : Stage σ μ) (link : Link σ) (place : Place) (arrival : Option Bytes) :
    Leads peer strategy pace ⟨stage.sharing link, place⟩
      ⟨({ stage with client := stage.client.arrive arrival }).sharing link, place⟩ := by
  cases arrival with
  | none => exact .refl _
  | some frame => exact .receive stage link place frame

section Commands

variable (strategy : Strategy μ) (pace : Stage.Pace) {server : Server σ} (stage : Stage σ μ)
  {link : Link σ} {client : Client σ}

/-- A command that is called for is served at once, its outcome is told, and the task goes on from
there as it goes on from every outcome. -/
theorem Leads.exists_outcome {robot : RobotName} {command : Command}
    {result : Except SessionError Outcome} (h : Link.Rests link stage.client)
    (hcommand : stage.client.command server robot command = (result, client)) (place : Place)
    (wait : Nat → Place) (next : Mission σ μ → Except CommandError Outcome → Mission σ μ)
    (hgo : ∀ mission : Mission σ μ, mission.place = wait link.calls.length →
      mission.go strategy pace .zero =
        (mission.take link.calls.length).map fun taken => next taken.2 taken.1) :
    ∃ told outcome, Link.Rests told client ∧ result = outcome.mapError (.command robot) ∧
      Leads server.peer strategy pace (call ⟨stage.sharing link, place⟩ robot command wait)
        (next ⟨({ stage with client := client }).sharing told, wait link.calls.length⟩ outcome) := by
  let outcome := Reply.decodeMessage (link.answered server.peer robot command).1
  obtain ⟨hrests, heq⟩ : Link.Rests _ _ ∧ _ := h.exchanged robot command (.told outcome)
  rw [hcommand] at hrests heq
  obtain ⟨hresult, hclient⟩ := Prod.mk.inj heq
  let mission : Mission σ μ := ⟨stage.sharing link, place⟩
  have hserved := mission.run_serving server.peer strategy pace robot command wait h.line h.requests
    h.replies
  have htake := mission.take_served server.peer robot command wait
  refine ⟨_, outcome, hrests, hresult, Leads.trans ⟨_, hserved⟩ (.of_happen (.go .zero) ?_)⟩
  rw [happen, hgo _ rfl]
  change Option.map _ (Mission.take _ mission.link.calls.length) = _
  rw [htake, hclient]
  rfl

/-- One step of an order brings a mission to what follows the outcome. -/
theorem Leads.gotoOnce (h : Link.Rests link stage.client) (order : GotoOrder) (more : List GotoOrder)
    {result : Except Halt Bool}
    (hgoto : stage.client.gotoOnce server order.robot order.target = (result, client)) :
    ∃ told place outcome, Link.Rests told client ∧
      Leads server.peer strategy pace ⟨stage.sharing link, .carrying (order :: more)⟩
        (orHalt ⟨({ stage with client := client }).sharing told, place⟩ result fun arrived =>
          stepped ⟨({ stage with client := client }).sharing told, place⟩ arrived order more
            (.ok outcome)) := by
  have hgo : Leads server.peer strategy pace ⟨stage.sharing link, .carrying (order :: more)⟩
      (advance ⟨stage.sharing link, .carrying (order :: more)⟩ order more) :=
    .of_happen (.go .zero) rfl
  unfold Client.gotoOnce at hgoto
  unfold advance at hgo
  dsimp only [Stage.sharing] at hgo
  cases hstep : stage.client.world.stepTo order.robot order.target with
  | error halt =>
    rw [hstep] at hgo hgoto
    obtain ⟨rfl, rfl⟩ := Prod.mk.inj hgoto
    exact ⟨link, .carrying (order :: more), .applied, h, hgo⟩
  | ok step =>
    rw [hstep] at hgo hgoto
    dsimp only at hgo hgoto
    cases hcommand : stage.client.command server order.robot (.control step.velocity) with
    | mk sent after =>
      rw [hcommand] at hgoto
      obtain ⟨told, outcome, hrests, rfl, hleads⟩ := Leads.exists_outcome strategy pace stage h hcommand
        (.carrying (order :: more)) (fun id => .stepping id step.arrived order more)
        (fun mission outcome => mission.stepped step.arrived order more outcome)
        (fun mission hplace => by obtain ⟨stage, place⟩ := mission; cases hplace; rfl)
      cases outcome with
      | error cause =>
        obtain ⟨rfl, rfl⟩ := Prod.mk.inj hgoto
        exact ⟨told, _, .applied, hrests, hgo.trans hleads⟩
      | ok outcome =>
        obtain ⟨rfl, rfl⟩ := Prod.mk.inj hgoto
        exact ⟨told, _, outcome, hrests, hgo.trans hleads⟩

/-- The stop of a robot that has arrived brings a mission to what follows the order. -/
theorem Leads.gotoEnd (h : Link.Rests link stage.client) (place : Place) (order : GotoOrder)
    (more : List GotoOrder) {result : Except SessionError Outcome}
    (hstop : stage.client.command server order.robot .stop = (result, client)) :
    ∃ told place', Link.Rests told client ∧
      Leads server.peer strategy pace
        (call ⟨stage.sharing link, place⟩ order.robot .stop fun id => .arriving id order more)
        (orHalt ⟨({ stage with client := client }).sharing told, place'⟩ (result.mapError .error) fun _ =>
          fulfil ⟨({ stage with client := client }).sharing told, place'⟩ order more) := by
  obtain ⟨told, outcome, hrests, rfl, hleads⟩ := Leads.exists_outcome strategy pace stage h hstop place
    (fun id => .arriving id order more) (fun mission outcome => mission.arrived order more outcome)
    (fun mission hplace => by obtain ⟨stage, place⟩ := mission; cases hplace; rfl)
  cases outcome with
  | error cause => exact ⟨told, _, hrests, hleads⟩
  | ok outcome => exact ⟨told, _, hrests, hleads⟩

/-- The steps of an order that is waited for bring a mission to what follows the order. -/
theorem Leads.approach (h : Link.Rests link stage.client) {order : GotoOrder}
    (hwait : order.wait = true) (more : List GotoOrder) {arrivals left : Client.Arrivals}
    {result : Except Halt Bool}
    (hgoto : Client.approach server Client.arrive order.robot order.target arrivals stage.client =
      (result, client, left)) :
    ∃ told place, Link.Rests told client ∧
      Leads server.peer strategy pace ⟨stage.sharing link, .carrying (order :: more)⟩
        (orHalt ⟨({ stage with client := client }).sharing told, place⟩ result fun _ =>
          fulfil ⟨({ stage with client := client }).sharing told, place⟩ order more) := by
  have harrived (mission : Mission σ μ) (outcome : Outcome) :
      mission.stepped true order more (.ok outcome) =
        mission.call order.robot .stop fun id => .arriving id order more := by
    rw [stepped, hwait]
    rfl
  have hshort (mission : Mission σ μ) (outcome : Outcome) :
      mission.stepped false order more (.ok outcome) =
        { mission with place := .resting order more } := by
    rw [stepped, hwait]
    rfl
  generalize hclient : stage.client = before at hgoto
  fun_induction Client.approach server Client.arrive order.robot order.target arrivals before
    generalizing stage link with
  | case1 arrivals before halt after honce =>
    subst hclient
    cases hgoto
    obtain ⟨told, place, outcome, hrests, hleads⟩ := Leads.gotoOnce strategy pace stage h order more honce
    exact ⟨told, place, hrests, hleads⟩
  | case2 arrivals before after honce sent stopped hstop
  | case3 arrivals before after honce sent stopped hstop =>
    subst hclient
    cases hgoto
    obtain ⟨told, place, outcome, hrests, hleads⟩ := Leads.gotoOnce strategy pace stage h order more honce
    rw [orHalt, harrived] at hleads
    obtain ⟨told, place, hrests, hstopped⟩ :=
      Leads.gotoEnd strategy pace { stage with client := after } hrests place order more hstop
    exact ⟨told, place, hrests, hleads.trans hstopped⟩
  | case4 before after honce =>
    subst hclient
    cases hgoto
    obtain ⟨told, place, outcome, hrests, hleads⟩ := Leads.gotoOnce strategy pace stage h order more honce
    rw [orHalt, hshort] at hleads
    exact ⟨told, _, hrests, hleads.trans (.of_happen .stop rfl)⟩
  | case5 before after honce arrival later ih =>
    subst hclient
    obtain ⟨told, place, outcome, hrests, hleads⟩ := Leads.gotoOnce strategy pace stage h order more honce
    rw [orHalt, hshort] at hleads
    have harrive : Leads server.peer strategy pace
        ⟨({ stage with client := after }).sharing told, .resting order more⟩
        ⟨({ stage with client := after.arrive arrival }).sharing told, .resting order more⟩ :=
      .arrive { stage with client := after } told (.resting order more) arrival
    have hgo : Leads server.peer strategy pace
        ⟨({ stage with client := after.arrive arrival }).sharing told, .resting order more⟩
        ⟨({ stage with client := after.arrive arrival }).sharing told, .carrying (order :: more)⟩ :=
      .of_happen (.go .zero) rfl
    obtain ⟨told, place, hrests, hlater⟩ :=
      ih { stage with client := after.arrive arrival } (hrests.arrive arrival) rfl hgoto
    exact ⟨told, place, hrests, ((hleads.trans harrive).trans hgo).trans hlater⟩

/-- An order brings a mission to what follows it. -/
theorem Leads.goTo (h : Link.Rests link stage.client) (order : GotoOrder) (more : List GotoOrder)
    {result : Except Halt Unit} {later : Stage σ μ}
    (hgoto : stage.goTo server order = (result, later)) :
    ∃ told place, Link.Rests told later.client ∧
      Leads server.peer strategy pace ⟨stage.sharing link, .carrying (order :: more)⟩
        (orHalt ⟨later.sharing told, place⟩ result fun _ =>
          fulfil ⟨later.sharing told, place⟩ order more) := by
  unfold Stage.goTo at hgoto
  cases hwait : order.wait with
  | true =>
    cases hwaited :
        Client.approach server Client.arrive order.robot order.target stage.arrivals stage.client with
    | mk waited rest =>
      rw [hwait, if_pos rfl, Client.gotoWait, hwaited] at hgoto
      cases hgoto
      obtain ⟨told, place, hrests, hleads⟩ := Leads.approach strategy pace stage h hwait more hwaited
      exact ⟨told, place, hrests, by cases waited <;> exact hleads⟩
  | false =>
    cases honce : stage.client.gotoOnce server order.robot order.target with
    | mk once client =>
      rw [hwait, if_neg Bool.false_ne_true, honce] at hgoto
      cases hgoto
      obtain ⟨told, place, outcome, hrests, hleads⟩ :=
        Leads.gotoOnce strategy pace stage h order more honce
      refine ⟨told, place, hrests, ?_⟩
      cases once with
      | error halt => exact hleads
      | ok arrived =>
        rw [orHalt, stepped, hwait] at hleads
        exact hleads

/-- Orders bring a mission to the end of them. -/
theorem Leads.carryOut (h : Link.Rests link stage.client) (orders : List GotoOrder)
    {result : Except Halt Unit} {later : Stage σ μ}
    (hcarry : Stage.carryOut server orders stage = (result, later)) :
    ∃ told place, Link.Rests told later.client ∧
      Leads server.peer strategy pace ⟨stage.sharing link, .carrying orders⟩
        (orHalt ⟨later.sharing told, place⟩ result fun _ => ⟨later.sharing told, .carrying []⟩) := by
  induction orders generalizing stage link with
  | nil =>
    cases hcarry
    exact ⟨link, .carrying [], h, .refl _⟩
  | cons order more ih =>
    cases hgoto : stage.goTo server order with
    | mk gone after =>
      rw [Stage.carryOut, Stage.fulfil, hgoto] at hcarry
      obtain ⟨told, place, hrests, hleads⟩ := Leads.goTo strategy pace stage h order more hgoto
      cases gone with
      | error halt =>
        cases hcarry
        exact ⟨told, place, hrests, hleads⟩
      | ok =>
        obtain ⟨told, place, hrests, hmore⟩ := ih (after.drawTarget order) hrests hcarry
        exact ⟨told, place, hrests, hleads.trans hmore⟩

/-- A step brings a mission back to where it pauses. -/
theorem Leads.step (h : Link.Rests link stage.client) {result : Except Halt Unit} {later : Stage σ μ}
    (hstep : stage.step server strategy .zero = (result, later)) :
    ∃ told place, Link.Rests told later.client ∧
      Leads server.peer strategy pace (begin strategy .zero ⟨stage.sharing link, .pausing⟩)
        (orHalt ⟨later.sharing told, place⟩ result fun _ => ⟨later.sharing told, .pausing⟩) := by
  let begun := stage.begin strategy .zero
  have hbegin : begin strategy .zero ⟨stage.sharing link, .pausing⟩ =
      ⟨begun.2.sharing link, .carrying begun.1⟩ := by
    rw [Mission.begin, stage.begin_sharing]
  have hseen : Link.Rests link begun.2.client := (stage.client_begin strategy .zero).symm ▸ h
  rw [hbegin]
  cases hcarry : begun.2.carryOut server begun.1 with
  | mk carried after =>
    obtain ⟨told, place, hrests, hleads⟩ := Leads.carryOut strategy pace _ hseen begun.1 hcarry
    unfold Stage.step at hstep
    dsimp only at hstep
    rw [hcarry] at hstep
    cases carried with
    | error halt =>
      cases hstep
      exact ⟨told, place, hrests, hleads⟩
    | ok =>
      replace hstep : after.showWatched strategy = (result, later) := hstep
      have hgo : happen server.peer strategy pace ⟨after.sharing told, .carrying []⟩ (.go .zero) =
          some (orHalt ⟨later.sharing told, .carrying []⟩ result fun _ => ⟨later.sharing told, .pausing⟩) := by
        dsimp only [happen, go]
        rw [after.showWatched_sharing, hstep]
        cases result with
        | error halt => rfl
        | ok => rfl
      rcases after.showWatched_cases strategy with ⟨-, hshown⟩ | ⟨shown, hshown, hclient⟩
      · cases hstep.symm.trans hshown
        exact ⟨told, .carrying [], hrests, hleads.trans (.of_happen _ hgo)⟩
      · cases hstep.symm.trans hshown
        exact ⟨told, .carrying [], hclient.symm ▸ hrests, hleads.trans (.of_happen _ hgo)⟩

/-- The loop that steps in every period brings a mission to its halt. -/
theorem Leads.poll (h : Link.Rests link stage.client) (count : Nat) {halt : Halt} {later : Stage σ μ}
    (hpoll : stage.poll server strategy count = (halt, later)) :
    ∃ told place, Link.Rests told later.client ∧
      Leads server.peer strategy .polling (start (stage.sharing link))
        (Mission.halt ⟨later.sharing told, place⟩ halt) := by
  induction count generalizing stage link with
  | zero =>
    cases hpoll
    exact ⟨link, .pausing, h, .of_happen .stop rfl⟩
  | succ count ih =>
    cases hstep : stage.step server strategy .zero with
    | mk result after =>
      rw [Stage.poll, hstep] at hpoll
      obtain ⟨told, place, hrests, hleads⟩ := Leads.step strategy .polling stage h hstep
      have hgo : Leads server.peer strategy .polling (start (stage.sharing link))
          (begin strategy .zero ⟨stage.sharing link, .pausing⟩) := .of_happen (.go .zero) rfl
      cases result with
      | error halt =>
        cases hpoll
        exact ⟨told, place, hrests, hgo.trans hleads⟩
      | ok =>
        dsimp only at hpoll
        cases harrivals : after.arrivals with
        | nil =>
          rw [harrivals] at hpoll
          cases hpoll
          exact ⟨told, .pausing, hrests, (hgo.trans hleads).trans (.of_happen .stop rfl)⟩
        | cons arrival more =>
          rw [harrivals] at hpoll
          obtain ⟨last, place, hlast, hmore⟩ := ih _ (hrests.arrive arrival) hpoll
          have harrive : Leads server.peer strategy .polling ⟨after.sharing told, .pausing⟩
              ⟨({ after with client := after.client.arrive arrival }).sharing told, .pausing⟩ :=
            .arrive after told .pausing arrival
          exact ⟨last, place, hlast, ((hgo.trans hleads).trans harrive).trans hmore⟩

/-- The loop that steps at every news brings a mission to its halt. -/
theorem Leads.follow (h : Link.Rests link stage.client) (count : Nat) {halt : Halt} {later : Stage σ μ}
    (hfollow : stage.follow server strategy count = (halt, later)) :
    ∃ told place, Link.Rests told later.client ∧
      Leads server.peer strategy .onUpdate (start (stage.sharing link))
        (Mission.halt ⟨later.sharing told, place⟩ halt) := by
  induction count generalizing stage link with
  | zero =>
    cases hfollow
    exact ⟨link, .pausing, h, .of_happen .stop rfl⟩
  | succ count ih =>
    obtain ⟨⟨key, world, far, exchanges, updates, unseen, closed⟩, memory, pool, drawings, printed,
      arrivals⟩ := stage
    cases unseen with
    | true =>
      let looked : Stage σ μ := ⟨⟨key, world, far, exchanges, updates, false, closed⟩, memory, pool,
        drawings, printed, arrivals⟩
      have hlooked : Link.Rests link looked.client := ⟨h.key, h.far, h.line, h.requests, h.replies⟩
      have hnext : Client.nextUpdate ⟨key, world, far, exchanges, updates, true, closed⟩ =
          (.fresh, looked.client) := rfl
      rw [Stage.follow, hnext] at hfollow
      dsimp only at hfollow
      have hgo : Leads server.peer strategy .onUpdate
          (start (Stage.sharing ⟨⟨key, world, far, exchanges, updates, true, closed⟩, memory, pool,
            drawings, printed, arrivals⟩ link))
          (begin strategy .zero ⟨looked.sharing link, .pausing⟩) := .of_happen (.go .zero) rfl
      cases hstep : looked.step server strategy .zero with
      | mk result after =>
        rw [hstep] at hfollow
        obtain ⟨told, place, hrests, hleads⟩ := Leads.step strategy .onUpdate looked hlooked hstep
        cases result with
        | error halt =>
          cases hfollow
          exact ⟨told, place, hrests, hgo.trans hleads⟩
        | ok =>
          obtain ⟨last, place, hlast, hmore⟩ := ih after hrests hfollow
          exact ⟨last, place, hlast, (hgo.trans hleads).trans hmore⟩
    | false =>
      cases closed with
      | true =>
        cases hfollow
        exact ⟨link, .pausing, h, .of_happen (.go .zero) rfl⟩
      | false =>
        cases arrivals with
        | nil =>
          cases hfollow
          exact ⟨link, .pausing, h, .of_happen .stop rfl⟩
        | cons arrival more =>
          obtain ⟨last, place, hlast, hmore⟩ := ih _ (h.arrive arrival) hfollow
          exact ⟨last, place, hlast, (Leads.arrive _ link .pausing arrival).trans hmore⟩

/-- The stops of robots bring a mission to the end of them. -/
theorem Leads.stopMotion (h : Link.Rests link stage.client) (robots : List RobotName)
    (hstopped : robots.foldl (fun client robot => (client.command server robot .stop).2)
      stage.client = client) (result : Except SessionError Unit) :
    ∃ told, Link.Rests told client ∧
      Leads server.peer strategy pace ⟨stage.sharing link, .closing robots result⟩
        ⟨({ stage with client := client }).sharing told, .closing [] result⟩ := by
  induction robots generalizing stage link with
  | nil =>
    cases hstopped
    exact ⟨link, h, .refl _⟩
  | cons robot more ih =>
    cases hstop : stage.client.command server robot .stop with
    | mk outcome next =>
      obtain ⟨told, outcome, hrests, -, hleads⟩ := Leads.exists_outcome strategy pace stage h hstop
        (.closing (robot :: more) result) (fun id => .stopping id more result)
        (fun mission _ => { mission with place := .closing more result })
        (fun mission hplace => by obtain ⟨stage, place⟩ := mission; cases hplace; rfl)
      rw [List.foldl_cons, hstop] at hstopped
      obtain ⟨last, hlast, hmore⟩ := ih { stage with client := next } hrests hstopped
      have hgo : Leads server.peer strategy pace ⟨stage.sharing link, .closing (robot :: more) result⟩
          (call ⟨stage.sharing link, .closing (robot :: more) result⟩ robot .stop fun id =>
            .stopping id more result) := .of_happen (.go .zero) rfl
      exact ⟨last, hlast, (hgo.trans hleads).trans hmore⟩

/-- The end of a session brings a mission to its end. -/
theorem Leads.close (h : Link.Rests link stage.client) (result : Except SessionError Unit) :
    ∃ told, Link.Rests told (stage.client.close server) ∧
      Leads server.peer strategy pace ⟨stage.sharing link, .closing RobotName.all result⟩
        ⟨({ stage with client := stage.client.close server }).sharing told, .ended result⟩ := by
  have hend (stopped : Client σ) (told : Link σ) :
      Leads server.peer strategy pace
        ⟨({ stage with client := stopped }).sharing told, .closing [] result⟩
        ⟨({ stage with client := { stopped with closed := true } }).sharing told, .ended result⟩ :=
    .of_happen (.go .zero) rfl
  have hall : RobotName.all.foldl (fun client robot => (client.command server robot .stop).2)
      stage.client = stage.client.stopMotion server := rfl
  obtain ⟨told, hrests, hstopped⟩ := Leads.stopMotion strategy pace stage h RobotName.all hall result
  exact ⟨told, hrests.lose, hstopped.trans (hend _ told)⟩

/-- A loop brings a mission to its halt. -/
theorem Leads.loop (h : Link.Rests link stage.client) {halt : Halt} {later : Stage σ μ}
    (hloop : stage.loop server strategy pace = (halt, later)) :
    ∃ told place, Link.Rests told later.client ∧ ∃ before : Stage σ μ, before.release = later ∧
      Leads server.peer strategy pace (start (stage.sharing link))
        (Mission.halt ⟨before.sharing told, place⟩ halt) := by
  cases pace with
  | polling =>
    cases hpoll : stage.poll server strategy (stage.arrivals.length + 1) with
    | mk halted before =>
      obtain ⟨told, place, hrests, hleads⟩ := Leads.poll strategy stage h _ hpoll
      rw [Stage.loop, hpoll] at hloop
      cases hloop
      exact ⟨told, place, hrests, before, rfl, hleads⟩
  | onUpdate =>
    cases hfollow : stage.follow server strategy (2 * stage.arrivals.length + 2) with
    | mk halted before =>
      obtain ⟨told, place, hrests, hleads⟩ := Leads.follow strategy stage h _ hfollow
      rw [Stage.loop, hfollow] at hloop
      cases hloop
      exact ⟨told, place, hrests, before, rfl, hleads⟩

/-- A control task over a link at rest is a mission under some schedule: one that ends with the
result of the task, or breaks off where the task does. -/
theorem exists_schedule (h : Link.Rests link stage.client) {result : Except SessionError Unit}
    {later : Stage σ μ} (hlaunch : stage.launch server strategy pace = (result, later)) :
    ∃ told place, Link.Rests told later.client ∧
      Leads server.peer strategy pace (start (stage.sharing link)) ⟨later.sharing told, place⟩ ∧
      (place = .ended result ∨ ∃ name, place = .crashed name ∧ result = .error .disconnected) := by
  cases hloop : stage.loop server strategy pace with
  | mk halt halted =>
    rw [Stage.launch, hloop] at hlaunch
    obtain ⟨told, place, hrests, before, rfl, hleads⟩ := Leads.loop strategy pace stage h hloop
    cases halt with
    | stranger name =>
      cases hlaunch
      exact ⟨told, _, hrests, hleads, .inr ⟨name, rfl, rfl⟩⟩
    | error cause =>
      cases hlaunch
      obtain ⟨last, hlast, hended⟩ := Leads.close strategy pace before.release hrests (.error cause)
      exact ⟨last, _, hlast, hleads.trans hended, .inl rfl⟩
    | stopped =>
      cases hlaunch
      obtain ⟨last, hlast, hended⟩ := Leads.close strategy pace before.release hrests (.ok ())
      exact ⟨last, _, hlast, hleads.trans hended, .inl rfl⟩

end Commands

end Mission

end RobotSoccer
