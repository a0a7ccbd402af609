import Mathlib.Data.List.Range
import RobotSoccer.Proofs.Session.Schedules

/-!
# Missions close their session

However a loop comes to its end, told to stop at any point or failing, the mission then sends a stop
to each robot, one after the other, whatever becomes of each, and nothing else. The only way past it
is a robot that does not play: the mission that looks it up breaks off and stops nobody.
-/

namespace RobotSoccer

/-- The request that is sent, if it is sent for a call from a number on. -/
def Traffic.sent? (first : Nat) : Traffic → Option Bytes
  | sent id request => if first ≤ id then some request else none
  | received _ _ => none

/-- The requests that were sent for the calls from a number on, in the order in which they were
sent. -/
def Link.sentSince {σ : Type} (link : Link σ) (first : Nat) : List Bytes :=
  link.traffic.filterMap (Traffic.sent? first)

/-- A far end after it has answered these commands with one key. -/
def Peer.serve {σ : Type} (peer : Peer σ) (key : String) (far : σ)
    (orders : List (RobotName × Command)) : σ :=
  orders.foldl (fun far order => (peer.answer far (Request.encode key order.1 order.2)).2) far

namespace Mission

variable {σ μ : Type} {peer : Peer σ} {strategy : Strategy μ} {pace : Stage.Pace}
  {mission next : Mission σ μ} {link origin : Link σ} {k : Nat} {dropped : Option Nat}
  {before : List (RobotName × Command)} {turns : List Turn} {current : Option (Nat × Bytes)}
  {robot : RobotName}

/-- A link over which a mission has called for `before`, and then for the stop of every robot. -/
structure Closed (link origin : Link σ) (dropped : Option Nat)
    (before : List (RobotName × Command)) (turns : List Turn) (current : Option (Nat × Bytes)) :
    Prop where
  /-- The turns are those of the link. -/
  orderly : Link.Orderly link turns current
  /-- Every exchange but the stray ones is done, and nothing is waited for. -/
  attended : Link.Attended link turns origin dropped none
  /-- The stops were called for in the order of the robots. -/
  order : link.calls.map Call.order = before ++ RobotName.all.map fun robot => (robot, Command.stop)
  /-- The mission has called for the stops at least. -/
  origin_le : origin.calls.length ≤ before.length
  /-- The dropped exchange is the last before the stops. -/
  last : ∀ id, dropped = some id → id + 1 = before.length

/-- The link of a mission that has come to its end is closed. -/
theorem Sound.exists_closed {result : Except SessionError Unit}
    (h : Sound strategy mission origin dropped)
    (hended : mission.place = .ended result) :
    ∃ before turns current, Closed mission.link origin dropped before turns current := by
  obtain ⟨⟨turns, current, horderly, hattended⟩, hagrees⟩ := h
  rw [hended] at hattended hagrees
  obtain ⟨before, stopped, hall, horder, hfirst, hlast⟩ := hagrees
  obtain rfl : stopped = RobotName.all := (List.append_nil stopped).symm.trans hall
  exact ⟨before, turns, current, horderly, hattended, horder, hfirst, hlast⟩

namespace Closed

/-- The calls are those before the stops and the stops. -/
theorem length_calls (h : Closed link origin dropped before turns current) :
    link.calls.length = before.length + RobotName.all.length := by
  have hlength := congrArg List.length h.order
  rwa [List.length_map, List.length_append, List.length_map] at hlength

/-- A stop is the call for it. -/
theorem exists_call (h : Closed link origin dropped before turns current)
    (hrobot : RobotName.all[k]? = some robot) :
    ∃ call, link.calls[before.length + k]? = some call ∧ call.order = (robot, .stop) := by
  have hget := congrArg (fun orders => orders[before.length + k]?) h.order
  rw [List.getElem?_map, List.getElem?_append_right (Nat.le_add_right _ _), Nat.add_sub_cancel_left,
    List.getElem?_map, hrobot] at hget
  exact Option.map_eq_some_iff.1 hget

/-- A stray call is not one of the stops. -/
theorem lt_of_stray (h : Closed link origin dropped before turns current) {id : Nat}
    (hstray : Link.Stray origin dropped id) : id < before.length := by
  rcases hstray with ⟨call, hcall, -⟩ | hdropped
  · exact Nat.lt_of_lt_of_le (List.getElem?_eq_some_iff.1 hcall).1 h.origin_le
  · exact Nat.lt_of_succ_le (Nat.le_of_eq (h.last id hdropped))

/-- A stop had a turn, with a request to stop its robot. -/
theorem exists_turn (h : Closed link origin dropped before turns current)
    (hrobot : RobotName.all[k]? = some robot) :
    ∃ message, ⟨before.length + k, Request.encode link.key robot .stop, message⟩ ∈ turns := by
  obtain ⟨call, hcall, horder⟩ := h.exists_call hrobot
  obtain ⟨outcome, hdone⟩ := h.attended.done _ call hcall
    (fun hstray => Nat.not_lt.2 (Nat.le_add_right _ k) (h.lt_of_stray hstray)) nofun
  obtain ⟨message, hturn, -⟩ := h.orderly.exists_turn hcall hdone
  obtain ⟨hname, hcommand⟩ := Prod.mk.inj horder
  rw [Call.request, hname, hcommand] at hturn
  exact ⟨message, hturn⟩

/-- The request of a turn from the stops on is one to stop a robot. -/
theorem request_eq (h : Closed link origin dropped before turns current) {turn : Turn}
    (hturn : turn ∈ turns) (hcall : turn.call = before.length + k)
    (hrobot : RobotName.all[k]? = some robot) :
    turn.request = Request.encode link.key robot .stop := by
  obtain ⟨call, hget, hrequest⟩ := h.orderly.request_of_turn hturn
  obtain ⟨stop, hstop, horder⟩ := h.exists_call hrobot
  rw [hcall] at hget
  obtain rfl := Option.some.inj (hget.symm.trans hstop)
  obtain ⟨hname, hcommand⟩ := Prod.mk.inj horder
  rw [hrequest, Call.request, hname, hcommand]

/-- The turns from the stops on. -/
def stops (before : List (RobotName × Command)) (turns : List Turn) : List Turn :=
  turns.filter fun turn => before.length ≤ turn.call

/-- The turns from the stops on are those of the stops, in their order. -/
theorem map_call_stops (h : Closed link origin dropped before turns current) :
    (stops before turns).map (·.call) = List.range' before.length RobotName.all.length := by
  have hmem {turn : Turn} (hturn : turn ∈ stops before turns) :
      turn ∈ turns ∧ before.length ≤ turn.call := by
    obtain ⟨hturn, hle⟩ := List.mem_filter.1 hturn
    exact ⟨hturn, of_decide_eq_true hle⟩
  have hkept {id : Nat} (hid : before.length ≤ id) : ¬ Link.Stray origin dropped id := fun hstray =>
    Nat.not_lt.2 hid (h.lt_of_stray hstray)
  have hsorted : ((stops before turns).map (·.call)).Pairwise (· < ·) := by
    refine List.pairwise_map.2 ((h.attended.sorted.filter _).imp_of_mem ?_)
    intro one other hone hother hinOrder
    have hone := (hmem hone).2
    have hother := (hmem hother).2
    exact hinOrder (.inl (h.origin_le.trans hone)) (hkept hone) (hkept hother)
  have hrange : (List.range' before.length RobotName.all.length).Pairwise (· < ·) :=
    List.pairwise_lt_range' 1
  refine List.Perm.eq_of_pairwise (fun i j _ _ hij hji => absurd hij (Nat.lt_asymm hji)) hsorted
    hrange ?_
  refine (List.perm_ext_iff_of_nodup (hsorted.imp Nat.ne_of_lt)
    (hrange.imp Nat.ne_of_lt)).2 fun id => ?_
  rw [List.mem_range'_1]
  constructor
  · intro hid
    obtain ⟨turn, hturn, rfl⟩ := List.mem_map.1 hid
    obtain ⟨hturn, hle⟩ := hmem hturn
    exact ⟨hle, h.length_calls ▸ h.orderly.known turn hturn⟩
  · rintro ⟨hle, hlt⟩
    obtain ⟨k, rfl⟩ := Nat.exists_eq_add_of_le hle
    have hk : k < RobotName.all.length := Nat.lt_of_add_lt_add_left hlt
    obtain ⟨message, hturn⟩ := h.exists_turn (List.getElem?_eq_getElem hk)
    exact List.mem_map.2 ⟨_, List.mem_filter.2 ⟨hturn, decide_eq_true hle⟩, rfl⟩

/-- What is sent from the stops on is the stops, in the order of the robots. -/
theorem map_request_stops (h : Closed link origin dropped before turns current) :
    (stops before turns).map (·.request) =
      RobotName.all.map fun robot => Request.encode link.key robot .stop := by
  have hcalls := h.map_call_stops
  have hlength : (stops before turns).length = RobotName.all.length := by
    rw [← List.length_map (fun turn : Turn => turn.call), hcalls, List.length_range']
  refine List.ext_getElem (by rw [List.length_map, List.length_map, hlength]) fun k hk hkAll => ?_
  rw [List.length_map] at hk hkAll
  have hcall : (stops before turns)[k].call = before.length + k := by
    have hget := List.getElem_of_eq hcalls (by rwa [List.length_map])
    rwa [List.getElem_map, List.getElem_range', Nat.one_mul] at hget
  rw [List.getElem_map, List.getElem_map]
  exact h.request_eq (List.mem_of_mem_filter (List.getElem_mem hk)) hcall
    (List.getElem?_eq_getElem hkAll)

/-- What is sent from a number on in turns. -/
theorem filterMap_sent? (first : Nat) (turns : List Turn) :
    (turns.flatMap Turn.traffic).filterMap (Traffic.sent? first) =
      (turns.filter fun turn => first ≤ turn.call).map (·.request) := by
  induction turns with
  | nil => rfl
  | cons turn more ih =>
    rw [List.flatMap_cons, List.filterMap_append, ih]
    by_cases hle : first ≤ turn.call
    · simp [Turn.traffic, Traffic.sent?, hle]
    · simp [Turn.traffic, Traffic.sent?, hle]

/-- What is sent from the stops on is the stops, in the order of the robots. -/
theorem sentSince_eq (h : Closed link origin dropped before turns current) :
    link.sentSince before.length =
      RobotName.all.map fun robot => Request.encode link.key robot .stop := by
  have hcurrent : (current.toList.map fun sent => Traffic.sent sent.1 sent.2).filterMap
      (Traffic.sent? before.length) = [] := by
    cases hcurrent : current with
    | none => rfl
    | some sent =>
      obtain ⟨call, hcall, hsent⟩ := h.orderly.sender sent.1 sent.2 hcurrent
      have hlt : sent.1 < before.length := by
        by_contra hle
        obtain ⟨outcome, hdone⟩ := h.attended.done _ call hcall
          (fun hstray => hle (h.lt_of_stray hstray)) nofun
        cases hsent.symm.trans hdone
      simp [Traffic.sent?, Nat.not_le.2 hlt]
  rw [Link.sentSince, h.orderly.traffic_eq, List.filterMap_append, filterMap_sent?, hcurrent,
    List.append_nil]
  exact h.map_request_stops

end Closed

/-- A mission that broke off calls for nothing more. -/
theorem crashed_stays {name : RobotName} (hcrashed : mission.place = .crashed name)
    {more : List (Act σ)} (hrun : mission.run peer strategy pace more = some next) :
    next.place = .crashed name ∧
      next.link.calls.map Call.order = mission.link.calls.map Call.order := by
  refine run_keeps (fun other => other.place = .crashed name ∧
    other.link.calls.map Call.order = mission.link.calls.map Call.order) ?_ hrun ⟨hcrashed, rfl⟩
  intro before act after hact ⟨hplace, horder⟩
  cases act with
  | work work =>
    obtain ⟨later, hwork, rfl⟩ := Option.map_eq_some_iff.1 hact
    have hhappen : before.link.happen peer (.work work) = some later := hwork
    exact ⟨hplace, ((Link.map_order_of_happen hhappen).trans (List.append_nil _)).trans horder⟩
  | frame bytes =>
    obtain rfl := Option.some.inj hact
    have hfar := before.stage.client.far_receive bytes
    refine ⟨hplace, ?_⟩
    change (before.stage.client.receive bytes).far.calls.map Call.order = _
    rw [hfar]
    exact horder
  | lose =>
    obtain rfl := Option.some.inj hact
    exact ⟨hplace, horder⟩
  | go time =>
    unfold happen go at hact
    rw [hplace] at hact
    cases hact
  | stop =>
    unfold happen Mission.stop at hact
    rw [hplace] at hact
    cases hact

/-- Robots are stopped one after the other, each stop being served at once, and the mission ends. The
first stop has this number. -/
def closingActs (first : Nat) : List RobotName → List (Act σ)
  | [] => [.go .zero]
  | _ :: more =>
    .go .zero :: ((Link.serving first).map .work ++ .go .zero :: closingActs (first + 1) more)

/-- A mission that is left to stop robots over a link that nobody has comes to its end. -/
theorem run_closing (peer : Peer σ) (strategy : Strategy μ) (pace : Stage.Pace)
    (stage : Stage (Link σ) μ) (robots : List RobotName) (result : Except SessionError Unit)
    (hline : stage.client.far.line = []) (hrequests : stage.client.far.requests = [])
    (hreplies : stage.client.far.replies = []) :
    ∃ later : Mission σ μ,
      Mission.run peer strategy pace ⟨stage, .closing robots result⟩
          (closingActs stage.client.far.calls.length robots) = some later ∧
        later.place = .ended result ∧
        later.link.far = peer.serve stage.client.far.key stage.client.far.far
          (robots.map fun robot => (robot, .stop)) ∧
        ∃ stops, later.link.calls = stage.client.far.calls ++ stops ∧
          stops.map Call.order = robots.map (fun robot => (robot, .stop)) ∧
          ∀ call ∈ stops, ∃ outcome, call.phase = .done outcome := by
  induction robots generalizing stage with
  | nil => exact ⟨_, rfl, rfl, rfl, [], (List.append_nil _).symm, rfl, List.forall_mem_nil _⟩
  | cons robot more ih =>
    let mission : Mission σ μ := ⟨stage, .closing (robot :: more) result⟩
    let wait : Nat → Place := fun id => .stopping id more result
    let outcome := Reply.decodeMessage (mission.link.answered peer robot .stop).1
    let stopped := mission.link.exchanged peer robot .stop (.told outcome)
    let after : Stage (Link σ) μ := { stage with client := { stage.client with
      far := stopped
      exchanges := stage.client.exchanges ++ [⟨robot, .stop, outcome⟩] } }
    have hserved := mission.run_serving peer strategy pace robot .stop wait hline hrequests hreplies
    have htake : ((mission.call robot .stop wait).setLink
        (mission.link.exchanged peer robot .stop .waiting)).take mission.link.calls.length =
          some (outcome, _) := mission.take_served peer robot .stop wait
    have hgo : ((mission.call robot .stop wait).setLink
        (mission.link.exchanged peer robot .stop .waiting)).go strategy pace .zero =
          some ⟨after, .closing more result⟩ := by
      change Option.map _ (Mission.take _ mission.link.calls.length) = _
      rw [htake]
      rfl
    obtain ⟨later, hlater, hended, hfar, stops, hcalls, horders, hdone⟩ :=
      ih after hline hrequests hreplies
    have hlength : after.client.far.calls.length = stage.client.far.calls.length + 1 :=
      List.length_append
    rw [hlength] at hlater
    have hcalled : mission.happen peer strategy pace (.go .zero) =
        some (mission.call robot .stop wait) := rfl
    refine ⟨later, ?_, hended, hfar, ⟨robot, .stop, .done outcome, .told outcome⟩ :: stops, ?_, ?_, ?_⟩
    · rw [closingActs, run, hcalled, Option.bind_some, run_append]
      change (Mission.run _ _ _ _ ((Link.serving mission.link.calls.length).map .work)).bind _ = _
      rw [hserved, Option.bind_some, run, happen, hgo]
      exact hlater
    · exact hcalls.trans (List.append_assoc _ _ _)
    · rw [List.map_cons, horders]
      rfl
    · exact List.forall_mem_cons.2 ⟨⟨outcome, rfl⟩, hdone⟩

/-- A task over a link on which nothing was called for, which has seen nothing. -/
def blind : Stage (Link (List Bytes)) Unit := .fresh (.fresh "" (.fresh "" [])) () .empty []

/-- After any run of a mission, whatever went on over the link before. A mission that has come to its
end has called for the stop of every robot behind all that its strategy wanted, and the stops were
sent once each, in the order of the robots, whatever became of them. A mission that broke off was
told by its strategy to look up a robot that does not play, and calls for nothing more. A control
task that sends its commands one by one is such a run, with the same end. -/
theorem closing_law {key : String} {far : σ} {before : List (Link.Act σ)} {stage : Stage (Link σ) μ}
    {acts : List (Act σ)} (hlink : (Link.fresh key far).run peer before = some stage.client.far)
    (hrun : (start stage).run peer strategy pace acts = some mission) :
    (∀ result, mission.place = .ended result → ∃ wanted,
      mission.link.calls.map Call.order =
          wanted ++ RobotName.all.map (fun robot => (robot, Command.stop)) ∧
        stage.client.far.calls.length ≤ wanted.length ∧
        mission.link.sentSince wanted.length =
          RobotName.all.map fun robot => Request.encode key robot .stop) ∧
    (∀ name, mission.place = .crashed name → name ∉ RobotName.all ∧ strategy.Names name ∧
      ∀ more later, mission.run peer strategy pace more = some later →
        later.place = .crashed name ∧
          later.link.calls.map Call.order = mission.link.calls.map Call.order) ∧
    (∀ (server : Server σ) (task later : Stage σ μ) (link : Link σ)
      (result : Except SessionError Unit), link.Rests task.client →
      task.launch server strategy pace = (result, later) → ∃ acts told place,
        (start (task.sharing link)).run server.peer strategy pace acts =
          some ⟨later.sharing told, place⟩ ∧
        (place = .ended result ∨ ∃ name, place = .crashed name ∧ result = .error .disconnected)) := by
  obtain ⟨dropped, hsound⟩ := exists_sound hlink hrun
  refine ⟨fun result hended => ?_, fun name hcrashed => ?_, ?_⟩
  · obtain ⟨wanted, turns, current, hclosed⟩ := hsound.exists_closed hended
    refine ⟨wanted, hclosed.order, hclosed.origin_le, ?_⟩
    rw [hclosed.sentSince_eq, hclosed.attended.key, Link.key_of_run hlink]
    rfl
  · have hagrees := hsound.agrees
    rw [hcrashed] at hagrees
    exact ⟨hagrees.2.1, hagrees.2.2, fun more later => crashed_stays hcrashed⟩
  · intro server task later link result hrests hlaunch
    obtain ⟨told, place, -, ⟨acts, hacts⟩, hplace⟩ :=
      exists_schedule strategy pace task hrests hlaunch
    exact ⟨acts, told, place, hacts, hplace⟩

/-- A mission that parks a robot of which nothing was seen fails, and stops every robot. -/
theorem closing_blind : ∃ mission,
    (start blind).run Server.prepared.peer Strategy.park .polling
        (.go .zero :: .go .zero :: closingActs 0 RobotName.all) = some mission ∧
      mission.place = .ended (.error (.unknownPosition .blue1)) ∧
      mission.link.sentSince 0 = RobotName.all.map fun robot => Request.encode "" robot .stop := by
  have hlink : (Link.fresh "" []).run Server.prepared.peer [] = some blind.client.far := rfl
  obtain ⟨mission, hrun, hended, horder⟩ : ∃ mission,
      (start blind).run Server.prepared.peer Strategy.park .polling
          (.go .zero :: .go .zero :: closingActs 0 RobotName.all) = some mission ∧
        mission.place = .ended (.error (.unknownPosition .blue1)) ∧
        mission.link.calls.map Call.order = RobotName.all.map fun robot => (robot, .stop) :=
    ⟨_, rfl, rfl, rfl⟩
  obtain ⟨wanted, hcalls, -, hsent⟩ := (closing_law hlink hrun).1 _ hended
  obtain rfl : wanted = [] := List.self_eq_append_left.1 (horder.symm.trans hcalls)
  exact ⟨mission, hrun, hended, hsent⟩

/-- The ball was seen, and one robot at the same place. -/
def glimpse : World :=
  (World.blank.updateBall (some ⟨0.0, 0.0⟩)).modifyRobot .blue1 fun view =>
    view.see (.of 0.0 0.0 0.0) 0

/-- A task that sends that robot onto the ball and then looks up one that does not play leaves the
robot turning and stops nobody. -/
theorem launch_astray :
    let task : Stage (List Bytes) Unit :=
      .fresh { Client.fresh "" [] with world := glimpse } () .empty []
    let launched := task.launch Server.prepared (.followBall [.blue1, ⟨.blue, 3⟩] 1.0) .polling
    launched.1 = .error .disconnected ∧ launched.2.client.closed = false ∧
      ∃ velocity, launched.2.client.exchanges = [⟨.blue1, .control velocity, .ok .applied⟩] ∧
        velocity.turn = 1.5 := by
  refine ⟨rfl, rfl, (gotoStep (.of 0.0 0.0 0.0) (.of 0.0 0.0 1.0)).velocity, rfl, ?_⟩
  decide +kernel

end Mission

end RobotSoccer
