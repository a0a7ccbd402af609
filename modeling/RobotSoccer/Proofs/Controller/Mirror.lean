import RobotSoccer.Proofs.Controller.Published
import RobotSoccer.Proofs.Controller.Requests
import RobotSoccer.Proofs.Packet.RoundTrip
import RobotSoccer.Proofs.World.LastWriter

/-!
# A client mirrors the controller

A client that missed any of the earlier frames and then takes in the packet of the latest tick
knows of every robot what the controller holds about it, each number as its own text is read. This
rests on what the controller never takes back: a packet that a client missed said nothing that the
latest one leaves unsaid.
-/

namespace RobotSoccer.Controller

/-- The coordinates that a run publishes are finite: those in the packet of each tick. -/
def PublishesFinite (controller : Controller) (events : List Event) : Prop :=
  ∀ packet ∈ controller.packets events, packet.Located

/-- No frame that is pushed as it is can be taken for a packet. -/
def PushesNoPacket (events : List Event) : Prop :=
  ∀ frame, .pushRaw frame ∈ events → ∀ packet, Packet.decode frame ≠ .ok packet

/-- Frames that come in, each at its time, as what happens to a world. -/
def hearing (heard : List (Bytes × Instant)) : List (World.Event × Instant) :=
  heard.map fun entry => (.frame entry.1, entry.2)

/-- What a client knows of a robot is what the controller holds about it: where it stands, each number
as its own text is read, and whether it is preempted, which is when any order for it is answered so. -/
structure Mirrors (controller : Controller) (robot : RobotName) (view : RobotView) : Prop where
  /-- The pose is the one that the controller holds, as it is read again. -/
  pose : view.pose = (controller.pitch.robotPose? robot).map Pose.reread
  /-- The robot is preempted exactly when the controller answers orders for it so, for whatever
  reasons. -/
  preempted : ∀ bytes order, orderFor? controller.keys robot bytes = some order →
    (view.status.preempted = true ↔
      ∃ reasons, (controller.answer bytes).1 = notApplied (preemptionText order reasons))
  /-- The reasons that the controller then gives are those that are known of the robot. -/
  reasons : ∀ bytes order, orderFor? controller.keys robot bytes = some order →
    view.status.preempted = true → (controller.answer bytes).1 =
      notApplied (preemptionText order view.status.preemptionReasons)

/-- The text for a preempted robot is not the one for an unknown command. -/
theorem preemptionText_ne (order : Order) (reasons : List String) :
    preemptionText order reasons ≠ "Unknown command" := by
  intro h
  have hstart : "Robot ".toList = ['R', 'o', 'b', 'o', 't', ' '] := by decide
  have hfirst := congrArg (fun text : String => text.toList.head?) h
  rw [preemptionText] at hfirst
  simp only [String.toList_append, List.append_assoc, hstart, List.cons_append,
    List.head?_cons] at hfirst
  exact absurd hfirst (by decide)

/-- No order for a robot that is not preempted is answered as if it were. -/
theorem Holding.obey_of_free {holding : Holding}
    (hfree : holding.status.filter (·.preempted) = none) (order : Order)
    (reasons : List String) :
    (holding.obey order).1 ≠ notApplied (preemptionText order reasons) := by
  rw [obey, hfree]
  dsimp only
  cases ordered? order.command with
  | none =>
    intro h
    injection h with h
    injection h with _ h
    injection h with h
    injection h with h
    exact preemptionText_ne order reasons h.symm
  | some velocity =>
    have happlied := (notApplied_ne_applied (preemptionText order reasons)).symm
    cases velocity with
    | none => exact happlied
    | some velocity => exact happlied

/-- An order for a robot that is held as preempted is answered so, for the reasons held. -/
theorem Holding.obey_of_preempted {holding : Holding}
    (h : (holding.status.getD .blank).preempted = true) (order : Order) :
    (holding.obey order).1 =
      notApplied (preemptionText order (holding.status.getD .blank).preemptionReasons) := by
  cases hstatus : holding.status with
  | none =>
    rw [hstatus] at h
    cases h
  | some status =>
    rw [hstatus, Option.getD_some] at h
    rw [obey, hstatus, Option.filter_some_pos h]
    rfl

/-- An order for a robot is answered as one for a preempted robot exactly when it is held as such. -/
theorem Holding.preempted_iff (holding : Holding) (order : Order) :
    (holding.status.getD .blank).preempted = true ↔
      ∃ reasons, (holding.obey order).1 = notApplied (preemptionText order reasons) := by
  refine ⟨fun h => ⟨_, obey_of_preempted h order⟩, fun ⟨reasons, hreply⟩ => ?_⟩
  by_contra hfree
  refine obey_of_free (Option.eq_none_iff_forall_ne_some.2 fun status hfound => ?_) order reasons
    hreply
  obtain ⟨hstatus, hpreempted⟩ := Option.filter_eq_some_iff.1 hfound
  rw [hstatus, Option.getD_some] at hfree
  exact hfree hpreempted

section Run

variable {keys : TeamKeys} {events : List Event}

/-- The packet of a tick of a run from the start is decoded as it is received and read again. -/
theorem decode_tick (hfinite : (fresh keys).PublishesFinite events) {before after : List Event}
    (hsplit : events = before ++ [.tick] ++ after) :
    Packet.decode (run (fresh keys) (before ++ [.tick])).2.pitch.packet.encode =
      .ok (run (fresh keys) (before ++ [.tick])).2.pitch.packet.received.reread := by
  have hpacket := packet_mem_packets (fresh keys) before after
  rw [← hsplit] at hpacket
  refine Packet.decode_encode ⟨hfinite _ hpacket, ?_⟩
  rw [timer_run_fresh]
  decide

/-- A frame of a run from the start is no packet or is that of a tick. -/
theorem decode_published (hfinite : (fresh keys).PublishesFinite events)
    (hraw : PushesNoPacket events) {frame : Bytes} {packet : Packet}
    (hframe : frame ∈ (fresh keys).published events)
    (hdecode : Packet.decode frame = .ok packet) :
    ∃ before after, events = before ++ [.tick] ++ after ∧
      packet = (run (fresh keys) (before ++ [.tick])).2.pitch.packet.received.reread := by
  rcases mem_published hframe with hwaited | hpushed | ⟨before, after, hsplit, hsame⟩
  · cases hwaited
  · exact absurd hdecode (hraw frame hpushed packet)
  · refine ⟨before, after, hsplit, ?_⟩
    rw [hsame, decode_tick hfinite hsplit] at hdecode
    exact (Except.ok.inj hdecode).symm

/-- What a run does not hold about the pose of a robot in the end, no packet of it said. -/
theorem pose?_published (hfinite : (fresh keys).PublishesFinite events)
    (hraw : PushesNoPacket events) {robot : RobotName}
    (hnone : (run (fresh keys) events).2.pitch.robotPose? robot = none) {frame : Bytes}
    (hframe : frame ∈ (fresh keys).published events) :
    (World.Event.frame frame).pose? robot = none := by
  unfold World.Event.pose?
  dsimp only
  cases hdecode : Packet.decode frame with
  | error fault => rfl
  | ok packet =>
    obtain ⟨before, after, hsplit, rfl⟩ := decode_published hfinite hraw hframe hdecode
    rw [hsplit, run_append] at hnone
    dsimp only
    rw [Packet.get?_markers_reread]
    exact Option.map_eq_none_iff.2 ((pose_run_eq_none _ robot after).1 hnone).1

/-- What a run does not hold about the status of a robot in the end, no packet of it said. -/
theorem status?_published (hfinite : (fresh keys).PublishesFinite events)
    (hraw : PushesNoPacket events) {robot : RobotName}
    (hnone : ((run (fresh keys) events).2.holding robot).status = none) {frame : Bytes}
    (hframe : frame ∈ (fresh keys).published events) :
    (World.Event.frame frame).status? robot = none := by
  unfold World.Event.status?
  dsimp only
  cases hdecode : Packet.decode frame with
  | error fault => rfl
  | ok packet =>
    obtain ⟨before, after, hsplit, rfl⟩ := decode_published hfinite hraw hframe hdecode
    rw [hsplit, run_append] at hnone
    have hbefore := status_of_run_eq_none hnone
    dsimp only
    rw [Packet.robotStatus?_reread, Packet.robotStatus?_received]
    exact Option.map_eq_none_iff.2 (Option.map_eq_none_iff.2 hbefore)

variable {earlier : List Bytes} {last : Bytes} {heard : List (Bytes × Instant)}

/-- What comes in last in a run that ends with a tick is the packet that the controller then
holds. -/
theorem decode_last (hfinite : (fresh keys).PublishesFinite (events ++ [.tick]))
    (hpublished : (fresh keys).published (events ++ [.tick]) = earlier ++ [last]) :
    Packet.decode last =
      .ok (run (fresh keys) (events ++ [.tick])).2.pitch.packet.received.reread := by
  rw [last_published hpublished]
  exact decode_tick hfinite (List.append_nil _).symm

/-- An event of a run that ends with a tick comes before the tick, unless it is one. -/
theorem mem_of_mem_concat_tick {event : Event} (hmem : event ∈ events ++ [.tick])
    (htick : event ≠ .tick) : event ∈ events := by
  rcases List.mem_append.1 hmem with hmem | hlast
  · exact hmem
  · exact absurd (List.mem_singleton.1 hlast) htick

/-- What comes in last is heard behind the rest. -/
theorem hearing_concat (heard : List (Bytes × Instant)) (last : Bytes) (now : Instant) :
    hearing (heard ++ [(last, now)]) = hearing heard ++ [(.frame last, now)] := List.map_append

/-- What the last frame says is the latest thing heard, when the earlier frames say nothing
unless the last one does. -/
theorem latest_hearing {α : Type} {said : World.Event → Option α} (now : Instant)
    (hheard : (heard.map (·.1)).Sublist earlier)
    (hsilent : said (.frame last) = none → ∀ frame ∈ earlier, said (.frame frame) = none) :
    latest (fun step => said step.1) (hearing (heard ++ [(last, now)])) =
      said (.frame last) := by
  rw [hearing_concat, latest_concat]
  cases hlast : said (.frame last) with
  | some value => rfl
  | none =>
    rw [Option.none_or]
    refine latest_eq_none fun step hstep => ?_
    obtain ⟨entry, hentry, rfl⟩ := List.mem_map.1 hstep
    exact hsilent hlast entry.1 (hheard.subset (List.mem_map_of_mem hentry))

/-- What the packet of the latest tick says about the pose of a robot is the pose held, as it is read
again. -/
theorem pose?_last (hfinite : (fresh keys).PublishesFinite (events ++ [.tick]))
    (hpublished : (fresh keys).published (events ++ [.tick]) = earlier ++ [last])
    (robot : RobotName) : (World.Event.frame last).pose? robot =
      ((run (fresh keys) (events ++ [.tick])).2.pitch.robotPose? robot).map Pose.reread := by
  unfold World.Event.pose?
  dsimp only
  rw [decode_last hfinite hpublished]
  exact Packet.get?_markers_reread _ _

/-- What the packet of the latest tick says about the status of a robot is the status held, as it is
received and read again. -/
theorem status?_last (hfinite : (fresh keys).PublishesFinite (events ++ [.tick]))
    (hpublished : (fresh keys).published (events ++ [.tick]) = earlier ++ [last])
    (robot : RobotName) : (World.Event.frame last).status? robot =
      (((run (fresh keys) (events ++ [.tick])).2.holding robot).status.map
        RobotStatus.received).map RobotStatus.reread := by
  unfold World.Event.status?
  dsimp only
  rw [decode_last hfinite hpublished]
  dsimp only
  rw [Packet.robotStatus?_reread, Packet.robotStatus?_received]
  rfl

/-- After the packet of the latest tick a client views each robot as the controller holds it. -/
theorem view_latest (now : Instant)
    (hfinite : (fresh keys).PublishesFinite (events ++ [.tick])) (hraw : PushesNoPacket events)
    (hpublished : (fresh keys).published (events ++ [.tick]) = earlier ++ [last])
    (hheard : (heard.map (·.1)).Sublist earlier) {robot : RobotName}
    (hplays : robot ∈ RobotName.all) :
    ∃ view, (World.blank.after (hearing (heard ++ [(last, now)]))).robot? robot = some view ∧
      view.pose =
        ((run (fresh keys) (events ++ [.tick])).2.pitch.robotPose? robot).map Pose.reread ∧
      view.status = ((((run (fresh keys) (events ++ [.tick])).2.holding robot).status.map
        RobotStatus.received).map RobotStatus.reread).getD .blank := by
  have hraws : PushesNoPacket (events ++ [.tick]) := fun frame hframe =>
    hraw frame (mem_of_mem_concat_tick hframe Event.noConfusion)
  have hearlier : ∀ frame ∈ earlier, frame ∈ (fresh keys).published (events ++ [.tick]) := by
    intro frame hframe
    rw [hpublished]
    exact List.mem_append_left _ hframe
  have hlastPose := pose?_last hfinite hpublished robot
  have hlastStatus := status?_last hfinite hpublished robot
  have hpose := latest_hearing now hheard fun hnone frame hframe =>
    pose?_published hfinite hraws
      (Option.map_eq_none_iff.1 (hlastPose.symm.trans hnone)) (hearlier frame hframe)
  have hstatus := latest_hearing now hheard fun hnone frame hframe =>
    status?_published hfinite hraws
      (Option.map_eq_none_iff.1 (Option.map_eq_none_iff.1 (hlastStatus.symm.trans hnone)))
      (hearlier frame hframe)
  obtain ⟨view, hview, hviewPose, hviewStatus⟩ :=
    World.robot?_after robot (World.robot?_blank hplays) (hearing (heard ++ [(last, now)]))
  rw [hpose, hlastPose] at hviewPose
  rw [hstatus, hlastStatus] at hviewStatus
  exact ⟨view, hview, hviewPose.trans Option.or_none, hviewStatus⟩

/-- A client that views a robot as a controller holds it mirrors the controller. -/
theorem mirrors_of_view {controller : Controller} {robot : RobotName} {view : RobotView}
    (hpose : view.pose = (controller.pitch.robotPose? robot).map Pose.reread)
    (hstatus : view.status = (((controller.holding robot).status.map
      RobotStatus.received).map RobotStatus.reread).getD .blank) :
    controller.Mirrors robot view := by
  have hsame : view.status.preempted = ((controller.holding robot).status.getD .blank).preempted ∧
      view.status.preemptionReasons =
        ((controller.holding robot).status.getD .blank).preemptionReasons := by
    rw [hstatus]
    cases (controller.holding robot).status with
    | none => exact ⟨rfl, rfl⟩
    | some status => exact ⟨rfl, rfl⟩
  refine ⟨hpose, fun bytes order horder => ?_, fun bytes order horder hpreempted => ?_⟩
  · rw [(answer_of_some horder).1, hsame.1]
    exact (controller.holding robot).preempted_iff order
  · rw [(answer_of_some horder).1, hsame.2]
    exact Holding.obey_of_preempted (hsame.1 ▸ hpreempted) order

/-- A pose that is held stays as it is when it is read again exactly when its doubles are read back. -/
theorem map_reread_eq_iff {pose : Option (Pose Float)} :
    pose.map Pose.reread = pose ↔ ∀ held ∈ pose, ∀ x ∈ held.doubles, Number.ReadsBack x := by
  cases pose with
  | none => exact iff_of_true rfl fun held hheld => (Option.not_mem_none held hheld).elim
  | some held =>
    rw [Option.map_some, Option.some.injEq, Pose.reread_eq_iff]
    exact ⟨fun h other hother => Option.some.inj hother ▸ h, fun h => h held rfl⟩

/-- After the packet of the latest tick a client mirrors the controller, whichever of the
earlier frames it took in before, in order and at any times. Of each robot that plays it knows
what the controller holds about it, and a pose exactly when the robot was ever put somewhere; the
ball is where the controller has it or, when it has none, where the client last saw it. Numbers
are as their own texts are read: a pose is exactly the one held when its doubles are read back, and
only then, and so is the ball when its coordinates are. -/
theorem mirrors_latest (keys : TeamKeys) (events : List Event) (earlier : List Bytes)
    (last : Bytes) (heard : List (Bytes × Instant)) (now : Instant)
    (hfinite : (fresh keys).PublishesFinite (events ++ [.tick]))
    (hraw : PushesNoPacket events)
    (hpublished : (fresh keys).published (events ++ [.tick]) = earlier ++ [last])
    (hheard : (heard.map (·.1)).Sublist earlier) :
    (∀ robot ∈ RobotName.all, ∃ view,
      (World.blank.after (hearing (heard ++ [(last, now)]))).robot? robot = some view ∧
      (run (fresh keys) (events ++ [.tick])).2.Mirrors robot view ∧
      (view.pose = none ↔ ∀ pose, .setRobot robot pose ∉ events) ∧
      (view.pose = (run (fresh keys) (events ++ [.tick])).2.pitch.robotPose? robot ↔
        ∀ held ∈ (run (fresh keys) (events ++ [.tick])).2.pitch.robotPose? robot,
          ∀ x ∈ held.doubles, Number.ReadsBack x)) ∧
    (World.blank.after (hearing (heard ++ [(last, now)]))).ball =
      ((run (fresh keys) (events ++ [.tick])).2.pitch.packet.ball.map Point.reread).or
        (latest (fun step => step.1.ball?) (hearing heard)) ∧
    ∀ p, (run (fresh keys) (events ++ [.tick])).2.pitch.packet.ball = some p →
      ((World.blank.after (hearing (heard ++ [(last, now)]))).ball = some p ↔
        ∀ x ∈ p.doubles, Number.ReadsBack x) := by
  have hball : (World.blank.after (hearing (heard ++ [(last, now)]))).ball =
      ((run (fresh keys) (events ++ [.tick])).2.pitch.packet.ball.map Point.reread).or
        (latest (fun step => step.1.ball?) (hearing heard)) := by
    have hlast : (World.Event.frame last).ball? =
        (run (fresh keys) (events ++ [.tick])).2.pitch.packet.ball.map Point.reread := by
      unfold World.Event.ball?
      dsimp only
      rw [decode_last hfinite hpublished]
      rfl
    rw [World.ball_after, hearing_concat, latest_concat, hlast]
    exact Option.or_none
  refine ⟨fun robot hplays => ?_, hball, fun p hp => ?_⟩
  · obtain ⟨view, hview, hpose, hstatus⟩ := view_latest now hfinite hraw hpublished hheard hplays
    refine ⟨view, hview, mirrors_of_view hpose hstatus, ?_, hpose ▸ map_reread_eq_iff⟩
    have hstart : (fresh keys).pitch.robotPose? robot = none := rfl
    rw [hpose, Option.map_eq_none_iff, pose_run_eq_none]
    constructor
    · rintro ⟨-, hnever⟩ pose hmem
      exact hnever pose (List.mem_append_left _ hmem)
    · intro hnever
      exact ⟨hstart, fun pose hmem =>
        hnever pose (mem_of_mem_concat_tick hmem Event.noConfusion)⟩
  · rw [hball, hp, Option.map_some, Option.some_or, Option.some.injEq, Point.reread_eq_iff]

end Run

/-- A run in which a robot is placed at a double that its own text is not read as. -/
def offsetRun : List Event := [.setRobot .blue1 (.of 0.09090909090909091 0.0 0.0)]

/-- A client that took in every frame does not know exactly where the controller holds that robot,
although nothing was published that is not finite. -/
theorem mirrors_offset :
    ∃ last view, (fresh ⟨"", ""⟩).PublishesFinite (offsetRun ++ [.tick]) ∧
      PushesNoPacket offsetRun ∧
      (fresh ⟨"", ""⟩).published (offsetRun ++ [.tick]) = [last] ∧
      (World.blank.after (hearing [(last, 0)])).robot? .blue1 = some view ∧
      view.pose ≠ (run (fresh ⟨"", ""⟩) (offsetRun ++ [.tick])).2.pitch.robotPose? .blue1 := by
  have hfinite : (fresh ⟨"", ""⟩).PublishesFinite (offsetRun ++ [.tick]) := by
    refine List.forall_mem_singleton.2 ⟨List.forall_mem_singleton.2 ?_, fun p hp => ?_⟩
    · exact ⟨⟨by decide, by decide⟩, by decide⟩
    · exact (Option.not_mem_none p hp).elim
  have hraw : PushesNoPacket offsetRun := by
    intro frame hframe
    cases List.mem_singleton.1 hframe
  have hheard : (([] : List (Bytes × Instant)).map (·.1)).Sublist [] := List.nil_sublist _
  have hplays : RobotName.blue1 ∈ RobotName.all := by decide
  obtain ⟨view, hview, hpose, -⟩ := view_latest 0 hfinite hraw rfl hheard hplays
  refine ⟨_, view, hfinite, hraw, rfl, hview, fun hsame => ?_⟩
  have hback := map_reread_eq_iff.1 (hpose.symm.trans hsame) _ rfl _ List.mem_cons_self
  exact absurd hback (by decide +kernel)

/-- A run in which the ball lies on the field for two periods, a robot is placed and preempted, and
another is placed before the second; then the ball is taken away and a frame that is no packet is
pushed. -/
def preemptedRun : List Event := [
  .setBall (some ⟨0.5, -0.25⟩), .setRobot .blue1 (.of 0.5 0.0 1.5), .tick,
  .setBall (some ⟨0.75, 0.0⟩), .setRobot .green2 (.of 1.5 0.0 0.0),
  .setPreempted .blue1 (some "foul"), .tick,
  .setBall none, .pushRaw []]

/-- The controller after the first events of that run and of a last tick. -/
def preemptedAfter (count : Nat) : Controller :=
  (run (fresh ⟨"b", "g"⟩) ((preemptedRun ++ [Event.tick]).take count)).2

/-- What is published in that run is finite. -/
theorem publishesFinite_preemptedRun :
    (fresh ⟨"b", "g"⟩).PublishesFinite (preemptedRun ++ [.tick]) := by
  have hblue : (Pose.of 0.5 0.0 1.5 : Pose Float).Finite := ⟨⟨by decide, by decide⟩, by decide⟩
  have hgreen : (Pose.of 1.5 0.0 0.0 : Pose Float).Finite := ⟨⟨by decide, by decide⟩, by decide⟩
  refine List.forall_mem_cons.2 ⟨⟨List.forall_mem_singleton.2 hblue, fun p hp => ?first⟩,
    List.forall_mem_cons.2 ⟨⟨?bothSecond, fun p hp => ?second⟩,
      List.forall_mem_singleton.2 ⟨?bothLast, fun p hp => ?last⟩⟩⟩
  case first => exact Option.some.inj hp ▸ ⟨by decide, by decide⟩
  case bothSecond => exact List.forall_mem_cons.2 ⟨hblue, List.forall_mem_singleton.2 hgreen⟩
  case second => exact Option.some.inj hp ▸ ⟨by decide, by decide⟩
  case bothLast => exact List.forall_mem_cons.2 ⟨hblue, List.forall_mem_singleton.2 hgreen⟩
  case last => exact (Option.not_mem_none p hp).elim

/-- The frame that is pushed in that run is no packet. -/
theorem pushesNoPacket_preemptedRun : PushesNoPacket preemptedRun := by
  intro frame hframe packet hdecode
  simp only [preemptedRun, List.mem_cons, List.not_mem_nil, reduceCtorEq, false_or, or_false,
    Event.pushRaw.injEq] at hframe
  rw [hframe] at hdecode
  cases hdecode

/-- After that run the preempted robot is told the reason. -/
theorem answer_blue1_preemptedRun :
    ((preemptedAfter 10).answer (Request.encode "b" .blue1 .stop)).1 =
      notApplied "Robot 1 of team blue is preempted: foul" := by
  have horder : (Request.order "b" .blue1 .stop).For (preemptedAfter 10).keys .blue1 :=
    order_for .stop (by decide) rfl
  have hstop : preemption? (preemptedAfter 10).pitch .blue1 =
      some (Pitch.givenStatus (some "foul")) := preemption?_eq_some_iff.2 ⟨rfl, rfl⟩
  rw [answer, Request.readOrder_encode]
  dsimp only
  rw [horder.obey_eq, hstop]
  rfl

/-- The packet of the first tick of that run tells of the ball. -/
theorem ball?_preemptedRun :
    (World.Event.frame (preemptedAfter 3).pitch.packet.encode).ball? = some ⟨0.5, -0.25⟩ := by
  have hsplit : preemptedRun ++ [.tick] =
      preemptedRun.take 2 ++ [.tick] ++ (preemptedRun.drop 3 ++ [.tick]) := rfl
  have hafter : preemptedAfter 3 =
      (run (fresh ⟨"b", "g"⟩) (preemptedRun.take 2 ++ [.tick])).2 := rfl
  have hfirst := decode_tick publishesFinite_preemptedRun hsplit
  rw [← hafter] at hfirst
  have hagain : Point.reread ⟨0.5, -0.25⟩ = ⟨0.5, -0.25⟩ := Point.reread_eq_iff.2 (by decide +kernel)
  have hread : (preemptedAfter 3).pitch.packet.reread.ball = some (Point.reread ⟨0.5, -0.25⟩) := rfl
  unfold World.Event.ball?
  dsimp only
  rw [hfirst, ← hagain]
  exact hread

/-- A client that takes in the packet of the first tick, misses those of the second and the frame
behind it, and takes in the packet of the third mirrors the controller: it knows of the robot that is
preempted, of the robot in the packet it missed, and of the ball where it saw it. -/
theorem mirrors_latest_preempted :
    (fresh ⟨"b", "g"⟩).published (preemptedRun ++ [.tick]) = [(preemptedAfter 3).pitch.packet.encode,
        (preemptedAfter 7).pitch.packet.encode, [], (preemptedAfter 10).pitch.packet.encode] ∧
      ((preemptedAfter 10).answer (Request.encode "b" .blue1 .stop)).1 =
        notApplied "Robot 1 of team blue is preempted: foul" ∧
      ∃ world, world = World.blank.after (hearing [((preemptedAfter 3).pitch.packet.encode, 0),
          ((preemptedAfter 10).pitch.packet.encode, 1)]) ∧
        (∃ blue, world.robot? .blue1 = some blue ∧ blue.pose = some (.of 0.5 0.0 1.5) ∧
          blue.status.preempted = true) ∧
        (∃ green, world.robot? .green2 = some green ∧ green.pose = some (.of 1.5 0.0 0.0) ∧
          green.status.preempted = false) ∧
        world.ball = some ⟨0.5, -0.25⟩ := by
  have hpublished : (fresh ⟨"b", "g"⟩).published (preemptedRun ++ [.tick]) =
      [(preemptedAfter 3).pitch.packet.encode, (preemptedAfter 7).pitch.packet.encode, []] ++
        [(preemptedAfter 10).pitch.packet.encode] := rfl
  have hheard : ([((preemptedAfter 3).pitch.packet.encode, (0 : Instant))].map (·.1)).Sublist
      [(preemptedAfter 3).pitch.packet.encode, (preemptedAfter 7).pitch.packet.encode, []] :=
    List.Sublist.cons_cons _ (List.nil_sublist _)
  obtain ⟨hrobots, hball, -⟩ :=
    mirrors_latest ⟨"b", "g"⟩ preemptedRun _ _ _ 1 publishesFinite_preemptedRun
      pushesNoPacket_preemptedRun hpublished hheard
  obtain ⟨blue, hblueView, hblueMirrors, -, hbluePose⟩ := hrobots .blue1 (by decide)
  obtain ⟨green, hgreenView, hgreenMirrors, -, hgreenPose⟩ := hrobots .green2 (by decide)
  have hblueOrder : (Request.order "b" .blue1 .stop).For (preemptedAfter 10).keys .blue1 :=
    order_for .stop (by decide) rfl
  have hgreenOrder : (Request.order "g" .green2 .stop).For (preemptedAfter 10).keys .green2 :=
    order_for .stop (by decide) rfl
  have hanswer := answer_blue1_preemptedRun
  have happlied : ((preemptedAfter 10).answer (Request.encode "g" .green2 .stop)).1 = applied := by
    have hkey : (preemptedAfter 10).keys.of RobotName.green2.team = "g" := rfl
    have hfree : preemption? (preemptedAfter 10).pitch .green2 = none := rfl
    rw [answer_encode .stop (by decide) hkey hfree]
  refine ⟨hpublished, hanswer, _, rfl, ⟨blue, hblueView, ?bluePose, ?preempted⟩,
    ⟨green, hgreenView, ?greenPose, ?free⟩, ?ball⟩
  case bluePose =>
    refine hbluePose.2 fun held hheld => ?_
    obtain rfl := Option.some.inj hheld
    decide +kernel
  case greenPose =>
    refine hgreenPose.2 fun held hheld => ?_
    obtain rfl := Option.some.inj hheld
    decide +kernel
  case preempted =>
    have horder := orderFor?_eq_some_iff.2
      ⟨Request.readOrder_encode "b" .blue1 .stop, hblueOrder⟩
    exact (hblueMirrors.preempted _ _ horder).2 ⟨["foul"], hanswer⟩
  case free =>
    have horder := orderFor?_eq_some_iff.2
      ⟨Request.readOrder_encode "g" .green2 .stop, hgreenOrder⟩
    refine Bool.eq_false_iff.2 fun hpreempted => ?_
    have hreply := hgreenMirrors.reasons _ _ horder hpreempted
    exact notApplied_ne_applied _ (hreply.symm.trans happlied)
  case ball =>
    have hnone : (run (fresh ⟨"b", "g"⟩) (preemptedRun ++ [.tick])).2.pitch.packet.ball = none := rfl
    refine hball.trans ?_
    rw [hnone, Option.map_none, Option.none_or, hearing, List.map_singleton, latest_cons,
      ball?_preemptedRun]
    rfl

end RobotSoccer.Controller
