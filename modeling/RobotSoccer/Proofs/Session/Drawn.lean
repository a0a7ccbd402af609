import RobotSoccer.Proofs.Session.Intake
import RobotSoccer.Proofs.Session.Marks
import RobotSoccer.Proofs.Session.WholeSteps

/-!
# What a control loop draws

Whatever steps are taken, whatever becomes of them and whoever else draws on the pool: a loop shows the
ball where it was last known when a step began, each robot as it was looked at last, and for each robot
the target of the latest order that was carried out, each of them once.
-/

namespace RobotSoccer

namespace World

/-- A robot that was seen stays seen whatever happens. -/
theorem hasSeen_after {world : World} {name : RobotName} (h : world.hasSeen (.robot name) = true)
    (steps : List (Event × Instant)) : (world.after steps).hasSeen (.robot name) = true := by
  obtain ⟨view, hview, hposition⟩ := hasSeen_robot_iff.1 h
  obtain ⟨later, hlater, hpose, -⟩ := robot?_after name hview steps
  refine hasSeen_robot_iff.2 ⟨later, hlater, ?_⟩
  rw [RobotView.hasPosition, hpose, Option.isSome_or, Bool.or_eq_true]
  exact .inr hposition

/-- A history may be cut in two anywhere. -/
theorem after_append (world : World) (before behind : List (Event × Instant)) :
    world.after (before ++ behind) = (world.after before).after behind := List.foldl_append

end World

namespace Client

variable {σ : Type}

/-- A frame that comes in is an event, or nothing happens. -/
theorem exists_world_receive (client : Client σ) (frame : Bytes) :
    ∃ steps, (client.receive frame).world = client.world.after steps := by
  cases hclosed : client.closed with
  | true => exact ⟨[], by rw [receive_of_closed hclosed]; rfl⟩
  | false =>
    refine ⟨[(.frame frame, client.updates)], ?_⟩
    rw [receive, hclosed, if_neg Bool.false_ne_true, World.after, List.foldl_cons, List.foldl_nil,
      World.happen]
    cases client.world.receiveFrame frame client.updates with
    | error fault => rfl
    | ok world => rfl

/-- What comes in during a period is an event, or nothing happens. -/
theorem exists_world_arrive (client : Client σ) (arrival : Option Bytes) :
    ∃ steps, (client.arrive arrival).world = client.world.after steps := by
  cases arrival with
  | none => exact ⟨[], rfl⟩
  | some frame => exact client.exists_world_receive frame

variable {server : Server σ} {client sent : Client σ} {robot : RobotName} {target : Pose Float}

/-- A command does nothing to the world. -/
theorem world_command {command : Command} {result : Except SessionError Outcome}
    (h : client.command server robot command = (result, sent)) : sent.world = client.world :=
  congrArg (fun sent => sent.2.world) h.symm

/-- A step of a robot does nothing to the world. -/
theorem world_gotoOnce {result : Except Halt Bool}
    (h : client.gotoOnce server robot target = (result, sent)) : sent.world = client.world := by
  unfold gotoOnce at h
  cases hstep : client.world.stepTo robot target with
  | error halt => rw [hstep] at h; cases h; rfl
  | ok step =>
    rw [hstep] at h
    dsimp only at h
    rcases hsent : client.command server robot (.control step.velocity) with ⟨cause | outcome, later⟩
    · rw [hsent] at h; cases h; exact world_command hsent
    · rw [hsent] at h; cases h; exact world_command hsent

/-- A step is taken only by a robot that plays. -/
theorem plays_of_gotoOnce {arrived : Bool}
    (h : client.gotoOnce server robot target = (.ok arrived, sent)) : robot ∈ RobotName.all := by
  unfold gotoOnce at h
  cases hstep : client.world.stepTo robot target with
  | error halt => rw [hstep] at h; cases h
  | ok step => exact World.plays_of_stepTo hstep

/-- While a robot is waited for nothing happens to the world but events, and only a robot that plays
comes to its target. -/
theorem approach_spec (server : Server σ) (robot : RobotName) (target : Pose Float) (arrivals : Arrivals)
    (client : Client σ) :
    let approached := approach server arrive robot target arrivals client
    (∃ steps, approached.2.1.world = client.world.after steps) ∧
      (approached.1.isOk → robot ∈ RobotName.all) := by
  dsimp only
  fun_induction approach server arrive robot target arrivals client with
  | case1 arrivals client halt sent hsent => exact ⟨⟨[], world_gotoOnce hsent⟩, nofun⟩
  | case2 arrivals client sent hsent cause later hstop =>
    exact ⟨⟨[], (world_command hstop).trans (world_gotoOnce hsent)⟩, nofun⟩
  | case3 arrivals client sent hsent outcome later hstop =>
    exact ⟨⟨[], (world_command hstop).trans (world_gotoOnce hsent)⟩, fun _ => plays_of_gotoOnce hsent⟩
  | case4 client sent hsent => exact ⟨⟨[], world_gotoOnce hsent⟩, nofun⟩
  | case5 client sent hsent arrival more ih =>
    refine ⟨?_, fun _ => plays_of_gotoOnce hsent⟩
    obtain ⟨steps, hsteps⟩ := ih.1
    obtain ⟨came, hcame⟩ := sent.exists_world_arrive arrival
    exact ⟨came ++ steps, by rw [hsteps, hcame, world_gotoOnce hsent, World.after_append]⟩

end Client

/-- An order on its way does nothing to what is drawn. Nothing happens to the world but events, and only
a robot that plays comes to its target. -/
theorem Stage.goTo_spec {σ μ : Type} (server : Server σ) (stage : Stage σ μ) (order : GotoOrder) :
    (stage.goTo server order).2.pool = stage.pool ∧
      (stage.goTo server order).2.drawings = stage.drawings ∧
      (∃ steps, (stage.goTo server order).2.client.world = stage.client.world.after steps) ∧
      ((stage.goTo server order).1 = .ok () → order.robot ∈ RobotName.all) := by
  unfold goTo
  cases order.wait with
  | true =>
    obtain ⟨hworld, hplays⟩ :=
      Client.approach_spec server order.robot order.target stage.arrivals stage.client
    rw [if_pos rfl, Client.gotoWait]
    rcases happroached : Client.approach server Client.arrive order.robot order.target stage.arrivals
      stage.client with ⟨halt | arrived, client, left⟩
    · rw [happroached] at hworld
      exact ⟨rfl, rfl, hworld, nofun⟩
    · rw [happroached] at hworld hplays
      exact ⟨rfl, rfl, hworld, fun _ => hplays rfl⟩
  | false =>
    rcases hsent : stage.client.gotoOnce server order.robot order.target with ⟨halt | arrived, sent⟩
    · exact ⟨rfl, rfl, ⟨[], Client.world_gotoOnce hsent⟩, nofun⟩
    · exact ⟨rfl, rfl, ⟨[], Client.world_gotoOnce hsent⟩, fun _ => Client.plays_of_gotoOnce hsent⟩

namespace Scene

variable {σ μ : Type} {server : Server σ} {scene : Scene σ μ} {marks : List Mark} {deeds : List Deed}

/-- What is drawn, with the guards of the others. -/
def gallery (scene : Scene σ μ) : Gallery := ⟨scene.stage.pool, scene.others⟩

/-- A robot was looked at in the step under way, or in the last one. -/
def LookedAt (marks : List Mark) (name : RobotName) : Prop :=
  (latest (Mark.sight? name) (Mark.sinceBegan marks)).isSome = true

/-- The robot that was seen and whose flag is looked at next. -/
def flagged : Progress → List RobotName
  | .flagging _ name _ _ => [name]
  | .between | .looking _ _ | .carrying _ => []

/-- A loop that shows what it should, among others who do. -/
structure Shows (scene : Scene σ μ) (marks : List Mark) (deeds : List Deed) : Prop where
  /-- The pool holds what the loop and the others should show. -/
  gallery : scene.gallery.Shows (Deed.exhibited deeds) scene.stage.drawings.guard? (Mark.shown marks)
  /-- A robot that was seen when it was looked at is known to the world. -/
  seen : ∀ name sight, latest (Mark.sight? name) marks = some (some sight) →
    scene.stage.client.world.hasSeen (.robot name) = true
  /-- A robot that was seen and whose flag is looked at next is known to the world. -/
  flagged : ∀ name ∈ flagged scene.progress, scene.stage.client.world.hasSeen (.robot name) = true
  /-- Once a step has begun every robot was looked at but for those that are left. -/
  looked : scene.progress = .between ∧ marks = [] ∨
    ∀ name ∈ RobotName.all, name ∈ scene.progress.left ∨ LookedAt marks name

/-- In a step every robot was looked at but for those that are left. -/
theorem Shows.looked_of_begun (h : scene.Shows marks deeds) {progress : Progress}
    (hprogress : scene.progress = progress) (hbegun : progress ≠ .between) :
    ∀ name ∈ RobotName.all, name ∈ progress.left ∨ LookedAt marks name := by
  subst hprogress
  exact h.looked.resolve_left fun hstart => hbegun hstart.1

/-- Nothing that happens to the world changes what is shown. -/
theorem Shows.of_world (h : scene.Shows marks deeds) (event : World.Event) (now : Instant) :
    (scene.happen server (.world event now)).Shows marks deeds where
  gallery := h.gallery
  seen name sight hsight := World.hasSeen_after (h.seen name sight hsight) [(event, now)]
  flagged name hname := World.hasSeen_after (h.flagged name hname) [(event, now)]
  looked := h.looked

/-- Others who draw do nothing to what the loop shows. -/
theorem Shows.of_other (h : scene.Shows marks deeds) (deed : Deed) :
    (scene.happen server (.other deed)).Shows marks (deeds ++ [deed]) where
  gallery := by
    have hshows := h.gallery.perform deed
    rw [Deed.exhibited, List.foldl_concat]
    exact hshows
  seen := h.seen
  flagged := h.flagged
  looked := h.looked

/-- A step that begins shows the ball, if it is known. -/
theorem Shows.of_begin (h : scene.Shows marks deeds) (hprogress : scene.progress = .between) :
    (scene.happen server .begin).Shows (marks ++ [.began scene.stage.client.world.ball]) deeds := by
  obtain ⟨stage, others, progress⟩ := scene
  obtain rfl : progress = .between := hprogress
  have hlatest (ball : Option (Point Float)) (name : RobotName) :
      latest (Mark.sight? name) (marks ++ [.began ball]) = latest (Mark.sight? name) marks :=
    latest_concat _ _
  dsimp only [happen, Stage.drawBall]
  cases hball : stage.client.world.ball with
  | none =>
    refine ⟨?_, fun name sight hsight => h.seen name sight (hlatest _ name ▸ hsight),
      List.forall_mem_nil _, .inr fun name hplays => .inl hplays⟩
    rw [Mark.shown_began_none]
    exact h.gallery
  | some position =>
    refine ⟨?_, fun name sight hsight => h.seen name sight (hlatest _ name ▸ hsight),
      List.forall_mem_nil _, .inr fun name hplays => .inl hplays⟩
    rw [Mark.shown_began_some]
    exact Drawings.shows_draw h.gallery .ball _ (stage.drawings.guard?_drawBall stage.pool _)

/-- A robot that was never seen is not shown. -/
theorem Shows.shown_eq_none (h : scene.Shows marks deeds) {name : RobotName} {view : RobotView}
    (hview : scene.stage.client.world.robot? name = some view) (hpose : view.pose = none) :
    Mark.shown marks (.robot name) = none := by
  refine Option.bind_eq_none_iff.2 fun old hold => Option.map_eq_none_iff.2 ?_
  cases old with
  | none => rfl
  | some sight =>
    obtain ⟨same, hsame, hknown⟩ := World.hasSeen_robot_iff.1 (h.seen name sight hold)
    obtain rfl := Option.some.inj (hview.symm.trans hsame)
    rw [RobotView.hasPosition, hpose] at hknown
    cases hknown

/-- What was seen of a robot when one was looked at after all else. -/
theorem latest_sight_looked (name other : RobotName) (sight : Option Sight) (marks : List Mark) :
    latest (Mark.sight? other) (marks ++ [.looked name sight]) =
      if name = other then some sight else latest (Mark.sight? other) marks := by
  rw [latest_concat, Mark.sight?]
  by_cases hname : name = other
  · rw [if_pos hname, if_pos hname]
    rfl
  · rw [if_neg hname, if_neg hname]
    rfl

/-- A robot that is looked at is no longer left. -/
theorem lookedAt_of_looked {name : RobotName} {left : List RobotName} (sight : Option Sight)
    (h : ∀ other ∈ RobotName.all, other ∈ name :: left ∨ LookedAt marks other) :
    ∀ other ∈ RobotName.all, other ∈ left ∨ LookedAt (marks ++ [.looked name sight]) other := by
  intro other hother
  unfold LookedAt
  rw [Mark.sinceBegan_concat, latest_sight_looked]
  by_cases hname : name = other
  · exact .inr (by rw [if_pos hname]; rfl)
  · rw [if_neg hname]
    exact (h other hother).imp_left fun hmem => (List.mem_cons.1 hmem).resolve_left (Ne.symm hname)

/-- A robot that is looked at and was never seen is not shown. -/
theorem Shows.of_look_unseen (h : scene.Shows marks deeds) {seen : Snapshot} {left : List RobotName}
    (hprogress : scene.progress = .looking seen left) {name : RobotName} (hleft : name ∈ left)
    {view : RobotView} (hview : scene.stage.client.world.robot? name = some view)
    (hpose : view.pose = none) :
    Shows { scene with progress := .looking seen (left.erase name) } (marks ++ [.looked name none])
      deeds where
  gallery := by
    have hsame : Mark.shown marks (.robot name) = none := h.shown_eq_none hview hpose
    rw [Mark.shown_looked, Option.map_none, ← hsame, Function.update_eq_self]
    exact h.gallery
  seen other sight hsight := by
    rw [latest_sight_looked] at hsight
    by_cases hname : name = other
    · rw [if_pos hname] at hsight
      cases hsight
    · rw [if_neg hname] at hsight
      exact h.seen other sight hsight
  flagged := List.forall_mem_nil _
  looked := by
    refine .inr (lookedAt_of_looked none fun other hother => ?_)
    exact (h.looked_of_begun hprogress nofun other hother).imp_left (List.perm_cons_erase hleft).mem_iff.1

/-- Nothing is shown yet of a robot that is looked at and was seen. -/
theorem Shows.of_look_seen (h : scene.Shows marks deeds) {seen : Snapshot} {left : List RobotName}
    (hprogress : scene.progress = .looking seen left) {name : RobotName} (hleft : name ∈ left)
    {view : RobotView} (hview : scene.stage.client.world.robot? name = some view) {pose : Pose Float}
    (hpose : view.pose = some pose) :
    Shows { scene with progress := .flagging seen name pose (left.erase name) } marks deeds where
  gallery := h.gallery
  seen := h.seen
  flagged other hother := by
    obtain rfl := List.mem_singleton.1 hother
    exact World.hasSeen_robot_iff.2 ⟨view, hview, congrArg Option.isSome hpose⟩
  looked := .inr fun other hother =>
    (h.looked_of_begun hprogress nofun other hother).imp_left (List.perm_cons_erase hleft).mem_iff.1

/-- A robot that was seen is shown where it was seen and as preempted as it is now. -/
theorem Shows.of_flag (h : scene.Shows marks deeds) {seen : Snapshot} {name : RobotName}
    {pose : Pose Float} {left : List RobotName}
    (hprogress : scene.progress = .flagging seen name pose left) {view : RobotView}
    (hview : scene.stage.client.world.robot? name = some view) :
    Shows { scene with
      stage := scene.stage.drawRobotAt name pose view.status.preempted
      progress := .looking seen left }
      (marks ++ [.looked name (some ⟨pose, view.status.preempted⟩)]) deeds where
  gallery := by
    have hplays : name ∈ RobotName.all :=
      (scene.stage.client.world.robots.isSome_get? name).1 (Option.isSome_iff_exists.2 ⟨view, hview⟩)
    rw [Mark.shown_looked]
    exact Drawings.shows_draw h.gallery (.robot name) _
      (scene.stage.drawings.guard?_drawRobot scene.stage.pool hplays _)
  seen other sight hsight := by
    rw [latest_sight_looked] at hsight
    by_cases hname : name = other
    · refine hname ▸ h.flagged name ?_
      rw [hprogress]
      exact List.mem_singleton_self name
    · rw [if_neg hname] at hsight
      exact h.seen other sight hsight
  flagged := List.forall_mem_nil _
  looked := .inr (lookedAt_of_looked _ (h.looked_of_begun hprogress nofun))

/-- An order that is carried out shows its target; one that fails shows nothing. -/
theorem Shows.of_order (h : scene.Shows marks deeds) {order : GotoOrder} {more : List GotoOrder}
    (hprogress : scene.progress = .carrying (order :: more)) (arrivals : Client.Arrivals) :
    (scene.happen server (.order arrivals)).Shows
      (marks ++ (scene.mark? server (.order arrivals)).toList) deeds := by
  obtain ⟨stage, others, progress⟩ := scene
  obtain rfl : progress = .carrying (order :: more) := hprogress
  obtain ⟨hpool, hdrawings, ⟨steps, hworld⟩, hplays⟩ :=
    Stage.goTo_spec server { stage with arrivals := arrivals } order
  have hlooked := h.looked_of_begun rfl nofun
  dsimp only [happen, mark?, Scene.fulfil, Stage.fulfil]
  cases hsent : Stage.goTo server { stage with arrivals := arrivals } order with
  | mk result sent =>
    rw [hsent] at hpool hdrawings hworld hplays
    have hseen (name : RobotName) (sight : Sight)
        (hsight : latest (Mark.sight? name) marks = some (some sight)) :
        sent.client.world.hasSeen (.robot name) = true := by
      rw [hworld]
      exact World.hasSeen_after (h.seen name sight hsight) steps
    have hshows : Gallery.Shows ⟨sent.pool, others⟩ (Deed.exhibited deeds) sent.drawings.guard?
        (Mark.shown marks) := by
      rw [hpool, hdrawings]
      exact h.gallery
    cases result with
    | error halt =>
      dsimp only
      rw [Option.toList_none, List.append_nil]
      exact ⟨hshows, hseen, List.forall_mem_nil _, .inr hlooked⟩
    | ok =>
      dsimp only
      rw [Option.toList_some]
      have hlatest (name : RobotName) (list : List Mark) :
          latest (Mark.sight? name) (list ++ [.reached order]) = latest (Mark.sight? name) list :=
        latest_concat _ _
      refine ⟨?_, fun name sight hsight => hseen name sight (hlatest name marks ▸ hsight),
        List.forall_mem_nil _, .inr fun name hname => ?_⟩
      · rw [Mark.shown_reached]
        exact Drawings.shows_draw hshows (.target order.robot) _
          (sent.drawings.guard?_drawTarget sent.pool (hplays rfl) _)
      · rw [LookedAt, Mark.sinceBegan_concat, hlatest]
        exact hlooked name hname

/-- The end of a step that is over changes nothing of what is shown. -/
theorem Shows.of_between (h : scene.Shows marks deeds) {orders : List GotoOrder}
    (hprogress : scene.progress = .carrying orders) {stage : Stage σ μ}
    (hclient : stage.client = scene.stage.client) (hpool : stage.pool = scene.stage.pool)
    (hdrawings : stage.drawings = scene.stage.drawings) :
    Shows ⟨stage, scene.others, .between⟩ marks deeds := by
  have hlooked := h.looked_of_begun hprogress nofun
  refine ⟨?_, fun name sight hsight => ?_, List.forall_mem_nil _, .inr hlooked⟩
  · change Gallery.Shows ⟨stage.pool, scene.others⟩ _ stage.drawings.guard? _
    rw [hpool, hdrawings]
    exact h.gallery
  · rw [hclient]
    exact h.seen name sight hsight

/-- Whatever happens, the loop shows what it should afterwards. -/
theorem Shows.of_happen (h : scene.Shows marks deeds) (server : Server σ) (cue : Cue μ) :
    (scene.happen server cue).Shows (marks ++ (scene.mark? server cue).toList)
      (deeds ++ cue.deed?.toList) := by
  have hnone {later : Scene σ μ} (hlater : later.Shows marks deeds) :
      later.Shows (marks ++ []) (deeds ++ []) := by
    rw [List.append_nil, List.append_nil]
    exact hlater
  have hsame : scene.Shows (marks ++ []) (deeds ++ []) := hnone h
  cases cue with
  | world event now => exact hnone (h.of_world event now)
  | other deed =>
    have hother : (scene.happen server (.other deed)).Shows marks (deeds ++ [deed]) := h.of_other deed
    rw [mark?, Option.toList_none, List.append_nil]
    exact hother
  | begin =>
    obtain ⟨stage, others, progress⟩ := scene
    cases progress with
    | between =>
      rw [Cue.deed?, Option.toList_none, List.append_nil]
      exact h.of_begin rfl
    | looking seen left | flagging seen name pose left | carrying orders => exact hsame
  | look name =>
    obtain ⟨stage, others, progress⟩ := scene
    cases progress with
    | between | flagging seen name pose left | carrying orders => exact hsame
    | looking seen left =>
      dsimp only [mark?, happen]
      cases hview : stage.client.world.robot? name with
      | none => exact hsame
      | some view =>
        dsimp only
        by_cases hleft : name ∈ left
        · rw [if_pos hleft]
          cases hpose : view.pose with
          | none =>
            rw [if_pos ⟨hleft, rfl⟩, Cue.deed?, Option.toList_none, List.append_nil]
            exact h.of_look_unseen rfl hleft hview hpose
          | some pose =>
            rw [if_neg fun hunseen => Bool.false_ne_true hunseen.2]
            exact hnone (h.of_look_seen rfl hleft hview hpose)
        · rw [if_neg hleft, if_neg fun hunseen => hleft hunseen.1]
          exact hsame
  | flag =>
    obtain ⟨stage, others, progress⟩ := scene
    cases progress with
    | between | looking seen left | carrying orders => exact hsame
    | flagging seen name pose left =>
      dsimp only [mark?, happen]
      cases hview : stage.client.world.robot? name with
      | none => exact hsame
      | some view =>
        rw [Cue.deed?, Option.toList_none, List.append_nil]
        exact h.of_flag rfl hview
  | plan strategy time =>
    obtain ⟨stage, others, progress⟩ := scene
    cases progress with
    | between | flagging seen name pose left | carrying orders => exact hsame
    | looking seen left =>
      cases left with
      | nil =>
        have hlooked := h.looked_of_begun rfl nofun
        exact hnone ⟨h.gallery, h.seen, List.forall_mem_nil _, .inr hlooked⟩
      | cons name more => exact hsame
  | order arrivals =>
    obtain ⟨stage, others, progress⟩ := scene
    cases progress with
    | between | looking seen left | flagging seen name pose left => exact hsame
    | carrying orders =>
      cases orders with
      | nil => exact hsame
      | cons order more =>
        rw [Cue.deed?, Option.toList_none, List.append_nil]
        exact h.of_order rfl arrivals
  | finish strategy =>
    obtain ⟨stage, others, progress⟩ := scene
    cases progress with
    | between | looking seen left | flagging seen name pose left => exact hsame
    | carrying orders =>
      cases orders with
      | nil =>
        have hframe := stage.showWatched_frame strategy
        exact hnone (h.of_between rfl (by rw [hframe]) (by rw [hframe]) (by rw [hframe]))
      | cons order more => exact hsame
  | leave =>
    obtain ⟨stage, others, progress⟩ := scene
    cases progress with
    | between | looking seen left | flagging seen name pose left => exact hsame
    | carrying orders => exact hnone (h.of_between rfl rfl rfl rfl)

/-- Whatever happens one thing after the other, the loop shows what it should afterwards. -/
theorem Shows.after (h : scene.Shows marks deeds) (server : Server σ) (cues : List (Cue μ)) :
    (scene.after server cues).Shows (marks ++ scene.marks server cues)
      (deeds ++ cues.filterMap Cue.deed?) := by
  induction cues generalizing scene marks deeds with
  | nil =>
    rw [Scene.marks, List.filterMap_nil, List.append_nil, List.append_nil]
    exact h
  | cons cue more ih =>
    have hmore := ih (h.of_happen server cue)
    rw [List.append_assoc, List.append_assoc] at hmore
    have hdeeds : cue.deed?.toList ++ more.filterMap Cue.deed? = (cue :: more).filterMap Cue.deed? := by
      rw [List.filterMap_cons]
      cases cue.deed? <;> rfl
    rw [← hdeeds]
    exact hmore

/-- Nothing should be shown when nobody has drawn anything. -/
theorem shows_fresh (client : Client σ) (memory : μ) (draws : List GuardId) :
    (fresh client memory draws).Shows [] [] where
  gallery := by
    have hguards : Drawings.blank.guard? = fun _ => none := funext Drawings.guard?_blank
    have hshown : Mark.shown [] = fun _ => none := by
      funext slot
      cases slot <;> rfl
    rw [hshown]
    exact hguards ▸ Gallery.shows_fresh draws
  seen _ _ hsight := nomatch hsight
  flagged := List.forall_mem_nil _
  looked := .inl ⟨rfl, rfl⟩

/-- What the others should show is left when the loop drops its drawings. -/
theorem Shows.of_release (h : scene.Shows marks deeds) :
    Gallery.Shows ⟨scene.stage.release.pool, scene.others⟩ (Deed.exhibited deeds)
      (fun _ : Slot => none) fun _ => none :=
  ⟨h.gallery.length_eq, h.gallery.held.dropAll fun _ => Drawings.mem_guards⟩

/-- Whatever steps are taken with the same drawings, whatever becomes of them, and whoever else draws on
the pool meanwhile: each slot of the loop has a guard exactly when it should show something, and its
guard holds that. A frame has what the loop should show and what the others should show, each once, and
nothing else. Behind a step that has looked at all robots each of them is shown as that step saw it. The
guards of the others hold what they should, and that is what is left when the loop drops its drawings.
A step that is taken as a whole is one of these, with cues and marks of its own. -/
theorem drawing_law (server : Server σ) (client : Client σ) (memory : μ) (draws : List GuardId)
    (cues : List (Cue μ)) :
    let scene := (fresh client memory draws).after server cues
    let marks := (fresh client memory draws).marks server cues
    let others := Deed.exhibited (cues.filterMap Cue.deed?)
    (∀ slot, (scene.stage.drawings.guard? slot).map scene.stage.pool.get? =
      (Mark.shown marks slot).map some) ∧
    scene.stage.pool.shapes.Perm (Slot.all.filterMap (Mark.shown marks) ++ others.filterMap id) ∧
    (scene.progress.left = [] → marks ≠ [] → ∀ name ∈ RobotName.all,
      ∃ sight, latest (Mark.sight? name) (Mark.sinceBegan marks) = some sight ∧
        Mark.shown marks (.robot name) = sight.map (Sight.drawable name)) ∧
    (∀ place, (scene.gallery.guard? place).map scene.stage.pool.get? = others[place]?.join.map some) ∧
    scene.stage.release.pool.shapes.Perm (others.filterMap id) ∧
    (∀ place, (scene.gallery.guard? place).map scene.stage.release.pool.get? =
      (scene.gallery.guard? place).map scene.stage.pool.get?) ∧
    ∀ strategy time, scene.progress = .between →
      let step := stepCues server strategy time scene.stage
      scene.after server step = ⟨(scene.stage.step server strategy time).2, scene.others, .between⟩ ∧
        scene.marks server step = stepMarks server strategy time scene.stage ∧
        step.filterMap Cue.deed? = [] := by
  intro scene marks others
  have hshows : scene.Shows marks (cues.filterMap Cue.deed?) :=
    (shows_fresh client memory draws).after server cues
  have hreleased := hshows.of_release
  refine ⟨fun slot => hshows.gallery.held.agree (.inl slot),
    hshows.gallery.perm_shapes Slot.nodup_all fun _ _ => Drawings.mem_all_of_guard?, ?last,
    fun place => hshows.gallery.held.agree (.inr place), ?released, fun place => ?same,
    fun strategy time hbetween => ?whole⟩
  case last =>
    intro hover hbegun name hname
    have hleft := hshows.looked.resolve_left (fun hstart => hbegun hstart.2) name hname
    rw [hover] at hleft
    have hlooked : LookedAt marks name := hleft.resolve_left List.not_mem_nil
    obtain ⟨sight, hsight⟩ := Option.isSome_iff_exists.1 hlooked
    refine ⟨sight, hsight, ?_⟩
    rw [Mark.shown, Mark.latest_sinceBegan hsight]
    rfl
  case released =>
    exact hreleased.perm_shapes List.nodup_nil fun _ id hid => (Option.some_ne_none id hid.symm).elim
  case same =>
    exact (hreleased.held.agree (.inr place)).trans (hshows.gallery.held.agree (.inr place)).symm
  case whole =>
    obtain ⟨hafter, hmarks⟩ := after_stepCues server scene.others strategy time scene.stage
    rw [← hbetween] at hafter hmarks
    exact ⟨hafter.trans (by rw [hbetween]), hmarks, deeds_stepCues server strategy time scene.stage⟩

end Scene

end RobotSoccer
