import Mathlib.Data.List.DropRight
import Mathlib.Data.List.Induction
import RobotSoccer.Controller.Run
import RobotSoccer.Proofs.Controller.Requests
import RobotSoccer.Proofs.World.LastWriter

/-!
# Velocities and the log

The velocity of a robot is the one that the latest control noted for it ordered since the robot was put
somewhere, with zero for every argument that is no number. What can be read off the log is less: a
control with such an argument was carried out, but no velocity is read from it.
-/

namespace RobotSoccer

/-- The word of a command that was noted. -/
def ReceivedCommand.word? (noted : ReceivedCommand) : Option String :=
  match noted.command with
  | .str word :: _ => some word
  | _ => none

/-- The velocity is read from a control when its three arguments are numbers, and it has these for its
parts. -/
theorem ReceivedCommand.control?_eq_some_iff {noted : ReceivedCommand} {forward left turn : Json}
    (h : noted.command = [.str "control", forward, left, turn]) {velocity : Velocity Float} :
    noted.control? = some velocity ↔
      forward.number? = some velocity.forward ∧ left.number? = some velocity.left ∧
        turn.number? = some velocity.turn := by
  obtain ⟨ahead, aside, around⟩ := velocity
  rw [control?, h]
  dsimp only
  rw [if_pos rfl]
  cases forward.number? with
  | none => exact iff_of_false nofun nofun
  | some x =>
    cases left.number? with
    | none => exact iff_of_false nofun nofun
    | some y =>
      cases turn.number? with
      | none => exact iff_of_false nofun nofun
      | some z => simp only [Option.some.injEq, Velocity.mk.injEq]

namespace Controller

/-- A command orders a velocity when it is a control with three arguments, and these count as its
parts. -/
theorem ordered?_eq_some_some_iff {command : List Json} {velocity : Velocity Float} :
    ordered? command = some (some velocity) ↔
      ∃ forward left turn, command = [.str "control", forward, left, turn] ∧
        velocity = ⟨argument forward, argument left, argument turn⟩ := by
  constructor
  · intro h
    unfold ordered? at h
    split at h
    · rename_i word forward left turn
      obtain ⟨rfl, hvelocity⟩ := Option.ite_none_right_eq_some.1 h
      cases hvelocity
      exact ⟨forward, left, turn, rfl, rfl⟩
    · cases (Option.ite_none_right_eq_some.1 h).2
    · cases h
  · rintro ⟨forward, left, turn, rfl, rfl⟩
    rfl

/-- The velocity that a command noted for a robot ordered. -/
def driven (robot : RobotName) (noted : ReceivedCommand) : Option (Velocity Float) :=
  if noted.robot = robot then (ordered? noted.command).join else none

/-- Whether an event puts a robot somewhere. -/
def Event.places (robot : RobotName) : Event → Bool
  | .setRobot name _ => name = robot
  | .setBall _ | .setPreempted _ _ | .pushRaw _ | .clearReceived | .request _ | .tick => false

/-- A run up to the last event that puts a robot somewhere. -/
def untilPlaced (robot : RobotName) (events : List Event) : List Event :=
  events.rdropWhile fun event => !event.places robot

/-- The commands that were noted in a run from the start since a robot was put somewhere. -/
def notedSincePlaced (keys : TeamKeys) (robot : RobotName) (events : List Event) :
    List ReceivedCommand :=
  (run (fresh keys) events).2.received.drop
    (run (fresh keys) (untilPlaced robot events)).2.received.length

/-- The controls for a robot among noted commands. -/
def controls (robot : RobotName) (noted : List ReceivedCommand) : List ReceivedCommand :=
  noted.filter fun one => one.robot = robot ∧ one.word? = some "control"

/-- What an event notes, unless the log is cleared: at most one command, which is known. It drives its
robot, which stops when it is put somewhere and otherwise keeps its velocity. -/
theorem exists_noted (controller : Controller) (robot : RobotName) {event : Event}
    (hkept : event ≠ .clearReceived) :
    ∃ noted : Option ReceivedCommand,
      (controller.happen event).2.received = controller.received ++ noted.toList ∧
      (∀ one ∈ noted, (ordered? one.command).isSome) ∧
      (controller.happen event).2.pitch.velocities.get? robot.text =
        if event.places robot then none
        else (noted.bind (driven robot)).or (controller.pitch.velocities.get? robot.text) := by
  have hnone := (List.append_nil controller.received).symm
  cases event with
  | setBall ball => exact ⟨none, hnone, nofun, rfl⟩
  | setPreempted name reason => exact ⟨none, hnone, nofun, rfl⟩
  | pushRaw frame => exact ⟨none, hnone, nofun, rfl⟩
  | clearReceived => exact absurd rfl hkept
  | tick => exact ⟨none, hnone, nofun, rfl⟩
  | setRobot name pose =>
    refine ⟨none, hnone, nofun, ?_⟩
    change (controller.pitch.velocities.erase name.text).get? robot.text = _
    rw [Dict.get?_erase, Event.places]
    by_cases hname : name = robot
    · rw [if_pos (congrArg _ hname), if_pos (decide_eq_true hname)]
    · have htext : name.text ≠ robot.text := fun heq => hname (RobotName.text_injective heq)
      rw [if_neg htext, if_neg (by simpa using hname)]
      rfl
  | request bytes =>
    change ∃ noted : Option ReceivedCommand,
      (controller.answer bytes).2.received = controller.received ++ noted.toList ∧
        (∀ one ∈ noted, (ordered? one.command).isSome) ∧
        (controller.answer bytes).2.pitch.velocities.get? robot.text =
          (noted.bind (driven robot)).or (controller.pitch.velocities.get? robot.text)
    rcases controller.answer_effect bytes with ⟨-, hsame⟩ | hcarried
    · rw [hsame]
      exact ⟨none, hnone, nofun, rfl⟩
    · obtain ⟨order, other, velocity, -, -, hordered, hanswer⟩ := hcarried
      rw [hanswer]
      refine ⟨some ⟨other, order.command⟩, rfl, ?_, ?_⟩
      · rintro one ⟨⟩
        rw [hordered]
        rfl
      · rw [Option.bind_some, driven, hordered]
        by_cases hother : other = robot
        · subst hother
          rw [if_pos rfl]
          cases velocity with
          | none => rfl
          | some velocity =>
            exact (Dict.get?_insert _ _ _ _).trans (if_pos rfl)
        · have htext : robot.text ≠ other.text :=
            fun heq => hother (RobotName.text_injective heq).symm
          obtain ⟨-, -, hothers⟩ := drive_frame controller.pitch other velocity
          rw [if_neg hother]
          exact hothers robot.text htext

/-- A log that is not cleared only grows. -/
theorem exists_received_append (controller : Controller) {events : List Event}
    (hkept : .clearReceived ∉ events) :
    ∃ more, (run controller events).2.received = controller.received ++ more := by
  induction events generalizing controller with
  | nil => exact ⟨[], (List.append_nil _).symm⟩
  | cons event more ih =>
    obtain ⟨hevent, hmore⟩ := List.ne_and_not_mem_of_not_mem_cons hkept
    obtain ⟨noted, hnoted, -⟩ := controller.exists_noted .blue1 hevent.symm
    obtain ⟨later, hlater⟩ := ih (controller.happen event).2 hmore
    refine ⟨noted.toList ++ later, ?_⟩
    rw [← List.append_assoc, ← hnoted]
    exact hlater

/-- Every command in the log is known. -/
theorem isSome_ordered?_of_mem_received (keys : TeamKeys) (events : List Event) :
    ∀ noted ∈ (run (fresh keys) events).2.received, (ordered? noted.command).isSome := by
  have hkeeps := @run_keeps fun controller =>
    ∀ noted ∈ controller.received, (ordered? noted.command).isSome
  refine hkeeps ?_ (fresh keys) events nofun
  intro controller event hknown noted hnoted
  by_cases hevent : event = .clearReceived
  · subst hevent
    cases hnoted
  · obtain ⟨one, hreceived, hone, -⟩ := controller.exists_noted .blue1 hevent
    rw [hreceived] at hnoted
    rcases List.mem_append.1 hnoted with hbefore | hnow
    · exact hknown noted hbefore
    · exact hone noted (Option.mem_toList.1 hnow)

/-- What was noted since a robot was put somewhere begins anew when it is put somewhere, and goes on
with what is noted at any other event. -/
theorem notedSincePlaced_concat (keys : TeamKeys) (robot : RobotName) {events : List Event}
    (hkept : .clearReceived ∉ events) {event : Event} {noted : List ReceivedCommand}
    (hnoted : (run (fresh keys) (events ++ [event])).2.received =
      (run (fresh keys) events).2.received ++ noted) :
    notedSincePlaced keys robot (events ++ [event]) =
      if event.places robot then [] else notedSincePlaced keys robot events ++ noted := by
  cases hplaces : event.places robot with
  | true =>
    have huntil : untilPlaced robot (events ++ [event]) = events ++ [event] :=
      List.rdropWhile_concat_neg _ events event (by rw [hplaces]; decide)
    rw [notedSincePlaced, huntil, List.drop_length]
    rfl
  | false =>
    have huntil : untilPlaced robot (events ++ [event]) = untilPlaced robot events :=
      List.rdropWhile_concat_pos _ events event (by rw [hplaces]; rfl)
    obtain ⟨after, hafter⟩ : untilPlaced robot events <+: events := List.rdropWhile_prefix _ _
    have hrest : .clearReceived ∉ after := by
      intro hmem
      exact hkept (hafter ▸ List.mem_append_right _ hmem)
    have hlength : (run (fresh keys) (untilPlaced robot events)).2.received.length ≤
        (run (fresh keys) events).2.received.length := by
      obtain ⟨more, hmore⟩ :=
        (run (fresh keys) (untilPlaced robot events)).2.exists_received_append hrest
      have hwhole : (run (fresh keys) events).2 =
          (run (run (fresh keys) (untilPlaced robot events)).2 after).2 := by
        conv_lhs => rw [← hafter, run_append]
      rw [hwhole, hmore, List.length_append]
      omega
    rw [notedSincePlaced, huntil, hnoted, List.drop_append_of_le_length hlength]
    rfl

/-- After a run from the start in which the log was not cleared, the velocity of a robot is the one
that was ordered last since the robot was put somewhere. -/
theorem velocity_run (keys : TeamKeys) (robot : RobotName) {events : List Event}
    (hkept : .clearReceived ∉ events) :
    (run (fresh keys) events).2.pitch.velocities.get? robot.text =
      latest (driven robot) (notedSincePlaced keys robot events) := by
  induction events using List.reverseRecOn with
  | nil => rfl
  | append_singleton events event ih =>
    have hbefore : .clearReceived ∉ events := fun hmem => hkept (List.mem_append_left _ hmem)
    have hevent : event ≠ .clearReceived := by
      rintro rfl
      exact hkept (List.mem_append_right _ List.mem_cons_self)
    obtain ⟨noted, hreceived, -, hvelocity⟩ :=
      (run (fresh keys) events).2.exists_noted robot hevent
    rw [← run_concat] at hreceived hvelocity
    rw [hvelocity, notedSincePlaced_concat keys robot hbefore hreceived, ih hbefore]
    cases event.places robot with
    | true => rfl
    | false =>
      rw [if_neg Bool.false_ne_true, if_neg Bool.false_ne_true]
      cases noted with
      | none => rw [Option.toList_none, List.append_nil, Option.bind_none, Option.none_or]
      | some one => rw [Option.toList_some, Option.bind_some, latest_concat]

/-- A known command drives a robot exactly when it is a control for it. -/
theorem isSome_driven_iff {robot : RobotName} {noted : ReceivedCommand}
    (hknown : (ordered? noted.command).isSome) :
    (driven robot noted).isSome ↔ noted.robot = robot ∧ noted.word? = some "control" := by
  obtain ⟨name, command⟩ := noted
  unfold driven ReceivedCommand.word?
  by_cases hname : name = robot
  · rw [if_pos hname]
    refine Iff.trans ?_ (and_iff_right hname).symm
    unfold ordered? at hknown ⊢
    dsimp only at hknown ⊢
    split at hknown
    · rename_i word forward left turn
      by_cases hword : word = "control"
      · subst hword
        exact iff_of_true rfl rfl
      · rw [if_neg hword] at hknown
        cases hknown
    · rename_i word power
      by_cases hword : word = "kick"
      · subst hword
        exact iff_of_false nofun fun hkick => absurd (Option.some.inj hkick) (by decide)
      · rw [if_neg hword] at hknown
        cases hknown
    · cases hknown
  · rw [if_neg hname]
    exact iff_of_false nofun fun h => hname h.1

/-- A command that drives a robot is a control for it, and its arguments count as the parts of the
velocity. -/
theorem driven_eq_some_iff {robot : RobotName} {noted : ReceivedCommand} {velocity : Velocity Float} :
    driven robot noted = some velocity ↔ noted.robot = robot ∧
      ∃ forward left turn, noted.command = [.str "control", forward, left, turn] ∧
        velocity = ⟨argument forward, argument left, argument turn⟩ := by
  rw [driven, Option.ite_none_right_eq_some, Option.join_eq_some_iff, ordered?_eq_some_some_iff]

/-- Among known commands the velocity that was ordered last for a robot is that of the last control for
it. -/
theorem latest_driven {robot : RobotName} {noted : List ReceivedCommand}
    (hknown : ∀ one ∈ noted, (ordered? one.command).isSome) :
    latest (driven robot) noted = (controls robot noted).getLast?.bind (driven robot) := by
  induction noted using List.reverseRecOn with
  | nil => rfl
  | append_singleton noted one ih =>
    have hbefore := ih fun other hother => hknown other (List.mem_append_left _ hother)
    have hone := hknown one (List.mem_append_right _ List.mem_cons_self)
    have hiff : (driven robot one).isSome ↔ _ := isSome_driven_iff hone
    have hparts : controls robot (noted ++ [one]) = controls robot noted ++ controls robot [one] :=
      List.filter_append ..
    rw [latest_concat, hbefore, hparts]
    by_cases hcontrol : one.robot = robot ∧ one.word? = some "control"
    · have hlast : controls robot [one] = [one] :=
        List.filter_cons_of_pos (decide_eq_true hcontrol)
      obtain ⟨velocity, hvelocity⟩ := Option.isSome_iff_exists.1 (hiff.2 hcontrol)
      rw [hlast, List.getLast?_concat, Option.bind_some, hvelocity, Option.some_or]
    · have hlast : controls robot [one] = [] :=
        List.filter_cons_of_neg (Bool.eq_false_iff.1 (decide_eq_false hcontrol))
      have hnone : driven robot one = none := by
        cases hdriven : driven robot one with
        | none => rfl
        | some velocity => exact absurd (hiff.1 (by rw [hdriven]; rfl)) hcontrol
      rw [hlast, List.append_nil, hnone, Option.none_or]

/-- The law of velocities and the log, for runs in which the log is not cleared. A robot has a velocity
exactly when a control was noted for it since it was put somewhere, and then it is that of the latest
such control, whose arguments count as its parts, zero when they are no numbers. Every control in the
log has three arguments, and the velocity read from it has them for its parts, but nothing is read
unless all three are numbers. -/
theorem velocity_law (keys : TeamKeys) (robot : RobotName) {events : List Event}
    (hkept : .clearReceived ∉ events) :
    ((∃ velocity, (run (fresh keys) events).2.pitch.velocities.get? robot.text = some velocity) ↔
      controls robot (notedSincePlaced keys robot events) ≠ []) ∧
    (∀ last, (controls robot (notedSincePlaced keys robot events)).getLast? = some last →
      ∃ forward left turn, last.command = [.str "control", forward, left, turn] ∧
        (run (fresh keys) events).2.pitch.velocities.get? robot.text =
          some ⟨argument forward, argument left, argument turn⟩ ∧
        ∀ velocity, last.control? = some velocity →
          (run (fresh keys) events).2.pitch.velocities.get? robot.text = some velocity) ∧
    ∀ noted ∈ (run (fresh keys) events).2.received, noted.word? = some "control" →
      ∃ forward left turn, noted.command = [.str "control", forward, left, turn] ∧
        ∀ velocity, noted.control? = some velocity ↔
          forward.number? = some velocity.forward ∧ left.number? = some velocity.left ∧
            turn.number? = some velocity.turn := by
  have hlog := isSome_ordered?_of_mem_received keys events
  have hknown : ∀ one ∈ notedSincePlaced keys robot events, (ordered? one.command).isSome :=
    fun one hone => hlog one (List.mem_of_mem_drop hone)
  have hvelocity := velocity_run keys robot hkept
  rw [latest_driven hknown] at hvelocity
  -- the last control drives its robot, so it decides what the velocity is
  have hlast : ∀ last, (controls robot (notedSincePlaced keys robot events)).getLast? = some last →
      ∃ forward left turn, last.command = [.str "control", forward, left, turn] ∧
        (run (fresh keys) events).2.pitch.velocities.get? robot.text =
          some ⟨argument forward, argument left, argument turn⟩ := by
    intro last h
    obtain ⟨hmem, hcontrol⟩ := List.mem_filter.1 (List.mem_of_getLast? h)
    obtain ⟨velocity, hdriven⟩ := Option.isSome_iff_exists.1
      ((isSome_driven_iff (hknown last hmem)).2 (of_decide_eq_true hcontrol))
    obtain ⟨-, forward, left, turn, hcommand, hparts⟩ := driven_eq_some_iff.1 hdriven
    rw [h, Option.bind_some, hdriven, hparts] at hvelocity
    exact ⟨forward, left, turn, hcommand, hvelocity⟩
  refine ⟨⟨?_, ?_⟩, ?_, ?_⟩
  · rintro ⟨velocity, hsome⟩ hnil
    rw [hnil, hsome] at hvelocity
    cases hvelocity
  · intro hne
    obtain ⟨last, h⟩ := Option.isSome_iff_exists.1 (List.getLast?_isSome.2 hne)
    obtain ⟨forward, left, turn, -, hparts⟩ := hlast last h
    exact ⟨_, hparts⟩
  · intro last h
    obtain ⟨forward, left, turn, hcommand, hparts⟩ := hlast last h
    refine ⟨forward, left, turn, hcommand, hparts, fun velocity hread => ?_⟩
    obtain ⟨hforward, hleft, hturn⟩ := (ReceivedCommand.control?_eq_some_iff hcommand).1 hread
    rw [hparts, argument, argument, argument, hforward, hleft, hturn]
    rfl
  · intro noted hnoted hword
    have hdrives := (isSome_driven_iff (hlog noted hnoted)).2 ⟨rfl, hword⟩
    obtain ⟨velocity, hdriven⟩ := Option.isSome_iff_exists.1 hdrives
    obtain ⟨-, forward, left, turn, hcommand, -⟩ := driven_eq_some_iff.1 hdriven
    exact ⟨forward, left, turn, hcommand, fun _ =>
      ReceivedCommand.control?_eq_some_iff hcommand⟩

/-- A run in which two robots are put somewhere, and one of them is ordered to move for a period. -/
def drivenRun : List Event :=
  [.setRobot .blue1 (.of 0.0 0.0 0.0),
    .request (Request.encode "b" .blue1 (.control ⟨0.25, 0.0, 0.0⟩)), .tick,
    .setRobot .green1 (.of 1.0 0.0 0.0)]

/-- The robot that was ordered to move has a velocity in the end, and the other has none. -/
theorem velocity_law_driven :
    (∃ velocity, (run (fresh ⟨"b", "g"⟩) drivenRun).2.pitch.velocities.get? RobotName.blue1.text =
      some velocity) ∧
    ¬∃ velocity, (run (fresh ⟨"b", "g"⟩) drivenRun).2.pitch.velocities.get? RobotName.green1.text =
      some velocity := by
  have hkept : .clearReceived ∉ drivenRun := by
    simp only [drivenRun, List.mem_cons, List.not_mem_nil, reduceCtorEq, or_self, not_false_eq_true]
  let placed := ((fresh ⟨"b", "g"⟩).happen (.setRobot .blue1 (.of 0.0 0.0 0.0))).2
  have hkey : placed.keys.of RobotName.blue1.team = "b" := rfl
  have hfree : preemption? placed.pitch .blue1 = none := rfl
  have hanswer := answer_encode (.control ⟨0.25, 0.0, 0.0⟩) (by decide) hkey hfree
  have hlog : (run (fresh ⟨"b", "g"⟩) drivenRun).2.received =
      [⟨.blue1, (Command.control ⟨0.25, 0.0, 0.0⟩).reread.items⟩] := by
    have hrequest (controller : Controller) (bytes : Bytes) :
        (controller.happen (.request bytes)).2 = (controller.answer bytes).2 := rfl
    rw [drivenRun, run_cons, run_cons, hrequest, hanswer]
    rfl
  have hblue : untilPlaced .blue1 drivenRun = [.setRobot .blue1 (.of 0.0 0.0 0.0)] := rfl
  have hgreen : untilPlaced .green1 drivenRun = drivenRun := rfl
  obtain ⟨hdriven, -⟩ := velocity_law ⟨"b", "g"⟩ .blue1 hkept
  obtain ⟨hstill, -⟩ := velocity_law ⟨"b", "g"⟩ .green1 hkept
  refine ⟨hdriven.2 ?_, fun hsome => hstill.1 hsome ?_⟩
  · rw [notedSincePlaced, hlog, hblue]
    exact List.cons_ne_nil _ _
  · rw [notedSincePlaced, hgreen, List.drop_length]
    rfl

/-- A client orders a speed that is no number. -/
def blankControl : Event :=
  .request (Request.encode "" .blue1 (.control ⟨0.0 / 0.0, 0.5, 0.0⟩))

/-- In the place of a speed that is no number null is sent. The controller carries the control out with
zero for it and notes it, but no velocity can be read from the log. -/
theorem unread_control :
    (run (fresh ⟨"", ""⟩) [blankControl]).2.pitch.velocities.get? RobotName.blue1.text =
        some ⟨0.0, 0.5, 0.0⟩ ∧
      ∃ last,
        (controls .blue1 (notedSincePlaced ⟨"", ""⟩ .blue1 [blankControl])).getLast? = some last ∧
        last.word? = some "control" ∧ last.control? = none := by
  have hnan : (0.0 / 0.0 : Float).isFinite = false := by decide
  have hhalf : (0.5 : Float).isFinite = true := by decide
  have hzero : (0.0 : Float).isFinite = true := by decide
  have hparts : (Command.control ⟨0.0 / 0.0, 0.5, 0.0⟩).keptVelocity = some ⟨0.0, 0.5, 0.0⟩ := by
    simp only [Command.keptVelocity, Command.kept, hnan, hhalf, hzero, Bool.false_eq_true, if_false,
      if_true]
  have hitems : (Command.control ⟨0.0 / 0.0, 0.5, 0.0⟩).items =
      [.str "control", .null, .float 0.5, .float 0.0] := by
    simp only [Command.items, Json.ofFloat, hnan, hhalf, hzero, Bool.false_eq_true, if_false, if_true]
  have hagain : (Command.control ⟨0.0 / 0.0, 0.5, 0.0⟩).reread = .control ⟨0.0 / 0.0, 0.5, 0.0⟩ :=
    Command.reread_eq (by decide +kernel)
  have hkey : (fresh ⟨"", ""⟩).keys.of RobotName.blue1.team = "" := rfl
  have hfree : preemption? (fresh ⟨"", ""⟩).pitch .blue1 = none := rfl
  have hanswer := answer_encode (.control ⟨0.0 / 0.0, 0.5, 0.0⟩) (by decide) hkey hfree
  have hrun : (run (fresh ⟨"", ""⟩) [blankControl]).2 =
      ((fresh ⟨"", ""⟩).answer (Request.encode "" .blue1 (.control ⟨0.0 / 0.0, 0.5, 0.0⟩))).2 := by
    rw [blankControl, run_cons, happen, run]
  have huntil : untilPlaced .blue1 [blankControl] = [] := rfl
  rw [hagain, hparts, hitems] at hanswer
  rw [notedSincePlaced, huntil, hrun, hanswer]
  refine ⟨?_, ⟨.blue1, [.str "control", .null, .float 0.5, .float 0.0]⟩, rfl, rfl, rfl⟩
  exact (Dict.get?_insert _ _ _ _).trans (if_pos rfl)

end Controller

end RobotSoccer
