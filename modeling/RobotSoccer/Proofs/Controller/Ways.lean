import RobotSoccer.Controller.Simulator
import RobotSoccer.Proofs.Json.DigitText

/-!
# The ways in which a request can end

A request names its robot by a word and a number, and only the very team and number of a robot
on the field name it. An order then ends in one of five ways. Each of them says what was checked
before it, what is answered, and what is left of the controller.
-/

namespace RobotSoccer

namespace RobotName

/-- The number of a robot on the field is a single digit. -/
theorem exists_digit_of_mem_all {name : RobotName} (h : name ∈ all) :
    ∃ c, (numberText name.number).toList = [c] := by
  simp only [all, List.mem_cons, List.not_mem_nil, or_false] at h
  rcases h with rfl | rfl | rfl | rfl
  · exact ⟨'1', by decide⟩
  · exact ⟨'2', by decide⟩
  · exact ⟨'1', by decide⟩
  · exact ⟨'2', by decide⟩

/-- The word for a team has no digits. -/
theorem not_digit_of_mem_text (team : Team) : ∀ c ∈ team.text.toList, c.isDigit = false := by
  have hall : (team.text.toList.all fun c => !c.isDigit) = true := by
    cases team <;> decide
  intro c hc
  have hdigit := List.all_eq_true.1 hall c hc
  exact Bool.not_eq_true' c.isDigit ▸ hdigit

/-- A word and a number give the text of a robot on the field only if they are its own. -/
theorem text_eq_append_iff {name : RobotName} (h : name ∈ all) {word : String}
    {number : UInt8} :
    name.text = word ++ numberText number ↔ name.team.text = word ∧ name.number = number := by
  constructor
  · intro htext
    obtain ⟨c, hdigit⟩ := exists_digit_of_mem_all h
    have hchars := congrArg String.toList htext
    rw [text] at hchars
    rw [String.toList_append, String.toList_append, hdigit] at hchars
    have hnumber : (numberText number).toList = Number.naturalText number.toNat :=
      String.toList_ofList
    have hne : (numberText number).toList ≠ [] := by
      rw [hnumber]
      exact Nat.toDigits_ne_nil
    have hdigits : ∀ d ∈ (numberText number).toList, d.isDigit = true := by
      rw [hnumber]
      exact Number.digitChars_naturalText _
    have hsame : word.toList = name.team.text.toList ∧ (numberText number).toList = [c] := by
      rcases List.append_eq_append_iff.1 hchars with ⟨more, hword, hlast⟩ | ⟨more, hteam, hlast⟩
      · cases more with
        | nil => exact ⟨by rw [hword, List.append_nil], hlast.symm⟩
        | cons d more =>
          have hnil := (List.append_eq_nil_iff.1 (List.cons.inj hlast).2.symm).2
          exact absurd hnil hne
      · cases more with
        | nil => exact ⟨by rw [hteam, List.append_nil], hlast⟩
        | cons d more =>
          have hmember : d ∈ name.team.text.toList := by
            rw [hteam]
            exact List.mem_append_right _ List.mem_cons_self
          have hisDigit := hdigits d (hlast ▸ List.mem_cons_self)
          rw [not_digit_of_mem_text name.team d hmember] at hisDigit
          cases hisDigit
    constructor
    · exact String.toList_inj.1 hsame.1.symm
    · exact numberText_injective (String.toList_inj.1 (hdigit.trans hsame.2.symm))
  · rintro ⟨rfl, rfl⟩
    rfl

end RobotName

namespace Controller

/-- An order names a robot when it has the word of its team and its number. -/
theorem Order.ofText?_robotText_eq_some_iff {order : Order} {robot : RobotName} :
    RobotName.ofText? order.robotText = some robot ↔
      robot ∈ RobotName.all ∧ order.team = robot.team.text ∧ order.number = robot.number := by
  rw [RobotName.ofText?_eq_some_iff]
  constructor
  · rintro ⟨hmem, htext⟩
    obtain ⟨hteam, hnumber⟩ := (RobotName.text_eq_append_iff hmem).1 htext
    exact ⟨hmem, hteam.symm, hnumber.symm⟩
  · rintro ⟨hmem, hteam, hnumber⟩
    exact ⟨hmem, (RobotName.text_eq_append_iff hmem).2 ⟨hteam.symm, hnumber.symm⟩⟩

/-- An order that names this robot and carries the key of its team. -/
structure Order.For (order : Order) (keys : TeamKeys) (robot : RobotName) : Prop where
  /-- The robot plays. -/
  plays : robot ∈ RobotName.all
  /-- The word is that of its team. -/
  team : order.team = robot.team.text
  /-- The number is its own. -/
  number : order.number = robot.number
  /-- The key is that of its team. -/
  key : keys.of robot.team = order.key

/-- The velocity that a command orders: none for one that orders no velocity, and nothing at all
for a command that is not known. -/
def ordered? : List Json → Option (Option (Velocity Float))
  | [.str name, forward, left, turn] =>
    if name = "control" then some (some ⟨argument forward, argument left, argument turn⟩)
    else none
  | [.str name, _] => if name = "kick" then some none else none
  | _ => none

/-- Orders a velocity for a robot, if there is one to be ordered. -/
def drive (pitch : Pitch) (robot : RobotName) : Option (Velocity Float) → Pitch
  | none => pitch
  | some velocity => pitch.setVelocity robot velocity

/-- Carrying out a command is ordering its velocity. -/
theorem carryOut?_eq (pitch : Pitch) (robot : RobotName) (command : List Json) :
    carryOut? pitch robot command = (ordered? command).map (drive pitch robot) := by
  unfold carryOut?
  split
  · rename_i name forward left turn
    by_cases hname : name = "control"
    · rw [if_pos hname, ordered?, if_pos hname]
      rfl
    · rw [if_neg hname, ordered?, if_neg hname]
      rfl
  · rename_i name power
    by_cases hname : name = "kick"
    · rw [if_pos hname, ordered?, if_pos hname]
      rfl
    · rw [if_neg hname, ordered?, if_neg hname]
      rfl
  · rename_i hcontrol hkick
    unfold ordered?
    split
    · exact absurd rfl (hcontrol _ _ _ _)
    · exact absurd rfl (hkick _ _)
    · rfl

/-- The status that keeps commands for a robot from being carried out. -/
def preemption? (pitch : Pitch) (robot : RobotName) : Option RobotStatus :=
  (pitch.packet.robotStatus? robot.team.text robot.number).filter (·.preempted)

/-- An order for no robot on the field is refused. -/
theorem obey_of_unknown {order : Order} (controller : Controller)
    (hname : RobotName.ofText? order.robotText = none) :
    controller.obey order = (refusal ("Unknown robot: " ++ order.robotText), controller) := by
  rw [obey, hname]

/-- An order without the key of the team of its robot is refused. -/
theorem obey_of_wrongKey {controller : Controller} {order : Order} {robot : RobotName}
    (hname : RobotName.ofText? order.robotText = some robot)
    (hkey : controller.keys.of robot.team ≠ order.key) :
    controller.obey order = (refusal ("Bad key for team " ++ order.team), controller) := by
  rw [obey, hname]
  exact if_pos hkey

/-- An order with the right key goes by the status of its robot and then by its command. -/
theorem Order.For.obey_eq {controller : Controller} {order : Order} {robot : RobotName}
    (hfor : order.For controller.keys robot) :
    controller.obey order =
      match preemption? controller.pitch robot with
      | some status => (notApplied (preemptionText order status.preemptionReasons), controller)
      | none =>
        match ordered? order.command with
        | none => (notApplied "Unknown command", controller)
        | some velocity =>
          (applied, { controller with
            pitch := drive controller.pitch robot velocity
            received := controller.received ++ [⟨robot, order.command⟩] }) := by
  have hname : RobotName.ofText? order.robotText = some robot :=
    Order.ofText?_robotText_eq_some_iff.2 ⟨hfor.plays, hfor.team, hfor.number⟩
  have hstatus : preempting? controller.pitch order = preemption? controller.pitch robot := by
    rw [preempting?, preemption?, hfor.team, hfor.number]
  rw [obey, hname]
  dsimp only
  rw [if_neg (not_not_intro hfor.key), hstatus, carryOut?_eq]
  cases preemption? controller.pitch robot with
  | some status => rfl
  | none =>
    cases ordered? order.command with
    | none => rfl
    | some velocity => rfl

/-- The five ways in which an order can end: the reply, and the controller after it. -/
inductive Way (controller : Controller) (order : Order) : Json × Controller → Prop
  /-- It names no robot on the field. -/
  | unknownRobot (hname : RobotName.ofText? order.robotText = none) :
    Way controller order (refusal ("Unknown robot: " ++ order.robotText), controller)
  /-- It does not carry the key of the team of its robot. -/
  | wrongKey (robot : RobotName) (hname : RobotName.ofText? order.robotText = some robot)
    (hkey : controller.keys.of robot.team ≠ order.key) :
    Way controller order (refusal ("Bad key for team " ++ order.team), controller)
  /-- Its robot is taken from its team. -/
  | preempted (robot : RobotName) (hfor : order.For controller.keys robot) (status : RobotStatus)
    (hstatus : preemption? controller.pitch robot = some status) :
    Way controller order
      (notApplied (preemptionText order status.preemptionReasons), controller)
  /-- Its command is not known. -/
  | unknownCommand (robot : RobotName) (hfor : order.For controller.keys robot)
    (hfree : preemption? controller.pitch robot = none)
    (hcommand : ordered? order.command = none) :
    Way controller order (notApplied "Unknown command", controller)
  /-- It is carried out. -/
  | carriedOut (robot : RobotName) (hfor : order.For controller.keys robot)
    (hfree : preemption? controller.pitch robot = none) (velocity : Option (Velocity Float))
    (hcommand : ordered? order.command = some velocity) :
    Way controller order (applied, { controller with
      pitch := drive controller.pitch robot velocity
      received := controller.received ++ [⟨robot, order.command⟩] })

/-- Every order ends in one of the five ways. -/
theorem obey_way (controller : Controller) (order : Order) :
    Way controller order (controller.obey order) := by
  cases hname : RobotName.ofText? order.robotText with
  | none =>
    rw [obey_of_unknown controller hname]
    exact .unknownRobot hname
  | some robot =>
    by_cases hkey : controller.keys.of robot.team = order.key
    · obtain ⟨hplays, hteam, hnumber⟩ := Order.ofText?_robotText_eq_some_iff.1 hname
      have hfor : order.For controller.keys robot := ⟨hplays, hteam, hnumber, hkey⟩
      rw [hfor.obey_eq]
      cases hfree : preemption? controller.pitch robot with
      | some status => exact .preempted robot hfor status hfree
      | none =>
        cases hcommand : ordered? order.command with
        | none => exact .unknownCommand robot hfor hfree hcommand
        | some velocity => exact .carriedOut robot hfor hfree velocity hcommand
    · rw [obey_of_wrongKey hname hkey]
      exact .wrongKey robot hname hkey

/-- A refusal is no agreement. -/
theorem refusal_ne_applied (reason : String) : refusal reason ≠ applied := by
  intro h
  injection h with h
  injection h with h
  injection h with h
  cases h

/-- That a request was not applied is no agreement. -/
theorem notApplied_ne_applied (reason : String) : notApplied reason ≠ applied := by
  intro h
  injection h with h
  injection h with h
  cases h

/-- What an answer does, whatever bytes come in: nothing, without agreement, or it carries out
the order that they hold. -/
theorem answer_effect (controller : Controller) (bytes : Bytes) :
    ((controller.answer bytes).1 ≠ applied ∧ (controller.answer bytes).2 = controller) ∨
    ∃ order robot velocity, Reader.whole readOrder bytes = .ok order ∧
      order.For controller.keys robot ∧ ordered? order.command = some velocity ∧
      controller.answer bytes = (applied, { controller with
        pitch := drive controller.pitch robot velocity
        received := controller.received ++ [⟨robot, order.command⟩] }) := by
  rw [answer]
  cases hread : Reader.whole readOrder bytes with
  | error fault => exact .inl ⟨refusal_ne_applied _, rfl⟩
  | ok order =>
    have hway := obey_way controller order
    dsimp only
    generalize controller.obey order = ended at hway ⊢
    cases hway with
    | unknownRobot hname => exact .inl ⟨refusal_ne_applied _, rfl⟩
    | wrongKey robot hname hkey => exact .inl ⟨refusal_ne_applied _, rfl⟩
    | preempted robot hfor status hstatus => exact .inl ⟨notApplied_ne_applied _, rfl⟩
    | unknownCommand robot hfor hfree hcommand => exact .inl ⟨notApplied_ne_applied _, rfl⟩
    | carriedOut robot hfor hfree velocity hcommand =>
      exact .inr ⟨order, robot, velocity, rfl, hfor, hcommand, rfl⟩

/-- Ordering a velocity for a robot changes the velocity of no other, and nothing else. -/
theorem drive_frame (pitch : Pitch) (robot : RobotName) (velocity : Option (Velocity Float)) :
    (drive pitch robot velocity).packet = pitch.packet ∧
      (drive pitch robot velocity).rawFrames = pitch.rawFrames ∧
      ∀ key, key ≠ robot.text →
        (drive pitch robot velocity).velocities.get? key = pitch.velocities.get? key := by
  cases velocity with
  | none => exact ⟨rfl, rfl, fun _ _ => rfl⟩
  | some velocity =>
    refine ⟨rfl, rfl, fun key hkey => ?_⟩
    rw [drive, Pitch.setVelocity, Dict.get?_insert, if_neg (Ne.symm hkey)]

end Controller

end RobotSoccer
