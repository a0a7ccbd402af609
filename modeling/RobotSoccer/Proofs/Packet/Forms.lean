import RobotSoccer.Packet.Wire
import RobotSoccer.Proofs.Json.RecordForms

/-!
# In how many ways a packet can be written

The layout of each part of a packet, down to its numbers and texts, and that every packet written
in this way is decoded as that packet.
-/

namespace RobotSoccer

open Reader

/-- Positions are arrays of two numbers. -/
def Point.form : Form (Point Float) :=
  (Form.double.two .double).image fun found => ⟨found.1, found.2⟩

/-- Lights are arrays of three bytes. -/
def Light.form : Form Light :=
  (Form.byte.three .byte .byte).image fun found => ⟨found.1, found.2.1, found.2.2⟩

/-- How markers are laid out. -/
def markerLayout : Layout (Pose Float) where
  blank := Pose.of 0.0 0.0 0.0
  fields := [
    ⟨"position", _, (·.position), Point.form⟩,
    ⟨"orientation", _, (·.orientation), .double⟩]
  complete := true

/-- How the status of a robot is laid out. -/
def RobotStatus.layout : Layout RobotStatus where
  blank := .blank
  fields := [
    ⟨"penalized", _, (·.penalized), .boolean⟩,
    ⟨"penalized_remaining", _, (·.penalizedRemaining), .nullable .double⟩,
    ⟨"penalized_reason", _, (·.penalizedReason), .nullable .text⟩,
    ⟨"preempted", _, (·.preempted), .boolean⟩,
    ⟨"preemption_reasons", _, (·.preemptionReasons), .list .text⟩]
  complete := false

/-- How the status of a team is laid out. -/
def TeamStatus.layout : Layout TeamStatus where
  blank := .blank
  fields := [
    ⟨"name", _, (·.name), .text⟩,
    ⟨"score", _, (·.score), .count⟩,
    ⟨"x_positive", _, (·.xPositive), .boolean⟩,
    ⟨"robots", _, (·.robots), .dict RobotStatus.layout.form⟩]
  complete := false

/-- How the status of the match is laid out. -/
def MatchStatus.layout : Layout MatchStatus where
  blank := .blank
  fields := [
    ⟨"game_is_running", _, (·.gameIsRunning), .boolean⟩,
    ⟨"game_paused", _, (·.gamePaused), .boolean⟩,
    ⟨"halftime_is_running", _, (·.halftimeIsRunning), .boolean⟩,
    ⟨"timer", _, (·.timer), .double⟩,
    ⟨"game_state_msg", _, (·.message), .text⟩,
    ⟨"teams", _, (·.teams), .dict TeamStatus.layout.form⟩]
  complete := false

/-- How packets are laid out. -/
def Packet.layout : Layout Packet where
  blank := .blank
  fields := [
    ⟨"markers", _, (·.markers), .dict markerLayout.form⟩,
    ⟨"ball", _, (·.ball), .nullable Point.form⟩,
    ⟨"referee", _, (·.referee), MatchStatus.layout.form⟩,
    ⟨"leds", _, (·.lights), .dict Light.form⟩,
    ⟨"simulated", _, (·.simulated), .boolean⟩]
  complete := false

/-- The members of a marker are its parts. -/
theorem lawful_marker : markerRecord.Lawful where
  named := by decide
  get_set := by simp [markerRecord]
  get_set_of_ne := by simp [markerRecord]
  ext := by
    rintro ⟨⟩ ⟨⟩ h
    simpa [markerRecord] using h

/-- The members of the status of a robot are its parts. -/
theorem RobotStatus.lawful : RobotStatus.record.Lawful where
  named := by decide
  get_set := by simp [record]
  get_set_of_ne := by simp [record]
  ext := by
    rintro ⟨⟩ ⟨⟩ h
    simpa [record] using h

/-- The members of the status of a team are its parts. -/
theorem TeamStatus.lawful : TeamStatus.record.Lawful where
  named := by decide
  get_set := by simp [record]
  get_set_of_ne := by simp [record]
  ext := by
    rintro ⟨⟩ ⟨⟩ h
    simpa [record] using h

/-- The members of the status of the match are its parts. -/
theorem MatchStatus.lawful : MatchStatus.record.Lawful where
  named := by decide
  get_set := by simp [record]
  get_set_of_ne := by simp [record]
  ext := by
    rintro ⟨⟩ ⟨⟩ h
    simpa [record] using h

/-- The members of a packet are its parts. -/
theorem Packet.lawful : Packet.record.Lawful where
  named := by decide
  get_set := by simp [record]
  get_set_of_ne := by simp [record]
  ext := by
    rintro ⟨⟩ ⟨⟩ h
    simpa [record] using h

/-- Positions are understood. -/
theorem understands_point : Understands Point.codec.read Point.form :=
  (understands_double.two understands_double).map fun found : Float × Float =>
    (⟨found.1, found.2⟩ : Point Float)

/-- Lights are understood. -/
theorem understands_light : Understands Light.codec.read Light.form :=
  (understands_byte.three understands_byte understands_byte).map
    fun found : UInt8 × UInt8 × UInt8 => (⟨found.1, found.2.1, found.2.2⟩ : Light)

/-- Markers are understood. -/
theorem understands_marker : Understands markerRecord.codec.read markerLayout.form := by
  refine Record.Follows.understands ⟨rfl, rfl, ?_⟩ lawful_marker
  exact .cons (Member.follows understands_point) (.cons (Member.follows understands_double) .nil)

/-- A position does not start as null. -/
theorem head?_point_ne {p : Point Float} {bytes : Bytes} (h : Point.form p bytes) :
    bytes.head? ≠ some Ascii.lowerN := by
  cases h with
  | of h =>
    cases h with
    | array _ _ harray =>
      cases harray with
      | items _ _ =>
        rw [List.head?_cons]
        decide

/-- What the referee says about robots is understood. -/
theorem RobotStatus.understands :
    Understands RobotStatus.record.codec.read RobotStatus.layout.form := by
  refine Record.Follows.understands ⟨rfl, rfl, ?_⟩ lawful
  refine .cons (Member.follows understands_boolean) (.cons (Member.follows ?remaining)
    (.cons (Member.follows ?reason) (.cons (Member.follows understands_boolean)
      (.cons (Member.follows understands_text.list) .nil))))
  case remaining => exact understands_double.nullable head?_double_ne
  case reason => exact understands_text.nullable head?_text_ne

/-- What the referee says about teams is understood. -/
theorem TeamStatus.understands :
    Understands TeamStatus.record.codec.read TeamStatus.layout.form := by
  refine Record.Follows.understands ⟨rfl, rfl, ?_⟩ lawful
  exact .cons (Member.follows understands_text) (.cons (Member.follows understands_count)
    (.cons (Member.follows understands_boolean)
      (.cons (Member.follows RobotStatus.understands.dict) .nil)))

/-- What the referee says about matches is understood. -/
theorem MatchStatus.understands :
    Understands MatchStatus.record.codec.read MatchStatus.layout.form := by
  refine Record.Follows.understands ⟨rfl, rfl, ?_⟩ lawful
  exact .cons (Member.follows understands_boolean) (.cons (Member.follows understands_boolean)
    (.cons (Member.follows understands_boolean) (.cons (Member.follows understands_double)
      (.cons (Member.follows understands_text)
        (.cons (Member.follows TeamStatus.understands.dict) .nil)))))

/-- Packets are understood. -/
theorem Packet.understands : Understands Packet.record.codec.read Packet.layout.form := by
  refine Record.Follows.understands ⟨rfl, rfl, ?_⟩ lawful
  refine .cons (Member.follows understands_marker.dict) (.cons (Member.follows ?ball)
    (.cons (Member.follows MatchStatus.understands)
      (.cons (Member.follows understands_light.dict)
        (.cons (Member.follows understands_boolean) .nil))))
  case ball => exact understands_point.nullable head?_point_ne

end RobotSoccer
