import RobotSoccer.Packet.Status
import RobotSoccer.Proofs.Dict
import RobotSoccer.Proofs.Json.NumberText

/-!
# Packets whose doubles are read again

What becomes of the parts of a packet when each of their doubles is read from its own text: they stay
as they are exactly when every double in them is read back.
-/

namespace RobotSoccer

open Number

/-- A position whose coordinates are read from their own texts. -/
def Point.reread (p : Point Float) : Point Float := ⟨Number.reread p.x, Number.reread p.y⟩

/-- A pose whose coordinates and direction are read from their own texts. -/
def Pose.reread (pose : Pose Float) : Pose Float :=
  ⟨pose.position.reread, Number.reread pose.orientation⟩

/-- The status of a robot whose time that remains is read from its own text. -/
def RobotStatus.reread (status : RobotStatus) : RobotStatus :=
  { status with penalizedRemaining := status.penalizedRemaining.map Number.reread }

/-- The status of a team whose doubles are read from their own texts. -/
def TeamStatus.reread (team : TeamStatus) : TeamStatus :=
  { team with robots := team.robots.mapValues RobotStatus.reread }

/-- The status of a match whose doubles are read from their own texts. -/
def MatchStatus.reread (referee : MatchStatus) : MatchStatus :=
  { referee with
    timer := Number.reread referee.timer
    teams := referee.teams.mapValues TeamStatus.reread }

/-- A packet whose doubles are read from their own texts. -/
def Packet.reread (packet : Packet) : Packet :=
  { packet with
    markers := packet.markers.mapValues Pose.reread
    ball := packet.ball.map Point.reread
    referee := packet.referee.reread }

/-- The coordinates of a position. -/
def Point.doubles (p : Point Float) : List Float := [p.x, p.y]

/-- The coordinates and the direction of a pose. -/
def Pose.doubles (pose : Pose Float) : List Float := pose.position.doubles ++ [pose.orientation]

/-- The doubles in the status of a robot. -/
def RobotStatus.doubles (status : RobotStatus) : List Float := status.penalizedRemaining.toList

/-- The doubles in the status of a team. -/
def TeamStatus.doubles (team : TeamStatus) : List Float :=
  team.robots.entries.flatMap fun entry => entry.2.doubles

/-- The doubles in the status of a match. -/
def MatchStatus.doubles (referee : MatchStatus) : List Float :=
  referee.timer :: referee.teams.entries.flatMap fun entry => entry.2.doubles

/-- The doubles in a packet. -/
def Packet.doubles (packet : Packet) : List Float :=
  packet.markers.entries.flatMap (fun entry => entry.2.doubles) ++
    (packet.ball.toList.flatMap Point.doubles ++ packet.referee.doubles)

/-- The markers of a packet that is read again are the markers of the packet, read again. -/
theorem Packet.get?_markers_reread (packet : Packet) (key : String) :
    packet.reread.markers.get? key = (packet.markers.get? key).map Pose.reread :=
  Dict.get?_mapValues Pose.reread packet.markers key

/-- What a packet that is read again says about a robot is what the packet said, as it is read
again. -/
theorem Packet.robotStatus?_reread (packet : Packet) (team : String) (number : UInt8) :
    packet.reread.robotStatus? team number =
      (packet.robotStatus? team number).map RobotStatus.reread := by
  unfold robotStatus? reread MatchStatus.reread
  dsimp only
  rw [Dict.get?_mapValues]
  cases packet.referee.teams.get? team with
  | none => rfl
  | some status => exact Dict.get?_mapValues RobotStatus.reread status.robots _

/-- A position stays as it is when it is read again exactly when its coordinates are read back. -/
theorem Point.reread_eq_iff {p : Point Float} : p.reread = p ↔ ∀ x ∈ p.doubles, ReadsBack x := by
  obtain ⟨x, y⟩ := p
  simp [reread, doubles, ReadsBack]

/-- A pose stays as it is when it is read again exactly when its doubles are read back. -/
theorem Pose.reread_eq_iff {pose : Pose Float} :
    pose.reread = pose ↔ ∀ x ∈ pose.doubles, ReadsBack x := by
  obtain ⟨position, orientation⟩ := pose
  rw [reread, mk.injEq, Point.reread_eq_iff, doubles, List.forall_mem_append,
    List.forall_mem_singleton, ReadsBack]

/-- The status of a robot stays as it is when it is read again exactly when its doubles are read
back. -/
theorem RobotStatus.reread_eq_iff {status : RobotStatus} :
    status.reread = status ↔ ∀ x ∈ status.doubles, ReadsBack x := by
  obtain ⟨penalized, remaining, reason, preempted, reasons⟩ := status
  cases remaining <;> simp [reread, doubles, ReadsBack]

/-- The values of a map stay as they are when they are read again exactly when their doubles are read
back. -/
theorem mapValues_eq_self_iff_readsBack {α : Type} {again : α → α} {doublesOf : α → List Float}
    (h : ∀ value, again value = value ↔ ∀ x ∈ doublesOf value, ReadsBack x) (dict : Dict α) :
    dict.mapValues again = dict ↔
      ∀ x ∈ dict.entries.flatMap fun entry => doublesOf entry.2, ReadsBack x := by
  rw [Dict.mapValues_eq_self_iff, List.forall_mem_flatMap]
  exact forall₂_congr fun entry _ => h entry.2

/-- The status of a team stays as it is when it is read again exactly when its doubles are read
back. -/
theorem TeamStatus.reread_eq_iff {team : TeamStatus} :
    team.reread = team ↔ ∀ x ∈ team.doubles, ReadsBack x := by
  rw [doubles, ← mapValues_eq_self_iff_readsBack fun _ => RobotStatus.reread_eq_iff]
  obtain ⟨name, score, side, robots⟩ := team
  simp [reread]

/-- The status of a match stays as it is when it is read again exactly when its doubles are read
back. -/
theorem MatchStatus.reread_eq_iff {referee : MatchStatus} :
    referee.reread = referee ↔ ∀ x ∈ referee.doubles, ReadsBack x := by
  rw [doubles, List.forall_mem_cons,
    ← mapValues_eq_self_iff_readsBack fun _ => TeamStatus.reread_eq_iff]
  obtain ⟨running, paused, halftime, timer, message, teams⟩ := referee
  simp [reread, ReadsBack]

/-- A packet stays as it is when it is read again exactly when its doubles are read back. -/
theorem Packet.reread_eq_iff {packet : Packet} :
    packet.reread = packet ↔ ∀ x ∈ packet.doubles, ReadsBack x := by
  have hball : packet.ball.map Point.reread = packet.ball ↔
      ∀ x ∈ packet.ball.toList.flatMap Point.doubles, ReadsBack x := by
    cases packet.ball with
    | none => simp
    | some p => simp [Point.reread_eq_iff]
  rw [doubles, List.forall_mem_append, List.forall_mem_append,
    ← mapValues_eq_self_iff_readsBack fun _ => Pose.reread_eq_iff, ← hball,
    ← MatchStatus.reread_eq_iff]
  obtain ⟨markers, ball, referee, lights, simulated⟩ := packet
  simp [reread]

end RobotSoccer
