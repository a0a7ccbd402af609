import RobotSoccer.Proofs.Json.Given
import RobotSoccer.Proofs.Packet.RoundTrip

/-!
# What can be received

No text is decoded as a packet with a double that is not finite: what is past every double is
refused, and what is not a number cannot be written. So a packet that was decoded is decoded from its
own text again, with each of its doubles as the text of that double is read.
-/

namespace RobotSoccer

open Reader

/-- The doubles in the status of a robot are finite. -/
def RobotStatus.AllFinite (status : RobotStatus) : Prop :=
  ∀ x ∈ status.penalizedRemaining, x.isFinite = true

/-- The doubles in the status of a team are finite. -/
def TeamStatus.AllFinite (team : TeamStatus) : Prop :=
  ∀ entry ∈ team.robots.entries, entry.2.AllFinite

/-- The doubles in the status of the match are finite. -/
structure MatchStatus.AllFinite (referee : MatchStatus) : Prop where
  /-- The seconds left are finite. -/
  timer : referee.timer.isFinite = true
  /-- The doubles in the statuses of the teams are finite. -/
  teams : ∀ entry ∈ referee.teams.entries, entry.2.AllFinite

/-- All doubles in a packet are finite. -/
structure Packet.AllFinite (packet : Packet) : Prop where
  /-- The coordinates are finite. -/
  located : packet.Located
  /-- The doubles in the status of the match are finite. -/
  referee : packet.referee.AllFinite

/-- The status of a robot whose doubles are finite is received as it is. -/
theorem RobotStatus.received_eq {status : RobotStatus} (h : status.AllFinite) :
    status.received = status := by
  have hsame : status.penalizedRemaining.filter (·.isFinite) = status.penalizedRemaining := by
    cases hremaining : status.penalizedRemaining with
    | none => rfl
    | some x => exact Option.filter_some_pos (h x hremaining)
  rw [received, hsame]

/-- The status of a team whose doubles are finite is received as it is. -/
theorem TeamStatus.received_eq {team : TeamStatus} (h : team.AllFinite) :
    team.received = team := by
  have hsame : team.robots.mapValues RobotStatus.received = team.robots :=
    Dict.mapValues_eq_self fun entry hentry => RobotStatus.received_eq (h entry hentry)
  rw [received, hsame]

/-- The status of a match whose doubles are finite is received as it is. -/
theorem MatchStatus.received_eq {referee : MatchStatus} (h : referee.AllFinite) :
    referee.received = referee := by
  have hsame : referee.teams.mapValues TeamStatus.received = referee.teams :=
    Dict.mapValues_eq_self fun entry hentry => TeamStatus.received_eq (h.teams entry hentry)
  rw [received, hsame]

/-- A packet whose doubles are finite is received as it is. -/
theorem Packet.received_eq {packet : Packet} (h : packet.AllFinite) :
    packet.received = packet := by
  rw [received, MatchStatus.received_eq h.referee]

/-- A packet whose doubles are finite is finite. -/
theorem Packet.AllFinite.finite {packet : Packet} (h : packet.AllFinite) : packet.Finite :=
  ⟨h.located, h.referee.timer⟩

/-- A position that is read is finite. -/
theorem gives_point : Gives Point.codec.read Point.Finite := by
  have hpair : Gives (two double double) fun found : Float × Float =>
    found.1.isFinite = true ∧ found.2.isFinite = true := gives_two gives_double gives_double
  exact hpair.map fun found (hfound : found.1.isFinite = true ∧ found.2.isFinite = true) =>
    (⟨hfound.1, hfound.2⟩ : Point.Finite ⟨found.1, found.2⟩)

/-- A marker that is read is finite. -/
theorem gives_marker : Gives markerRecord.codec.read Pose.Finite := by
  refine Record.gives_read ⟨⟨by decide, by decide⟩, by decide⟩ ?_
  refine List.forall_mem_cons.2 ⟨?position, List.forall_mem_singleton.2 ?orientation⟩
  case position =>
    exact fun pose hpose bytes p rest hread => ⟨gives_point bytes p rest hread, hpose.orientation⟩
  case orientation =>
    exact fun pose hpose bytes x rest hread => ⟨hpose.position, gives_double bytes x rest hread⟩

/-- The doubles in the status of a robot that is read are finite. -/
theorem RobotStatus.gives : Gives record.codec.read AllFinite := by
  refine Record.gives_read (fun x hx => nomatch hx) ?_
  refine List.forall_mem_cons.2 ⟨?penalized, List.forall_mem_cons.2 ⟨?remaining,
    List.forall_mem_cons.2 ⟨?reason, List.forall_mem_cons.2 ⟨?preempted,
      List.forall_mem_singleton.2 ?reasons⟩⟩⟩⟩
  case penalized => exact fun status hstatus _ _ _ _ => hstatus
  case remaining => exact fun status _ => gives_double.nullable
  case reason => exact fun status hstatus _ _ _ _ => hstatus
  case preempted => exact fun status hstatus _ _ _ _ => hstatus
  case reasons => exact fun status hstatus _ _ _ _ => hstatus

/-- The doubles in the status of a team that is read are finite. -/
theorem TeamStatus.gives : Gives record.codec.read AllFinite := by
  refine Record.gives_read (fun entry hentry => absurd hentry List.not_mem_nil) ?_
  refine List.forall_mem_cons.2 ⟨?name, List.forall_mem_cons.2 ⟨?score,
    List.forall_mem_cons.2 ⟨?side, List.forall_mem_singleton.2 ?robots⟩⟩⟩
  case name => exact fun team hteam _ _ _ _ => hteam
  case score => exact fun team hteam _ _ _ _ => hteam
  case side => exact fun team hteam _ _ _ _ => hteam
  case robots => exact fun team _ => RobotStatus.gives.dict

/-- The doubles in the status of the match that is read are finite. -/
theorem MatchStatus.gives : Gives record.codec.read AllFinite := by
  refine Record.gives_read
    ⟨by decide, fun entry hentry => absurd hentry List.not_mem_nil⟩ ?_
  refine List.forall_mem_cons.2 ⟨?running, List.forall_mem_cons.2 ⟨?paused,
    List.forall_mem_cons.2 ⟨?halftime, List.forall_mem_cons.2 ⟨?timer,
      List.forall_mem_cons.2 ⟨?message, List.forall_mem_singleton.2 ?teams⟩⟩⟩⟩⟩
  case running => exact fun referee href _ _ _ _ => ⟨href.timer, href.teams⟩
  case paused => exact fun referee href _ _ _ _ => ⟨href.timer, href.teams⟩
  case halftime => exact fun referee href _ _ _ _ => ⟨href.timer, href.teams⟩
  case timer =>
    exact fun referee href bytes x rest hread => ⟨gives_double bytes x rest hread, href.teams⟩
  case message => exact fun referee href _ _ _ _ => ⟨href.timer, href.teams⟩
  case teams =>
    exact fun referee href bytes teams rest hread =>
      ⟨href.timer, TeamStatus.gives.dict bytes teams rest hread⟩

namespace Packet

/-- Nothing in a packet that shows nothing is not finite. -/
theorem allFinite_blank : blank.AllFinite where
  located := ⟨fun entry hentry => absurd hentry List.not_mem_nil, fun p hp => nomatch hp⟩
  referee := ⟨by decide, fun entry hentry => absurd hentry List.not_mem_nil⟩

/-- The doubles in a packet that is read are finite. -/
theorem gives : Gives record.codec.read AllFinite := by
  refine Record.gives_read allFinite_blank ?_
  refine List.forall_mem_cons.2 ⟨?markers, List.forall_mem_cons.2 ⟨?ball,
    List.forall_mem_cons.2 ⟨?referee, List.forall_mem_cons.2 ⟨?lights,
      List.forall_mem_singleton.2 ?simulated⟩⟩⟩⟩
  case markers =>
    exact fun packet h bytes markers rest hread =>
      ⟨⟨gives_marker.dict bytes markers rest hread, h.located.ball⟩, h.referee⟩
  case ball =>
    exact fun packet h bytes ball rest hread =>
      ⟨⟨h.located.markers, gives_point.nullable bytes ball rest hread⟩, h.referee⟩
  case referee =>
    exact fun packet h bytes referee rest hread =>
      ⟨⟨h.located.markers, h.located.ball⟩, MatchStatus.gives bytes referee rest hread⟩
  case lights => exact fun packet h _ _ _ _ => ⟨⟨h.located.markers, h.located.ball⟩, h.referee⟩
  case simulated => exact fun packet h _ _ _ _ => ⟨⟨h.located.markers, h.located.ball⟩, h.referee⟩

/-- All doubles in a packet that was decoded are finite, whatever its bytes were. -/
theorem allFinite_of_decode {bytes : Bytes} {packet : Packet} (h : decode bytes = .ok packet) :
    packet.AllFinite := by
  obtain ⟨rest, hread⟩ := exists_ok_of_whole h
  exact gives bytes packet rest hread

/-- A packet that was decoded is decoded from its own text, its objects in any order, as it is read
again. -/
theorem decode_again {bytes : Bytes} {packet : Packet} (h : decode bytes = .ok packet)
    {json : Json} (hjson : Json.Rearranged (record.write packet) json) :
    decode json.toBytes = .ok packet.reread := by
  have hfinite := allFinite_of_decode h
  rw [decode_writes hjson hfinite.finite, received_eq hfinite]

/-- A packet that was decoded is decoded from its own text as it is exactly when its doubles are read
back. -/
theorem decode_same_iff {bytes : Bytes} {packet : Packet} (h : decode bytes = .ok packet) {json : Json}
    (hjson : Json.Rearranged (record.write packet) json) :
    decode json.toBytes = .ok packet ↔ ∀ x ∈ packet.doubles, Number.ReadsBack x := by
  rw [decode_again h hjson, Except.ok.injEq, reread_eq_iff]

end Packet

end RobotSoccer
