import RobotSoccer.Proofs.Json.Refusals
import RobotSoccer.Proofs.Packet.Forms
import RobotSoccer.Proofs.Packet.Reread

/-!
# State packets are understood

A packet whose coordinates and timer are finite is decoded from its own bytes, each of its doubles
as the text of that double is read. The time that remains of a penalty may be any double, and comes
back as nothing when it is not finite. When its doubles are read back the packet is otherwise as it
was.
-/

namespace RobotSoccer

open Reader

/-- A position with finite coordinates. -/
structure Point.Finite (p : Point Float) : Prop where
  /-- The place along the x axis is finite. -/
  x : p.x.isFinite = true
  /-- The place along the y axis is finite. -/
  y : p.y.isFinite = true

/-- A pose with finite coordinates. -/
structure Pose.Finite (pose : Pose Float) : Prop where
  /-- The position is finite. -/
  position : pose.position.Finite
  /-- The direction is finite. -/
  orientation : pose.orientation.isFinite = true

/-- A packet with finite coordinates. -/
structure Packet.Located (packet : Packet) : Prop where
  /-- The poses of all markers are finite. -/
  markers : ∀ entry ∈ packet.markers.entries, entry.2.Finite
  /-- The position of the ball is finite, if there is one. -/
  ball : ∀ p, packet.ball = some p → p.Finite

/-- A packet with finite coordinates and a finite timer. -/
structure Packet.Finite (packet : Packet) : Prop where
  /-- The coordinates are finite. -/
  located : packet.Located
  /-- The seconds left are finite. -/
  timer : packet.referee.timer.isFinite = true

/-- The status of a robot as it is received. -/
def RobotStatus.received (status : RobotStatus) : RobotStatus :=
  { status with penalizedRemaining := status.penalizedRemaining.filter (·.isFinite) }

/-- The status of a team as it is received. -/
def TeamStatus.received (team : TeamStatus) : TeamStatus :=
  { team with robots := team.robots.mapValues RobotStatus.received }

/-- The status of the match as it is received. -/
def MatchStatus.received (referee : MatchStatus) : MatchStatus :=
  { referee with teams := referee.teams.mapValues TeamStatus.received }

/-- A packet as it is received. -/
def Packet.received (packet : Packet) : Packet :=
  { packet with referee := packet.referee.received }

/-- The doubles in the status of a robot as it is received are among those in the status. -/
theorem RobotStatus.doubles_received (status : RobotStatus) :
    ∀ x ∈ status.received.doubles, x ∈ status.doubles := by
  intro x hx
  have hsome : status.penalizedRemaining.filter (·.isFinite) = some x := Option.mem_toList.1 hx
  exact Option.mem_toList.2 (Option.filter_eq_some_iff.1 hsome).1

/-- The doubles in the status of a team as it is received are among those in the status. -/
theorem TeamStatus.doubles_received (team : TeamStatus) :
    ∀ x ∈ team.received.doubles, x ∈ team.doubles := by
  intro x hx
  obtain ⟨entry, hentry, hx⟩ := List.mem_flatMap.1 hx
  obtain ⟨before, hbefore, rfl⟩ := List.mem_map.1 hentry
  exact List.mem_flatMap_of_mem hbefore (before.2.doubles_received x hx)

/-- The doubles in the status of a match as it is received are among those in the status. -/
theorem MatchStatus.doubles_received (referee : MatchStatus) :
    ∀ x ∈ referee.received.doubles, x ∈ referee.doubles := by
  intro x hx
  rcases List.mem_cons.1 hx with rfl | hx
  · exact List.mem_cons_self
  · obtain ⟨entry, hentry, hx⟩ := List.mem_flatMap.1 hx
    obtain ⟨before, hbefore, rfl⟩ := List.mem_map.1 hentry
    exact List.mem_cons_of_mem _
      (List.mem_flatMap_of_mem hbefore (before.2.doubles_received x hx))

/-- When the doubles in a packet are read back, so are those in the packet as it is received. -/
theorem Packet.reread_received {packet : Packet} (h : ∀ x ∈ packet.doubles, Number.ReadsBack x) :
    packet.received.reread = packet.received := by
  refine reread_eq_iff.2 fun x hx => h x ?_
  simp only [doubles, List.mem_append] at hx ⊢
  exact hx.imp_right (Or.imp_right (packet.referee.doubles_received x))

/-- A finite position is written as it is read again. -/
theorem Point.writes {p : Point Float} (h : p.Finite) :
    Point.codec.Writes Point.form p p.reread := by
  intro json hjson
  obtain ⟨others, rfl, hothers⟩ := hjson.exists_arr
  cases hothers with
  | @cons _ x _ _ hx hmore =>
    cases hmore with
    | @cons _ y _ _ hy hend =>
      cases hend
      have hpair : Form.double.two .double (Number.reread p.x, Number.reread p.y)
          (Json.arr [x, y]).toBytes :=
        .array (Codec.writes_double h.x x hx) (Codec.writes_double h.y y hy)
          (Codec.arrayForm_toBytes [x, y])
      exact .of hpair

/-- A light is written as it is. -/
theorem Light.writes (light : Light) : Light.codec.Writes Light.form light light := by
  intro json hjson
  obtain ⟨others, rfl, hothers⟩ := hjson.exists_arr
  cases hothers with
  | @cons _ red _ _ hred hmore =>
    cases hmore with
    | @cons _ green _ _ hgreen hmore =>
      cases hmore with
      | @cons _ blue _ _ hblue hend =>
        cases hend
        have htriple : Form.byte.three .byte .byte (light.red, light.green, light.blue)
            (Json.arr [red, green, blue]).toBytes :=
          .array (Codec.writes_byte _ red hred) (Codec.writes_byte _ green hgreen)
            (Codec.writes_byte _ blue hblue) (Codec.arrayForm_toBytes [red, green, blue])
        exact .of htriple

/-- A finite marker is written as it is read again. -/
theorem writes_marker {pose : Pose Float} (h : pose.Finite) :
    markerRecord.codec.Writes markerLayout.form pose pose.reread := by
  refine Record.writes (by decide) ?_
  refine .cons (Member.writes ?position) (.cons (Member.writes ?orientation) .nil)
  case position => exact Point.writes h.position
  case orientation => exact Codec.writes_double h.orientation

/-- What the referee says about a robot is written as it is received and read again. -/
theorem RobotStatus.writes (status : RobotStatus) :
    record.codec.Writes layout.form status status.received.reread := by
  refine Record.writes (by decide) ?_
  refine .cons (Member.writes ?penalized) (.cons (Member.writes ?remaining)
    (.cons (Member.writes ?reason) (.cons (Member.writes ?preempted)
      (.cons (Member.writes ?reasons) .nil))))
  case penalized => exact Codec.writes_boolean status.penalized
  case remaining => exact Codec.writes_nullable_double status.penalizedRemaining
  case reason => exact Codec.writes_nullable_same fun reason _ => Codec.writes_text reason
  case preempted => exact Codec.writes_boolean status.preempted
  case reasons =>
    exact Codec.writes_list (List.forall₂_same.2 fun reason _ => Codec.writes_text reason)

/-- What the referee says about a team is written as it is received and read again. -/
theorem TeamStatus.writes (team : TeamStatus) :
    record.codec.Writes layout.form team team.received.reread := by
  have hrobots : team.received.reread.robots =
      team.robots.mapValues fun status => status.received.reread :=
    Dict.mapValues_mapValues RobotStatus.received RobotStatus.reread team.robots
  refine Record.writes (by decide) ?_
  refine .cons (Member.writes ?name) (.cons (Member.writes ?score) (.cons (Member.writes ?side)
    (.cons (Member.writes ?robots) .nil)))
  case name => exact Codec.writes_text team.name
  case score => exact Codec.writes_count team.score
  case side => exact Codec.writes_boolean team.xPositive
  case robots =>
    rw [hrobots]
    exact Codec.writes_dict fun entry _ => RobotStatus.writes entry.2

/-- What the referee says about a match with a finite timer is written as it is received and read
again. -/
theorem MatchStatus.writes {referee : MatchStatus} (h : referee.timer.isFinite = true) :
    record.codec.Writes layout.form referee referee.received.reread := by
  have hteams : referee.received.reread.teams =
      referee.teams.mapValues fun team => team.received.reread :=
    Dict.mapValues_mapValues TeamStatus.received TeamStatus.reread referee.teams
  refine Record.writes (by decide) ?_
  refine .cons (Member.writes ?running) (.cons (Member.writes ?paused)
    (.cons (Member.writes ?halftime) (.cons (Member.writes ?timer)
      (.cons (Member.writes ?message) (.cons (Member.writes ?teams) .nil)))))
  case running => exact Codec.writes_boolean referee.gameIsRunning
  case paused => exact Codec.writes_boolean referee.gamePaused
  case halftime => exact Codec.writes_boolean referee.halftimeIsRunning
  case timer => exact Codec.writes_double h
  case message => exact Codec.writes_text referee.message
  case teams =>
    rw [hteams]
    exact Codec.writes_dict fun entry _ => TeamStatus.writes entry.2

/-- A finite packet is written as it is received and read again. -/
theorem Packet.writes {packet : Packet} (h : packet.Finite) :
    record.codec.Writes layout.form packet packet.received.reread := by
  refine Record.writes (by decide) ?_
  refine .cons (Member.writes ?markers) (.cons (Member.writes ?ball)
    (.cons (Member.writes ?referee) (.cons (Member.writes ?lights)
      (.cons (Member.writes ?simulated) .nil))))
  case markers =>
    exact Codec.writes_dict fun entry hentry => writes_marker (h.located.markers entry hentry)
  case ball => exact Codec.writes_nullable fun p hp => Point.writes (h.located.ball p hp)
  case referee => exact MatchStatus.writes h.timer
  case lights => exact Codec.writes_dict_same fun entry _ => Light.writes entry.2
  case simulated => exact Codec.writes_boolean packet.simulated

/-- A position must be finite. -/
theorem demands_point : Point.codec.Demands Point.Finite := by
  intro p json hjson
  obtain ⟨others, rfl, hothers⟩ := hjson.exists_arr
  cases hothers with
  | cons hx hmore =>
    cases hmore with
    | cons hy hend =>
      cases hend
      have htakes := takes_two (Codec.demands_double _ _ hx) (Codec.demands_double _ _ hy)
      rw [Json.toBytes_arr]
      exact (htakes.map fun found : Float × Float => (⟨found.1, found.2⟩ : Point Float)).imp
        fun hfinite => ⟨hfinite.1, hfinite.2⟩

/-- A marker must be finite. -/
theorem demands_marker : markerRecord.codec.Demands Pose.Finite := by
  intro pose json hjson
  have hdemands := Record.demands (by decide) (.cons (Member.demands demands_point)
    (.cons (Member.demands Codec.demands_double) .nil)) pose json hjson
  refine hdemands.imp fun hgoods => ?_
  obtain ⟨hposition, hgoods⟩ := List.forall_mem_cons.1 hgoods
  exact ⟨hposition, (List.forall_mem_cons.1 hgoods).1⟩

/-- The status of a team may be any. -/
theorem TeamStatus.demands : record.codec.Demands fun _ => True :=
  Codec.demands_nothing understands writes

/-- The timer of a match must be finite. -/
theorem MatchStatus.demands : record.codec.Demands (·.timer.isFinite = true) := by
  intro referee json hjson
  have hflag := Codec.demands_nothing understands_boolean Codec.writes_boolean
  have hdemands := Record.demands (by decide) (.cons (Member.demands hflag)
    (.cons (Member.demands hflag) (.cons (Member.demands hflag)
      (.cons (Member.demands Codec.demands_double)
        (.cons (Member.demands (Codec.demands_nothing understands_text Codec.writes_text))
          (.cons (Member.demands TeamStatus.demands.dict) .nil)))))) referee json hjson
  refine hdemands.imp fun hgoods => ?_
  obtain ⟨-, hgoods⟩ := List.forall_mem_cons.1 hgoods
  obtain ⟨-, hgoods⟩ := List.forall_mem_cons.1 hgoods
  obtain ⟨-, hgoods⟩ := List.forall_mem_cons.1 hgoods
  exact (List.forall_mem_cons.1 hgoods).1

/-- A packet must be finite. -/
theorem Packet.demands : record.codec.Demands Packet.Finite := by
  intro packet json hjson
  have hball : Point.codec.nullable.Demands fun ball => ∀ p ∈ ball, p.Finite := by
    refine demands_point.nullable fun hp => ?_
    obtain ⟨others, rfl, hothers⟩ := hp.exists_arr
    cases hothers with
    | cons _ _ =>
      rw [Json.toBytes_arr, List.map_cons, Json.arrayBytes, List.head?_cons]
      decide
  have hdemands := Record.demands (by decide) (.cons (Member.demands demands_marker.dict)
    (.cons (Member.demands hball) (.cons (Member.demands MatchStatus.demands)
      (.cons (Member.demands (Codec.demands_nothing understands_light Light.writes).dict)
        (.cons (Member.demands (Codec.demands_nothing understands_boolean Codec.writes_boolean))
          .nil))))) packet json hjson
  refine hdemands.imp fun hgoods => ?_
  obtain ⟨hmarkers, hgoods⟩ := List.forall_mem_cons.1 hgoods
  obtain ⟨hball, hgoods⟩ := List.forall_mem_cons.1 hgoods
  exact ⟨⟨hmarkers, hball⟩, (List.forall_mem_cons.1 hgoods).1⟩

namespace Packet

/-- A finite packet is decoded from its text, its objects in any order, as it is received and read
again. -/
theorem decode_writes {packet : Packet} {json : Json}
    (h : Json.Rearranged (record.write packet) json) (hfinite : packet.Finite) :
    decode json.toBytes = .ok packet.received.reread :=
  (understands.reads (writes hfinite json h)).whole

/-- A packet that is decoded from its text, its objects in any order, is finite. -/
theorem finite_of_decode {packet found : Packet} {json : Json}
    (h : Json.Rearranged (record.write packet) json) (hfound : decode json.toBytes = .ok found) :
    packet.Finite := by
  obtain ⟨rest, hread⟩ := exists_ok_of_whole hfound
  rw [← List.append_nil json.toBytes] at hread
  exact ((demands packet json h).takes apart_nil hread).2

/-- The text of a packet, its objects in any order, is decoded exactly when the packet is finite,
and then as the packet is received, with each double as its own text is read: when the doubles in
the packet are read back, exactly as it is received. -/
theorem decode_rearranged {packet : Packet} {json : Json}
    (h : Json.Rearranged (record.write packet) json) :
    ((∃ found, decode json.toBytes = .ok found) ↔ packet.Finite) ∧
      ∀ found, decode json.toBytes = .ok found →
        found = packet.received.reread ∧
          ((∀ x ∈ packet.doubles, Number.ReadsBack x) → found = packet.received) := by
  refine ⟨⟨fun ⟨found, hfound⟩ => finite_of_decode h hfound, fun hfinite => ?_⟩, ?_⟩
  · exact ⟨packet.received.reread, decode_writes h hfinite⟩
  · intro found hfound
    have hback := decode_writes h (finite_of_decode h hfound)
    have hreread : found = packet.received.reread := Except.ok.inj (hfound.symm.trans hback)
    exact ⟨hreread, fun hbacks => hreread.trans (reread_received hbacks)⟩

/-- A robot whose penalty has no end. -/
def banned : RobotStatus := { RobotStatus.blank with penalizedRemaining := some (1.0 / 0.0) }

/-- A packet with two markers and a robot whose penalty has no end. -/
def crowded : Packet :=
  { blank with
    markers := ⟨[("blue1", .of 0.5 (-0.0) 0.0), ("green2", .of 1.5 0.0 0.0)],
      List.pairwise_pair.2 (by decide)⟩
    referee := { MatchStatus.blank with
      teams := ⟨[("blue", { TeamStatus.blank with
          robots := ⟨[("1", banned)], List.pairwise_singleton _ _⟩ })],
        List.pairwise_singleton _ _⟩ } }

/-- A text of that packet with the markers the other way round. -/
def crowdedText : Json := .obj [
  ("markers", .obj [("green2", markerRecord.write (.of 1.5 0.0 0.0)),
    ("blue1", markerRecord.write (.of 0.5 (-0.0) 0.0))]),
  ("ball", .null), ("referee", MatchStatus.record.write crowded.referee), ("leds", .obj []),
  ("simulated", .bool false)]

/-- With its markers the other way round the packet is decoded as it is received: its penalty has
no time that remains. -/
theorem decode_rearranged_crowded :
    Json.Rearranged (record.write crowded) crowdedText ∧
      decode crowdedText.toBytes = .ok crowded.received ∧
      crowded.received.robotStatus? "blue" 1 = some RobotStatus.blank := by
  have hmarkers : Json.Rearranged
      (.obj [("blue1", markerRecord.write (.of 0.5 (-0.0) 0.0)),
        ("green2", markerRecord.write (.of 1.5 0.0 0.0))])
      (.obj [("green2", markerRecord.write (.of 1.5 0.0 0.0)),
        ("blue1", markerRecord.write (.of 0.5 (-0.0) 0.0))]) :=
    .obj (.swap _ _ _) (.cons (.named (.same _)) (.cons (.named (.same _)) .nil))
  have htext : Json.Rearranged (record.write crowded) crowdedText :=
    .obj (.refl _) (.cons (.named hmarkers) (.cons (.named (.same _))
      (.cons (.named (.same _)) (.cons (.named (.same _)) (.cons (.named (.same _)) .nil)))))
  have hfinite : crowded.Finite := by
    refine ⟨⟨List.forall_mem_cons.2 ⟨?_, List.forall_mem_singleton.2 ?_⟩, fun p hp => nomatch hp⟩,
      by decide⟩
    · exact ⟨⟨by decide, by decide⟩, by decide⟩
    · exact ⟨⟨by decide, by decide⟩, by decide⟩
  have hbacks : ∀ x ∈ crowded.doubles, Number.ReadsBack x := by decide +kernel
  obtain ⟨hdecodes, hback⟩ := decode_rearranged htext
  obtain ⟨found, hfound⟩ := hdecodes.2 hfinite
  refine ⟨htext, (hback found hfound).2 hbacks ▸ hfound, ?_⟩
  rfl

/-- A finite packet is decoded from its bytes as it is received and read again. -/
theorem decode_encode {packet : Packet} (h : packet.Finite) :
    decode packet.encode = .ok packet.received.reread := decode_writes (.same _) h

/-- What a received packet says about a robot is what the packet said, as it is received. -/
theorem robotStatus?_received (packet : Packet) (team : String) (number : UInt8) :
    packet.received.robotStatus? team number =
      (packet.robotStatus? team number).map RobotStatus.received := by
  unfold robotStatus? received MatchStatus.received
  dsimp only
  rw [Dict.get?_mapValues]
  cases packet.referee.teams.get? team with
  | none => rfl
  | some status => exact Dict.get?_mapValues RobotStatus.received status.robots _

end Packet

end RobotSoccer
