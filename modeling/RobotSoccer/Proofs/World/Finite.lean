import RobotSoccer.Proofs.Packet.Received
import RobotSoccer.Proofs.World.LastWriter

/-!
# A world that is fed by frames alone holds finite doubles

Each double that a world takes from a frame was decoded, so it is finite, and frames that are no
packets are not taken at all. Hence no sequence of frames brings a double into a world that is not
finite, whatever their bytes are.
-/

namespace RobotSoccer

/-- The doubles that are known about a robot are finite. -/
structure RobotView.Finite (view : RobotView) : Prop where
  /-- The pose is finite, if there is one. -/
  pose : ∀ pose ∈ view.pose, pose.Finite
  /-- The doubles in the status are finite. -/
  status : view.status.AllFinite

/-- The doubles that a world holds are finite. -/
structure World.Finite (world : World) : Prop where
  /-- The position of the ball is finite, if there is one. -/
  ball : ∀ p ∈ world.ball, p.Finite
  /-- What is known about each robot is finite. -/
  robots : ∀ robot view, world.robot? robot = some view → view.Finite
  /-- What is known about the match is finite. -/
  referee : world.referee.AllFinite

/-- What a finite packet says about a robot is finite. -/
theorem Packet.AllFinite.robotStatus {packet : Packet} (h : packet.AllFinite) {team : String}
    {number : UInt8} {status : RobotStatus}
    (hstatus : packet.robotStatus? team number = some status) : status.AllFinite := by
  obtain ⟨teamStatus, hteam, hrobot⟩ := Option.bind_eq_some_iff.1 hstatus
  have hentry := h.referee.teams _ (Dict.get?_eq_some_iff.1 hteam)
  exact hentry _ (Dict.get?_eq_some_iff.1 hrobot)

/-- A finite packet leaves a finite view of a robot finite. -/
theorem RobotView.finite_receive {view : RobotView} (hview : view.Finite) {packet : Packet}
    (h : packet.AllFinite) (robot : RobotName) (now : Instant) :
    (view.receive robot packet now).Finite := by
  have hmarker : ∀ marker, packet.markers.get? robot.text = some marker → marker.Finite :=
    fun marker hget => h.located.markers _ (Dict.get?_eq_some_iff.1 hget)
  rw [receive]
  cases hstatus : packet.robotStatus? robot.team.text robot.number with
  | none =>
    cases hget : packet.markers.get? robot.text with
    | none => exact hview
    | some marker =>
      exact ⟨fun pose hpose => Option.some.inj hpose ▸ hmarker marker hget, hview.status⟩
  | some status =>
    cases hget : packet.markers.get? robot.text with
    | none => exact ⟨hview.pose, h.robotStatus hstatus⟩
    | some marker =>
      exact ⟨fun pose hpose => Option.some.inj hpose ▸ hmarker marker hget, h.robotStatus hstatus⟩

namespace World

/-- A finite packet leaves a finite world finite. -/
theorem finite_receive {world : World} (hworld : world.Finite) {packet : Packet}
    (h : packet.AllFinite) (now : Instant) : (world.receive packet now).Finite where
  ball := by
    intro p hp
    rcases Option.or_eq_some_iff.1 hp with hseen | ⟨-, hkept⟩
    · exact h.located.ball p hseen
    · exact hworld.ball p hkept
  robots := by
    intro robot view hview
    have hget : (world.receive packet now).robot? robot =
        (world.robot? robot).map (RobotView.receive robot packet now) :=
      world.robots.get?_mapNamed _ robot
    rw [hget] at hview
    obtain ⟨before, hbefore, rfl⟩ := Option.map_eq_some_iff.1 hview
    exact RobotView.finite_receive (hworld.robots robot before hbefore) h robot now
  referee := h.referee

/-- A frame leaves a finite world finite, whatever its bytes are. -/
theorem finite_frame {world : World} (hworld : world.Finite) (bytes : Bytes) (now : Instant) :
    (world.happen (.frame bytes) now).Finite := by
  rw [happen, receiveFrame]
  cases hdecode : Packet.decode bytes with
  | error fault => exact hworld
  | ok packet => exact finite_receive hworld (Packet.allFinite_of_decode hdecode) now

/-- Nothing in a world of which nothing was seen is not finite. -/
theorem finite_blank : blank.Finite where
  ball := fun p hp => nomatch hp
  robots := by
    intro robot view hview
    have hplays : robot ∈ RobotName.all :=
      (blank.robots.isSome_get? robot).1 (Option.isSome_iff_exists.2 ⟨view, hview⟩)
    rw [robot?_blank hplays] at hview
    rw [← Option.some.inj hview]
    exact ⟨fun pose hpose => (nomatch hpose), fun x hx => (nomatch hx)⟩
  referee := Packet.allFinite_blank.referee

/-- Frames leave a finite world finite, in any number and whatever their bytes are. -/
theorem finite_after {world : World} (hworld : world.Finite) {steps : List (Event × Instant)}
    (hframes : ∀ step ∈ steps, ∃ bytes, step.1 = .frame bytes) : (world.after steps).Finite := by
  induction steps generalizing world with
  | nil => exact hworld
  | cons step more ih =>
    obtain ⟨bytes, hframe⟩ := hframes step List.mem_cons_self
    have hnext := finite_frame hworld bytes step.2
    rw [← hframe] at hnext
    exact ih hnext fun later hlater => hframes later (List.mem_cons_of_mem _ hlater)

/-- All bytes that are accepted as a packet give one whose doubles are finite. From its own text, its
objects in any order, that packet is decoded with each double as its text is read, and it is the same
packet exactly when its doubles are read back. A world that takes in nothing but frames never holds a
double that is not finite, whatever the frames are. -/
theorem accepted_law :
    (∀ bytes packet, Packet.decode bytes = .ok packet →
      packet.AllFinite ∧ packet.reread.AllFinite ∧ ∀ json,
        Json.Rearranged (Packet.record.write packet) json →
          Packet.decode json.toBytes = .ok packet.reread ∧
            (Packet.decode json.toBytes = .ok packet ↔
              ∀ x ∈ packet.doubles, Number.ReadsBack x)) ∧
    ∀ steps : List (Event × Instant), (∀ step ∈ steps, ∃ bytes, step.1 = .frame bytes) →
      (blank.after steps).Finite := by
  constructor
  · intro bytes packet h
    have hagain := Packet.decode_again h (.same _)
    exact ⟨Packet.allFinite_of_decode h, Packet.allFinite_of_decode hagain, fun json hjson =>
      ⟨Packet.decode_again h hjson, Packet.decode_same_iff h hjson⟩⟩
  · exact fun steps hframes => finite_after finite_blank hframes

/-- The text of a packet whose ball is at a number of seventeen digits. -/
def drifting : Bytes :=
  Utf8.encodeChars "\x7b\"ball\":[0.91111111111111110,0.0]\x7d".toList

/-- The double that the number is read as is not the one that its own text is read as: the packet is
not decoded from its own text as it was. -/
theorem accepted_drifting :
    ∃ packet, Packet.decode drifting = .ok packet ∧
      packet.ball.map (·.x.toBits) = some 4606381778866262653 ∧
      Packet.decode packet.encode ≠ .ok packet := by
  have hball : ((Packet.decode drifting).toOption.bind (·.ball)).map (·.x.toBits) =
      some 4606381778866262653 := by decide +kernel
  cases hdecode : Packet.decode drifting with
  | error fault =>
    rw [hdecode] at hball
    cases hball
  | ok packet =>
    rw [hdecode] at hball
    refine ⟨packet, rfl, hball, fun hsame => ?_⟩
    obtain ⟨p, hp, hbits⟩ := Option.map_eq_some_iff.1 hball
    have hmem : p.x ∈ packet.doubles := by
      refine List.mem_append_right _ (List.mem_append_left _ (List.mem_flatMap.2 ⟨p, ?_, ?_⟩))
      · exact Option.mem_toList.2 hp
      · exact List.mem_cons_self
    have hback := (Packet.decode_same_iff hdecode (.same _)).1 hsame p.x hmem
    rw [← Binary64.ofBits_toBits p.x, hbits] at hback
    exact absurd hback (by decide +kernel)

end World

end RobotSoccer
