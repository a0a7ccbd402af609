import RobotSoccer.Proofs.Json.Brackets
import RobotSoccer.Proofs.Json.CutCodecs
import RobotSoccer.Proofs.Packet.RoundTrip
import RobotSoccer.Session.Client

/-!
# Packets that are cut short

A packet is decoded only from bytes that hold the bracket which closes it, whatever they are
otherwise. The text of a finite packet that is cut short at any byte is an end of the input, and a
client that receives it stays as it is.
-/

namespace RobotSoccer

open Reader

/-- A position ends with its bracket. -/
theorem continues_point : Continues Point.codec.read Point.codec.read :=
  ((continues_double.two continues_double).map fun found : Float × Float =>
    (⟨found.1, found.2⟩ : Point Float)).continues

/-- A byte ends before the first byte that does not go on with it. -/
theorem continues_byte : Continues Codec.byte.read Codec.byte.read := (continues_natural _).map _

/-- A light ends with its bracket. -/
theorem continues_light : Continues Light.codec.read Light.codec.read :=
  ((continues_byte.three continues_byte continues_byte).map
    fun found : UInt8 × UInt8 × UInt8 => (⟨found.1, found.2.1, found.2.2⟩ : Light)).continues

/-- A text that may be missing ends with its quote or the word in its place. -/
theorem continues_nullable_text : Continues Codec.text.nullable.read Codec.text.nullable.read :=
  closes_text.continues.nullable

/-- The parts of a marker end within it. -/
theorem ends_marker : Record.Ends markerRecord.members :=
  List.forall_mem_cons.2 ⟨continues_point, List.forall_mem_singleton.2 continues_double⟩

/-- The parts of the status of a robot end within it. -/
theorem RobotStatus.ends : Record.Ends record.members :=
  List.forall_mem_cons.2 ⟨closes_boolean.continues,
    List.forall_mem_cons.2 ⟨continues_double.nullable,
      List.forall_mem_cons.2 ⟨continues_nullable_text,
        List.forall_mem_cons.2 ⟨closes_boolean.continues,
          List.forall_mem_singleton.2 closes_text.continues.list.continues⟩⟩⟩⟩

/-- The parts of the status of a team end within it. -/
theorem TeamStatus.ends : Record.Ends record.members :=
  List.forall_mem_cons.2 ⟨closes_text.continues,
    List.forall_mem_cons.2 ⟨(continues_natural _).map _,
      List.forall_mem_cons.2 ⟨closes_boolean.continues,
        List.forall_mem_singleton.2 (Record.continues_read RobotStatus.ends).dict.continues⟩⟩⟩

/-- The parts of the status of the match end within it. -/
theorem MatchStatus.ends : Record.Ends record.members :=
  List.forall_mem_cons.2 ⟨closes_boolean.continues,
    List.forall_mem_cons.2 ⟨closes_boolean.continues,
      List.forall_mem_cons.2 ⟨closes_boolean.continues,
        List.forall_mem_cons.2 ⟨continues_double,
          List.forall_mem_cons.2 ⟨closes_text.continues,
            List.forall_mem_singleton.2 (Record.continues_read TeamStatus.ends).dict.continues⟩⟩⟩⟩⟩

/-- The parts of a packet end within it. -/
theorem Packet.ends : Record.Ends record.members :=
  List.forall_mem_cons.2 ⟨(Record.continues_read ends_marker).dict.continues,
    List.forall_mem_cons.2 ⟨continues_point.nullable,
      List.forall_mem_cons.2 ⟨Record.continues_read MatchStatus.ends,
        List.forall_mem_cons.2 ⟨continues_light.dict.continues,
          List.forall_mem_singleton.2 closes_boolean.continues⟩⟩⟩⟩

/-- A finite position that is cut short is an end of the input. -/
theorem Point.severs {p : Point Float} (h : p.Finite) : Point.codec.Severs p := by
  intro json hjson
  obtain ⟨others, rfl, hothers⟩ := hjson.exists_arr
  cases hothers with
  | @cons _ x _ _ hx hmore =>
    cases hmore with
    | @cons _ y _ _ hy hend =>
      cases hend
      rw [Json.toBytes_arr]
      exact (severs_two passesBlanks_double ((Codec.tears_double h.x).tears x hx)
        ((Codec.tears_double h.y).tears y hy)).map _

/-- A finite position is cut short as one that is read again. -/
theorem Point.tears {p : Point Float} (h : p.Finite) : Point.codec.Tears p p.reread :=
  (severs h).tears understands_point (writes h)

/-- A light that is cut short is an end of the input. -/
theorem Light.severs (light : Light) : Light.codec.Severs light := by
  intro json hjson
  obtain ⟨others, rfl, hothers⟩ := hjson.exists_arr
  cases hothers with
  | @cons _ red _ _ hred hmore =>
    cases hmore with
    | @cons _ green _ _ hgreen hmore =>
      cases hmore with
      | @cons _ blue _ _ hblue hend =>
        cases hend
        have hbyte := (Codec.tears_byte light.red).blanks
        rw [Json.toBytes_arr]
        exact (severs_three hbyte hbyte ((Codec.tears_byte light.red).tears red hred)
          ((Codec.tears_byte light.green).tears green hgreen)
          ((Codec.tears_byte light.blue).tears blue hblue)).map _

/-- A finite marker that is cut short is an end of the input. -/
theorem severs_marker {pose : Pose Float} (h : pose.Finite) : markerRecord.codec.Severs pose :=
  Record.severs (by decide) (List.forall_mem_cons.2 ⟨⟨_, Point.tears h.position⟩,
    List.forall_mem_singleton.2 ⟨_, Codec.tears_double h.orientation⟩⟩)

/-- The status of a robot that is cut short is an end of the input. -/
theorem RobotStatus.severs (status : RobotStatus) : record.codec.Severs status :=
  Record.severs (by decide) (List.forall_mem_cons.2 ⟨⟨_, Codec.tears_boolean _⟩,
    List.forall_mem_cons.2 ⟨⟨_, Codec.tears_nullable_double _⟩,
      List.forall_mem_cons.2 ⟨⟨_, Codec.tears_nullable_text _⟩,
        List.forall_mem_cons.2 ⟨⟨_, Codec.tears_boolean _⟩,
          List.forall_mem_singleton.2 ⟨_, Codec.tears_list_text _⟩⟩⟩⟩⟩)

/-- The status of a team that is cut short is an end of the input. -/
theorem TeamStatus.severs (team : TeamStatus) : record.codec.Severs team := by
  have hrobots : Codec.Tears RobotStatus.record.codec.dict team.robots _ :=
    (Codec.severs_dict fun entry _ =>
      ⟨_, (RobotStatus.severs entry.2).tears RobotStatus.understands
        (RobotStatus.writes entry.2)⟩).tears RobotStatus.understands.dict
      (Codec.writes_dict (f := fun status => status.received.reread)
        fun entry _ => RobotStatus.writes entry.2)
  exact Record.severs (by decide) (List.forall_mem_cons.2 ⟨⟨_, Codec.tears_text _⟩,
    List.forall_mem_cons.2 ⟨⟨_, Codec.tears_count _⟩,
      List.forall_mem_cons.2 ⟨⟨_, Codec.tears_boolean _⟩,
        List.forall_mem_singleton.2 ⟨_, hrobots⟩⟩⟩⟩)

/-- The status of a match with a finite timer that is cut short is an end of the input. -/
theorem MatchStatus.severs {referee : MatchStatus} (h : referee.timer.isFinite = true) :
    record.codec.Severs referee := by
  have hteams : Codec.Tears TeamStatus.record.codec.dict referee.teams _ :=
    (Codec.severs_dict fun entry _ =>
      ⟨_, (TeamStatus.severs entry.2).tears TeamStatus.understands
        (TeamStatus.writes entry.2)⟩).tears TeamStatus.understands.dict
      (Codec.writes_dict (f := fun team => team.received.reread)
        fun entry _ => TeamStatus.writes entry.2)
  exact Record.severs (by decide) (List.forall_mem_cons.2 ⟨⟨_, Codec.tears_boolean _⟩,
    List.forall_mem_cons.2 ⟨⟨_, Codec.tears_boolean _⟩,
      List.forall_mem_cons.2 ⟨⟨_, Codec.tears_boolean _⟩,
        List.forall_mem_cons.2 ⟨⟨_, Codec.tears_double h⟩,
          List.forall_mem_cons.2 ⟨⟨_, Codec.tears_text _⟩,
            List.forall_mem_singleton.2 ⟨_, hteams⟩⟩⟩⟩⟩⟩)

namespace Packet

/-- A finite packet that is cut short is an end of the input. -/
theorem severs {packet : Packet} (h : packet.Finite) : record.codec.Severs packet := by
  have hmarkers : Codec.Tears markerRecord.codec.dict packet.markers _ :=
    (Codec.severs_dict fun entry hentry =>
      have hmarker := h.located.markers entry hentry
      ⟨_, (severs_marker hmarker).tears understands_marker (writes_marker hmarker)⟩).tears
      understands_marker.dict
      (Codec.writes_dict fun entry hentry => writes_marker (h.located.markers entry hentry))
  have hball : Codec.Tears Point.codec.nullable packet.ball (packet.ball.map Point.reread) := by
    cases hpoint : packet.ball with
    | none => exact Codec.tears_nullable_none Point.codec
    | some p =>
      have hp := h.located.ball p hpoint
      refine (Point.tears hp).nullable_some fun json hjson => ?_
      exact head?_point_ne (Point.writes hp json hjson)
  have hreferee := (MatchStatus.severs h.timer).tears MatchStatus.understands
    (MatchStatus.writes h.timer)
  have hlights : Codec.Tears Light.codec.dict packet.lights packet.lights :=
    (Codec.severs_dict fun entry _ =>
      ⟨_, (Light.severs entry.2).tears understands_light (Light.writes entry.2)⟩).tears
      understands_light.dict (Codec.writes_dict_same fun entry _ => Light.writes entry.2)
  exact Record.severs (by decide) (List.forall_mem_cons.2 ⟨⟨_, hmarkers⟩,
    List.forall_mem_cons.2 ⟨⟨_, hball⟩,
      List.forall_mem_cons.2 ⟨⟨_, hreferee⟩,
        List.forall_mem_cons.2 ⟨⟨_, hlights⟩,
          List.forall_mem_singleton.2 ⟨_, Codec.tears_boolean _⟩⟩⟩⟩⟩)

/-- A finite packet whose text, its objects in any order, is cut short is an end of the input. -/
theorem decode_cut {packet : Packet} {json : Json} {cut more : Bytes}
    (h : Json.Rearranged (record.write packet) json) (hfinite : packet.Finite)
    (hcut : cut ++ more = json.toBytes) (hmore : more ≠ []) :
    decode cut = .error .endOfInput := by
  have hread : record.codec.read cut = .error .endOfInput :=
    severs hfinite json h cut more hcut hmore
  rw [decode, Codec.decode, whole, hread]

/-- Bytes that are decoded hold a bracket, the bracket that closes it, and blanks around them; the
packet ends with that bracket whatever comes behind it. -/
theorem exists_brackets_of_decode {bytes : Bytes} {packet : Packet}
    (h : decode bytes = .ok packet) :
    ∃ front first inner last behind, Gap front ∧ Record.Brackets first last ∧ Gap behind ∧
      bytes = front ++ first :: (inner ++ last :: behind) ∧ ∀ after,
        record.read (front ++ first :: (inner ++ last :: after)) = .ok (packet, after) := by
  obtain ⟨behind, hread, hfinish⟩ := exists_finish_of_whole h
  obtain ⟨front, first, inner, last, hfront, hbrackets, hbytes, hother⟩ :=
    Record.exists_brackets ends hread
  exact ⟨front, first, inner, last, behind, hfront, hbrackets, gap_of_finish hfinish, hbytes,
    hother⟩

/-- Bytes that end before the bracket that closes a packet are not decoded. -/
theorem exists_fault_of_cut {front inner behind cut : Bytes} {first last : UInt8} {packet : Packet}
    (h : record.read (front ++ first :: (inner ++ last :: behind)) = .ok (packet, behind))
    (hcut : cut <+: front ++ first :: inner) : ∃ fault, decode cut = .error fault := by
  cases hfound : decode cut with
  | error fault => exact ⟨fault, rfl⟩
  | ok found =>
    -- the packet in the bytes that are left would be read with all that was cut off behind it
    obtain ⟨gap, opening, body, closing, after, -, -, -, hbytes, hother⟩ :=
      exists_brackets_of_decode hfound
    obtain ⟨lost, hlost⟩ := hcut
    have hwhole : front ++ first :: (inner ++ last :: behind) =
        gap ++ opening :: (body ++ closing :: (after ++ lost ++ last :: behind)) := by
      rw [← List.cons_append, ← List.append_assoc, ← hlost, hbytes]
      simp only [List.append_assoc, List.cons_append]
    rw [hwhole, hother] at h
    have hlength := congrArg List.length (Prod.mk.inj (Except.ok.inj h)).2
    rw [List.length_append, List.length_cons] at hlength
    omega

/-- A client skips a frame that is not decoded. -/
theorem receive_of_error {σ : Type} (client : Client σ) {frame : Bytes} {fault : Fault}
    (h : decode frame = .error fault) : client.receive frame = client := by
  rw [Client.receive, World.receiveFrame, h]
  exact ite_self client

/-- Packets that are cut short are not decoded. Bytes that are decoded stand between two brackets
but for blanks, and no beginning of them without the second bracket is decoded; the text of a finite
packet, its objects in any order, is an end of the input when anything is cut off it. A client skips
what is left in either case. -/
theorem truncated_law :
    (∀ bytes packet, decode bytes = .ok packet → ∃ front first inner last behind,
      Gap front ∧ Record.Brackets first last ∧ Gap behind ∧
        bytes = front ++ first :: (inner ++ last :: behind) ∧
          ∀ cut, cut <+: front ++ first :: inner →
            (∃ fault, decode cut = .error fault) ∧
              ∀ {σ : Type} (client : Client σ), client.receive cut = client) ∧
    ∀ packet json, Json.Rearranged (record.write packet) json → packet.Finite →
      ∀ cut more, cut ++ more = json.toBytes → more ≠ [] →
        decode cut = .error .endOfInput ∧
          ∀ {σ : Type} (client : Client σ), client.receive cut = client := by
  refine ⟨fun bytes packet h => ?_, fun packet json h hfinite cut more hcut hmore => ?_⟩
  · obtain ⟨front, first, inner, last, behind, hfront, hbrackets, hbehind, hbytes, hread⟩ :=
      exists_brackets_of_decode h
    refine ⟨front, first, inner, last, behind, hfront, hbrackets, hbehind, hbytes, ?_⟩
    intro cut hcut
    obtain ⟨fault, hfault⟩ := exists_fault_of_cut (hread behind) hcut
    exact ⟨⟨fault, hfault⟩, fun client => receive_of_error client hfault⟩
  · have hfault := decode_cut h hfinite hcut hmore
    exact ⟨hfault, fun client => receive_of_error client hfault⟩

/-- A packet with a ball and a message in which a character takes two bytes. -/
def announced : Packet :=
  { blank with
    ball := some ⟨0.5, -0.25⟩
    referee := { MatchStatus.blank with message := "café" } }

/-- Cut between the two bytes of a character the text of that packet is an end of the input, and
without its last bracket it is no packet. -/
theorem truncated_announced :
    announced.Finite ∧ decode announced.encode = .ok announced.received.reread ∧
      (announced.encode.take 150).getLast? = some 0xC3 ∧
      decode (announced.encode.take 150) = .error .endOfInput ∧
      ∃ front first inner last behind, announced.encode = front ++ first :: (inner ++ last :: behind) ∧
        Record.Brackets first last ∧ ∃ fault, decode (front ++ first :: inner) = .error fault := by
  have hfinite : announced.Finite := by
    refine ⟨⟨fun entry hentry => (List.not_mem_nil hentry).elim, fun p hp => ?_⟩, by decide⟩
    obtain rfl := Option.some.inj hp
    exact ⟨by decide, by decide⟩
  have hdecode := decode_encode hfinite
  obtain ⟨hcut, hsevered⟩ := truncated_law
  obtain ⟨front, first, inner, last, behind, -, hbrackets, -, hbytes, hbefore⟩ :=
    hcut _ _ hdecode
  have hmore : announced.encode.drop 150 ≠ [] := by decide +kernel
  obtain ⟨hfault, -⟩ := hsevered announced _ (.same _) hfinite _ _ (List.take_append_drop 150 _) hmore
  exact ⟨hfinite, hdecode, by decide +kernel, hfault, front, first, inner, last, behind, hbytes,
    hbrackets, (hbefore _ List.prefix_rfl).1⟩

end Packet

end RobotSoccer
