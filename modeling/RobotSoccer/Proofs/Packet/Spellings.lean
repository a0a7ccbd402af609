import RobotSoccer.Proofs.Packet.Received

/-!
# A packet is the same however it is spelled

The text of a packet may have blanks between any two of its parts. The members of its records and
the entries of its maps may come in any order; members may be left out where they say nothing new,
and members that are not known and entries that are overwritten may be added; a record may be the
array of its parts. None of this makes a difference to what is decoded: the packet with each double as
its text is read.
-/

namespace RobotSoccer.Packet

open Reader

/-- Bytes spell a packet: in one of the forms that a packet has, with blanks around it. -/
inductive Spelled (packet : Packet) : Bytes → Prop
  /-- A form of the packet between blanks. -/
  | between {before bytes behind : Bytes} (hbefore : Gap before) (hbehind : Gap behind)
    (h : layout.form packet bytes) : Spelled packet (before ++ (bytes ++ behind))

/-- What spells a packet is decoded as that packet. -/
theorem Spelled.decode {packet : Packet} {bytes : Bytes} (h : Spelled packet bytes) :
    decode bytes = .ok packet := by
  cases h with
  | between hbefore hbehind hform =>
    exact (understands.reads hform).whole_gap understands.blanks hbefore hbehind

/-- The text of a packet whose doubles are finite spells it as it is read again, its objects in any
order. -/
theorem spelled_writes {packet : Packet} (h : packet.AllFinite) {json : Json}
    (hjson : Json.Rearranged (record.write packet) json) : Spelled packet.reread json.toBytes := by
  have hform := writes h.finite json hjson
  rw [received_eq h] at hform
  have hspelled := Spelled.between gap_nil gap_nil hform
  rw [List.append_nil] at hspelled
  exact hspelled

/-- The text of a packet whose doubles are finite spells it as it is read again, and all bytes that
spell this are decoded as it. It is the packet itself exactly when its doubles are read back. -/
theorem spelling_law {packet : Packet} (h : packet.AllFinite) :
    Spelled packet.reread packet.encode ∧
      (∀ bytes, Spelled packet.reread bytes → Packet.decode bytes = .ok packet.reread) ∧
      (packet.reread = packet ↔ ∀ x ∈ packet.doubles, Number.ReadsBack x) :=
  ⟨spelled_writes h (.same _), fun _ hspelled => hspelled.decode, reread_eq_iff⟩

/-- A packet with a ball at a double that its own text is not read as. -/
def offset : Packet := { blank with ball := some ⟨0.09090909090909091, 0.0⟩ }

/-- All doubles in that packet are finite, and its own text, as it was written, is decoded as another
packet: the ball is one step of the last digit further. -/
theorem spelled_offset :
    offset.AllFinite ∧ Packet.decode offset.encode = .ok offset.reread ∧
      offset.ball.map (·.x.toBits) = some 4591215111030249286 ∧
      offset.reread.ball.map (·.x.toBits) = some 4591215111030249287 ∧
      Packet.decode offset.encode ≠ .ok offset := by
  have hfinite : offset.AllFinite := by
    refine ⟨⟨fun entry hentry => absurd hentry List.not_mem_nil, fun p hp => ?_⟩,
      allFinite_blank.referee⟩
    cases hp
    exact ⟨by decide, by decide⟩
  have hdecode := (spelled_writes hfinite (.same _)).decode
  have hbits : offset.reread.ball.map (·.x.toBits) = some 4591215111030249287 := by decide +kernel
  refine ⟨hfinite, hdecode, by decide +kernel, hbits, fun hsame => ?_⟩
  have hagain : offset.reread = offset := Except.ok.inj (hdecode.symm.trans hsame)
  rw [hagain] at hbits
  exact absurd hbits (by decide +kernel)

/-- A packet with a ball and a light. -/
def lit : Packet :=
  { blank with
    ball := some ⟨0.5, -0.0⟩
    lights := ⟨[("blue1", ⟨0, 0, 50⟩)], List.pairwise_singleton _ _⟩
    simulated := true }

/-- A number that is past every double. -/
def past : NumberParts := ⟨[0x39], none, some (false, List.replicate 3 0x39)⟩

/-- The entries of the lights of a text of that packet: one that is overwritten comes first. -/
def litEntries : List (String × Bytes) := [
  ("blue1", (Light.codec.write ⟨1, 2, 3⟩).toBytes),
  ("blue1", (Light.codec.write ⟨0, 0, 50⟩).toBytes)]

/-- The members of a text of that packet: one that is not known, and then parts in another order. -/
def litMembers : List (String × Bytes) := [
  ("log", Json.arrayBytes [past.bytes]),
  ("simulated", (Json.bool true).toBytes),
  ("leds", Json.objectBytes litEntries),
  ("ball", (Point.codec.write ⟨0.5, -0.0⟩).toBytes)]

/-- The text spells the packet without its markers and its match, which are as in the blank. -/
theorem form_litMembers : layout.form lit (Json.objectBytes litMembers) := by
  have hpast : past.WellFormed := by
    have hnines : NumberParts.Digits (List.replicate 3 0x39) :=
      ⟨List.cons_ne_nil _ _, fun b hb => List.eq_of_mem_replicate hb ▸ rfl⟩
    refine ⟨⟨List.cons_ne_nil _ _, List.forall_mem_singleton.2 rfl⟩, ?_,
      fun part hpart => (nomatch hpart), fun power hpower => ?_⟩
    · exact fun hlead => hlead.2 rfl
    · cases hpower
      exact hnines
  have hlog : Json.ValueForm (Json.arrayBytes [past.bytes]) := by
    refine .array (List.forall_mem_singleton.2 ?_) (Json.arrayForm_arrayBytes _)
    exact .number (NumberForm.parts false hpast (NumberParts.powerForm_powerBytes past.power?))
  have hentry (light : Light) : Form.Entry Light.form ("blue1", light)
      (Json.memberBytes ("blue1", (Light.codec.write light).toBytes)) :=
    ⟨Json.textForm_quotedChars _, light.writes _ (.same _)⟩
  have hlights : Form.dict Light.form lit.lights (Json.objectBytes litEntries) :=
    .object (.cons (hentry ⟨1, 2, 3⟩) (.cons (hentry ⟨0, 0, 50⟩) .nil))
      (Json.objectForm_objectBytes litEntries)
  have hagain : Point.reread ⟨0.5, -0.0⟩ = ⟨0.5, -0.0⟩ := Point.reread_eq_iff.2 (by decide +kernel)
  have hpoint : Point.form (Point.reread ⟨0.5, -0.0⟩) (Point.codec.write ⟨0.5, -0.0⟩).toBytes :=
    Point.writes ⟨by decide, by decide⟩ _ (.same _)
  have hball : Form.nullable Point.form lit.ball (Point.codec.write ⟨0.5, -0.0⟩).toBytes :=
    .some (hagain ▸ hpoint)
  have hshown : layout.Members lit [⟨"simulated", _, (·.simulated), .boolean⟩,
      ⟨"leds", _, (·.lights), .dict Light.form⟩, ⟨"ball", _, (·.ball), .nullable Point.form⟩]
      (litMembers.map Json.memberBytes) :=
    .unknown (by decide) (Json.textForm_quotedChars "log") hlog
      (.known (by simp [layout]) (Json.textForm_quotedChars _) .true
        (.known (by simp [layout]) (Json.textForm_quotedChars _) hlights
          (.known (by simp [layout]) (Json.textForm_quotedChars _) hball .nil)))
  refine .object hshown (by decide) ?_ (Json.objectForm_objectBytes litMembers)
  refine List.forall_mem_cons.2 ⟨?markers, List.forall_mem_cons.2 ⟨?ball,
    List.forall_mem_cons.2 ⟨?referee, List.forall_mem_cons.2 ⟨?lights,
      List.forall_mem_singleton.2 ?simulated⟩⟩⟩⟩
  case markers => exact fun _ => ⟨rfl, rfl⟩
  case ball => exact fun hnot => absurd (by simp) hnot
  case referee => exact fun _ => ⟨rfl, rfl⟩
  case lights => exact fun hnot => absurd (by simp) hnot
  case simulated => exact fun hnot => absurd (by simp) hnot

/-- With blanks around it the text is decoded as the packet. -/
theorem spelled_lit :
    lit.AllFinite ∧ Packet.decode lit.encode = .ok lit ∧
      Packet.decode ([0x20] ++ (Json.objectBytes litMembers ++ [0x0A])) = .ok lit := by
  have hfinite : lit.AllFinite := by
    refine ⟨⟨fun entry hentry => absurd hentry List.not_mem_nil, fun p hp => ?_⟩,
      allFinite_blank.referee⟩
    cases hp
    exact ⟨by decide, by decide⟩
  have hspace : Gap [0x20] := List.forall_mem_singleton.2 rfl
  have hline : Gap [0x0A] := List.forall_mem_singleton.2 rfl
  obtain ⟨hspelled, hdecodes, hagain⟩ := spelling_law hfinite
  rw [hagain.2 (by decide +kernel)] at hspelled hdecodes
  exact ⟨hfinite, hdecodes _ hspelled, hdecodes _ (.between hspace hline form_litMembers)⟩

end RobotSoccer.Packet
