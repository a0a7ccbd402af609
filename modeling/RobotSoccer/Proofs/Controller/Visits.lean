import RobotSoccer.Proofs.Controller.Robotwise

/-!
# The order of the velocities makes no difference

When time passes the robots that have a velocity are gone through one after the other, in an order
that nobody promises. Different robots have different texts, so each of them finds a marker that no
other moves, and it is moved once, from where it was.
-/

namespace RobotSoccer.Pitch

/-- Velocities under the texts of their robots. -/
def underTexts (order : List (RobotName × Velocity Float)) : List (String × Velocity Float) :=
  order.map fun moving => (moving.1.text, moving.2)

/-- The robots that have a velocity, with it, in an order in which they may be gone through. -/
structure Visits (pitch : Pitch) (order : List (RobotName × Velocity Float)) : Prop where
  /-- No robot comes twice. -/
  once : (order.map (·.1)).Nodup
  /-- The velocities of the pitch are theirs. -/
  velocity_iff : ∀ key velocity, pitch.velocities.get? key = some velocity ↔
    ∃ name, (name, velocity) ∈ order ∧ name.text = key

/-- Lets some time pass: the robots move by their velocities, in an order. -/
def advanceThrough (pitch : Pitch) (order : List (RobotName × Velocity Float)) (time : Float) :
    Pitch := pitch.advanceIn (underTexts order) time

variable {pitch : Pitch} {order other : List (RobotName × Velocity Float)}

/-- Robots that come once each have texts that come once each. -/
theorem nodup_underTexts (h : (order.map (·.1)).Nodup) : ((underTexts order).map (·.1)).Nodup := by
  have htexts : (underTexts order).map (·.1) = (order.map (·.1)).map RobotName.text := by
    rw [underTexts, List.map_map, List.map_map]
    rfl
  rw [htexts]
  exact List.Pairwise.map RobotName.text
    (fun _ _ hne heq => hne (RobotName.text_injective heq)) h

/-- What stands under a text is the velocity of the robot with that text. -/
theorem mem_underTexts {key : String} {velocity : Velocity Float} :
    (key, velocity) ∈ underTexts order ↔ ∃ name, (name, velocity) ∈ order ∧ name.text = key := by
  simp only [underTexts, List.mem_map, Prod.mk.injEq, Prod.exists]
  constructor
  · rintro ⟨name, found, hmem, htext, rfl⟩
    exact ⟨name, hmem, htext⟩
  · rintro ⟨name, hmem, htext⟩
    exact ⟨name, velocity, hmem, htext, rfl⟩

/-- Any robots can have velocities, one each. -/
theorem visits_ofList (pitch : Pitch) (h : (order.map (·.1)).Nodup) :
    { pitch with velocities := Dict.ofList (underTexts order) }.Visits order := by
  have hnodup := nodup_underTexts h
  refine ⟨h, fun key velocity => ?_⟩
  dsimp only
  rw [Dict.ofList, Dict.get?_foldl_insert _ hnodup, Dict.get?_empty, Option.or_none,
    Entries.get?_eq_some_iff_of_nodup hnodup, mem_underTexts]

/-- The robots may be gone through in any order. -/
theorem Visits.perm (h : pitch.Visits order) (hperm : other.Perm order) : pitch.Visits other := by
  refine ⟨(hperm.map _).nodup_iff.2 h.once, fun key velocity => ?_⟩
  rw [h.velocity_iff]
  exact exists_congr fun name => and_congr_left' hperm.mem_iff.symm

/-- The velocity under a text is the same in every order. -/
theorem Visits.get?_underTexts (h : pitch.Visits order) (key : String) :
    Entries.get? key (underTexts order) = pitch.velocities.get? key := by
  refine Option.ext fun velocity => ?_
  rw [Entries.get?_eq_some_iff_of_nodup (nodup_underTexts h.once), mem_underTexts, h.velocity_iff]

/-- Each marker is carried by the velocity of its robot, whatever the order is. -/
theorem Visits.get?_markers (h : pitch.Visits order) (time : Float) (key : String) :
    (pitch.advanceThrough order time).packet.markers.get? key =
      (pitch.packet.markers.get? key).map
        (Pose.carried time (pitch.velocities.get? key)) := by
  have hmoved := get?_moveMarkers time (nodup_underTexts h.once) pitch.packet.markers key
  rw [h.get?_underTexts key] at hmoved
  rw [advanceThrough, advanceIn]
  exact hmoved

/-- In every order time passes in the same way. -/
theorem Visits.advanceThrough_eq (h : pitch.Visits order) (time : Float) :
    pitch.advanceThrough order time = pitch.advance time := by
  have hmarkers : (pitch.advanceThrough order time).packet.markers =
      (pitch.advance time).packet.markers := by
    refine Dict.ext fun key => ?_
    rw [h.get?_markers, get?_markers_advance, poseAfter_eq]
  have hframe (order : List (String × Velocity Float)) :
      pitch.advanceIn order time = { pitch with
        packet := { pitch.packet with markers := (pitch.advanceIn order time).packet.markers } } :=
    rfl
  rw [advanceThrough] at hmarkers ⊢
  rw [advance] at hmarkers ⊢
  rw [hframe, hmarkers, ← hframe]

/-- Time passes in the same way in whatever order the robots are gone through. The marker of each
robot that has a velocity is moved once, by this velocity turned by the heading that the marker had,
and turned by as much as the velocity turns in that time. Every other marker stays, no marker comes
or goes, and nothing else changes. -/
theorem visits_law (h : pitch.Visits order) (time : Float) :
    (∀ other : List (RobotName × Velocity Float), other.Perm order →
      pitch.advanceThrough other time = pitch.advanceThrough order time) ∧
    pitch.advance time = pitch.advanceThrough order time ∧
    (∀ name velocity, (name, velocity) ∈ order →
      (pitch.advanceThrough order time).packet.markers.get? name.text =
        (pitch.packet.markers.get? name.text).map fun pose =>
          ⟨pose.position.add
              (((Vec.mk velocity.forward velocity.left).rotated pose.orientation).scaled time),
            angleWrap (pose.orientation + velocity.turn * time)⟩) ∧
    (∀ key, (∀ moving ∈ order, moving.1.text ≠ key) →
      (pitch.advanceThrough order time).packet.markers.get? key =
        pitch.packet.markers.get? key) ∧
    (∀ key, ((pitch.advanceThrough order time).packet.markers.get? key).isSome =
      (pitch.packet.markers.get? key).isSome) ∧
    pitch.advanceThrough order time = { pitch with
      packet := { pitch.packet with
        markers := (pitch.advanceThrough order time).packet.markers } } := by
  refine ⟨fun other hperm => ?_, (h.advanceThrough_eq time).symm, fun name velocity hmem => ?_,
    fun key hother => ?_, fun key => ?_, rfl⟩
  · rw [(h.perm hperm).advanceThrough_eq, h.advanceThrough_eq]
  · have hvelocity : pitch.velocities.get? name.text = some velocity :=
      (h.velocity_iff _ _).2 ⟨name, hmem, rfl⟩
    rw [h.get?_markers, hvelocity]
    rfl
  · have hnone : pitch.velocities.get? key = none := by
      refine Option.eq_none_iff_forall_ne_some.2 fun velocity hfound => ?_
      obtain ⟨name, hmem, htext⟩ := (h.velocity_iff _ _).1 hfound
      exact hother _ hmem htext
    have hstill : Pose.carried time (none : Option (Velocity Float)) = id := rfl
    rw [h.get?_markers, hnone, hstill, Option.map_id_fun, id]
  · rw [h.get?_markers, Option.isSome_map]

/-- A robot that is on the pitch moves ahead and turns, and one that was never put there would move
to its left. -/
def twoMoving : List (RobotName × Velocity Float) :=
  [(.blue1, ⟨1.0, 0.0, 0.5⟩), (.green2, ⟨0.0, 1.0, 0.0⟩)]

/-- A pitch on which these two have their velocities. -/
def twoMovingPitch : Pitch :=
  { blank.setRobot .blue1 (.of 0.5 0.5 1.0) with velocities := Dict.ofList (underTexts twoMoving) }

/-- It does not matter which of the two is gone through first. -/
theorem visits_law_reversed :
    twoMovingPitch.Visits twoMoving ∧
      twoMovingPitch.advanceThrough twoMoving.reverse 0.01 =
        twoMovingPitch.advanceThrough twoMoving 0.01 := by
  have hvisits : twoMovingPitch.Visits twoMoving := visits_ofList _ (by decide)
  exact ⟨hvisits, (visits_law hvisits 0.01).1 twoMoving.reverse twoMoving.reverse_perm⟩

end RobotSoccer.Pitch
