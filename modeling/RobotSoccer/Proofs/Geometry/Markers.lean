import Mathlib.Logic.Function.Iterate
import RobotSoccer.Controller.Pitch
import RobotSoccer.Proofs.Dict

/-!
# Markers that move

What passing time does to markers, over any arithmetic: each moves by the velocity with its own key,
whatever the order is in which the velocities are gone through. The pitch is the case of doubles. A
robot is steered in rounds: it is ordered a step towards its target, and time passes.
-/

namespace RobotSoccer

variable {α : Type} [Scalar α]

/-- The pose that a velocity leads to in some time; without a velocity it stays. -/
def Pose.carried (time : α) (velocity : Option (Velocity α)) (pose : Pose α) : Pose α :=
  match velocity with
  | none => pose
  | some velocity => pose.moved velocity time

/-- Each marker moves by the velocity with its own key. -/
theorem get?_moveMarkers (time : α) {order : List (String × Velocity α)}
    (hnodup : (order.map (·.1)).Nodup) (markers : Dict (Pose α)) (key : String) :
    (moveMarkers time order markers).get? key =
      (markers.get? key).map (Pose.carried time (Entries.get? key order)) := by
  induction order generalizing markers with
  | nil =>
    have hstill : Pose.carried time (Entries.get? key []) = id := rfl
    rw [moveMarkers, List.foldl_nil, hstill, Option.map_id_fun, id]
  | cons moving order ih =>
    obtain ⟨hfirst, hmore⟩ := List.nodup_cons.1 hnodup
    rw [moveMarkers, List.foldl_cons, ← moveMarkers, ih hmore, moveMarker, Dict.get?_modify]
    by_cases hkey : moving.1 = key
    · subst hkey
      rw [if_pos rfl, Entries.get?_eq_none_of_not_mem hfirst, Entries.get?, if_pos rfl,
        Option.map_map]
      rfl
    · rw [if_neg hkey, Entries.get?, if_neg hkey]

/-- Where a robot is that was ordered its step towards a target and then moved for some time. -/
def Pose.approached (target : Pose α) (time : α) (current : Pose α) : Pose α :=
  current.moved (gotoStep current target).velocity time

/-- A round of one robot on its way to a target: it is ordered its step from where its marker is, in
place of the velocity that it had, and then time passes for all markers. -/
def steer (velocities : Dict (Velocity α)) (key : String) (target : Pose α) (time : α)
    (markers : Dict (Pose α)) : Dict (Pose α) :=
  match markers.get? key with
  | none => moveMarkers time velocities.entries markers
  | some current =>
    moveMarkers time (velocities.insert key (gotoStep current target).velocity).entries markers

/-- A robot on a pitch that is ordered its step towards a target is steered when time passes. -/
theorem Pitch.markers_advance_setVelocity {pitch : Pitch} {name : RobotName}
    {current : Pose Float} (h : pitch.robotPose? name = some current) (target : Pose Float)
    (time : Float) :
    ((pitch.setVelocity name (gotoStep current target).velocity).advance time).packet.markers =
      steer pitch.velocities name.text target time pitch.packet.markers := by
  rw [robotPose?] at h
  rw [steer, h]
  rfl

/-- In a round the robot gets closer to its target, whatever the other robots do. -/
theorem get?_steer {velocities : Dict (Velocity α)} {key : String} {target current : Pose α} {time : α}
    {markers : Dict (Pose α)} (h : markers.get? key = some current) :
    (steer velocities key target time markers).get? key = some (target.approached time current) := by
  have hordered : Entries.get? key
      (velocities.insert key (gotoStep current target).velocity).entries =
        some (gotoStep current target).velocity :=
    (velocities.get?_insert key key _).trans (if_pos rfl)
  rw [steer, h]
  dsimp only
  rw [get?_moveMarkers time (Dict.nodup_keys _), hordered, h]
  rfl

/-- In some rounds the robot gets closer to its target as often. -/
theorem get?_iterate_steer {velocities : Dict (Velocity α)} {key : String} {target current : Pose α}
    {time : α} {markers : Dict (Pose α)} (h : markers.get? key = some current) (rounds : Nat) :
    ((steer velocities key target time)^[rounds] markers).get? key =
      some ((target.approached time)^[rounds] current) := by
  induction rounds generalizing markers current with
  | zero => exact h
  | succ rounds ih => exact ih (get?_steer h)

end RobotSoccer
