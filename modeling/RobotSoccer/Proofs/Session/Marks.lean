import Mathlib.Data.List.Induction
import RobotSoccer.Proofs.Drawing.Slots
import RobotSoccer.Proofs.World.LastWriter
import RobotSoccer.Session.Scene

/-!
# What a control loop should show

From what a loop saw and brought about it can be told what it should show: the ball where it was last
known when a step began, each robot as it was looked at last, and the target of the latest order for it
that was carried out.
-/

namespace RobotSoccer

/-- The ball where it was known when a step began. -/
def Mark.ball? : Mark → Option (Point Float)
  | .began ball => ball
  | .looked _ _ | .reached _ => none

/-- What was seen of a robot that was looked at. -/
def Mark.sight? (robot : RobotName) : Mark → Option (Option Sight)
  | .looked name sight => if name = robot then some sight else none
  | .began _ | .reached _ => none

/-- The target to which a robot was sent. -/
def Mark.target? (robot : RobotName) : Mark → Option (Pose Float)
  | .reached order => if order.robot = robot then some order.target else none
  | .began _ | .looked _ _ => none

/-- What a loop made of the step under way, or of the last one. -/
def Mark.sinceBegan (marks : List Mark) : List Mark :=
  marks.foldl (fun since mark => match mark with
    | .began _ => []
    | .looked _ _ | .reached _ => since ++ [mark]) []

/-- A robot as it is drawn when it is seen. -/
def Sight.drawable (name : RobotName) (sight : Sight) : Drawable :=
  .robot name.text name.team sight.pose sight.preempted

/-- What a loop should show. -/
def Mark.shown (marks : List Mark) : Slot → Option Drawable
  | .ball => (latest Mark.ball? marks).map .ball
  | .robot name => (latest (Mark.sight? name) marks).bind fun sight => sight.map (Sight.drawable name)
  | .target name => (latest (Mark.target? name) marks).map (.target name.text)

namespace Mark

variable {marks : List Mark}

/-- A step that begins without a ball changes nothing of what should be shown. -/
theorem shown_began_none : shown (marks ++ [.began none]) = shown marks := by
  funext slot
  cases slot with
  | ball => rw [shown, latest_concat]; rfl
  | robot name => rw [shown, latest_concat]; rfl
  | target name => rw [shown, latest_concat]; rfl

/-- A step that begins with a ball shows it. -/
theorem shown_began_some (position : Point Float) :
    shown (marks ++ [.began (some position)]) =
      Function.update (shown marks) .ball (some (.ball position)) := by
  funext slot
  cases slot with
  | ball => rw [shown, latest_concat]; rfl
  | robot name => rw [shown, latest_concat]; rfl
  | target name => rw [shown, latest_concat]; rfl

/-- A robot that is looked at is shown as it is seen. -/
theorem shown_looked (name : RobotName) (sight : Option Sight) :
    shown (marks ++ [.looked name sight]) =
      Function.update (shown marks) (.robot name) (sight.map (Sight.drawable name)) := by
  funext slot
  cases slot with
  | ball => rw [shown, latest_concat]; rfl
  | robot other =>
    rw [shown, latest_concat, sight?]
    by_cases hname : name = other
    · subst hname
      rw [if_pos rfl, Function.update_self]
      rfl
    · rw [if_neg hname, Function.update_of_ne fun hslot => hname (Slot.robot.inj hslot).symm]
      rfl
  | target name => rw [shown, latest_concat]; rfl

/-- The target of an order that was carried out is shown. -/
theorem shown_reached (order : GotoOrder) :
    shown (marks ++ [.reached order]) =
      Function.update (shown marks) (.target order.robot)
        (some (.target order.robot.text order.target)) := by
  funext slot
  cases slot with
  | ball => rw [shown, latest_concat]; rfl
  | robot name => rw [shown, latest_concat]; rfl
  | target other =>
    rw [shown, latest_concat, target?]
    by_cases hname : order.robot = other
    · subst hname
      rw [if_pos rfl, Function.update_self]
      rfl
    · rw [if_neg hname, Function.update_of_ne fun hslot => hname (Slot.target.inj hslot).symm]
      rfl

/-- A step that begins has made nothing yet; what comes next is put behind what it made so far. -/
theorem sinceBegan_concat (marks : List Mark) (mark : Mark) :
    sinceBegan (marks ++ [mark]) = match mark with
      | .began _ => []
      | .looked _ _ | .reached _ => sinceBegan marks ++ [mark] := by
  rw [sinceBegan, List.foldl_concat]
  rfl

/-- What a loop made of the last step is an end of all that it made. -/
theorem sinceBegan_suffix (marks : List Mark) : sinceBegan marks <:+ marks := by
  induction marks using List.reverseRecOn with
  | nil => exact List.nil_suffix
  | append_singleton marks mark ih =>
    obtain ⟨before, hbefore⟩ := ih
    have hmore : sinceBegan marks ++ [mark] <:+ marks ++ [mark] :=
      ⟨before, by rw [← List.append_assoc, hbefore]⟩
    rw [sinceBegan_concat]
    cases mark with
    | began ball => exact List.nil_suffix
    | looked name sight => exact hmore
    | reached order => exact hmore

/-- What was said in the last step is what was said last. -/
theorem latest_sinceBegan {α : Type} {said : Mark → Option α} {value : α}
    (h : latest said (sinceBegan marks) = some value) : latest said marks = some value := by
  obtain ⟨before, hbefore⟩ := sinceBegan_suffix marks
  have hlast : (before ++ sinceBegan marks).filterMap said =
      before.filterMap said ++ (sinceBegan marks).filterMap said := List.filterMap_append
  unfold latest at h
  rw [← hbefore, latest, hlast, List.getLast?_append, h]
  rfl

end Mark

end RobotSoccer
