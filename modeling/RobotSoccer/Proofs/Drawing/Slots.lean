import RobotSoccer.Proofs.Drawing.Exhibition
import RobotSoccer.Session.Pilot

/-!
# The slots of a control loop

A control loop has a slot for the ball, one for each robot and one for the target of each robot. What it
draws it draws in one of them, under the guard that is there already or under a new one. The others who
draw on the same pool notice nothing, and nothing is left of the loop when its guards are dropped.
-/

namespace RobotSoccer

/-- What a control loop may draw. -/
inductive Slot where
  /-- The ball. -/
  | ball
  /-- A robot. -/
  | robot (name : RobotName)
  /-- The target of a robot. -/
  | target (name : RobotName)
  deriving DecidableEq

/-- The slots of the robots that play and of the ball. -/
def Slot.all : List Slot := .ball :: (RobotName.all.map .robot ++ RobotName.all.map .target)

/-- A slot is one of the ball or one of a robot. -/
theorem Slot.nodup_all : Slot.all.Nodup := by decide

namespace Drawings

variable {κ : Type} {pool : Pool} {drawings : Drawings} {guard : κ → Option GuardId}
  {shape : Slot → Option Drawable} {shown : κ → Option Drawable}

/-- The guard in a slot. -/
def guard? (drawings : Drawings) : Slot → Option GuardId
  | .ball => drawings.ball
  | .robot name => (drawings.robots.get? name).getD none
  | .target name => (drawings.targets.get? name).getD none

/-- There is no guard in a slot before anything is drawn. -/
theorem guard?_blank (slot : Slot) : blank.guard? slot = none := by
  have hnone (name : RobotName) : ((Roster.fill (none : Option GuardId)).get? name).getD none = none := by
    unfold Roster.get?
    repeat' split
    all_goals rfl
  cases slot with
  | ball => rfl
  | robot name => exact hnone name
  | target name => exact hnone name

/-- A guard that is put where a robot has one is there, and the others are where they were. -/
theorem getD_set {roster : Roster (Option GuardId)} {name : RobotName} (hplays : name ∈ RobotName.all)
    (id : GuardId) (other : RobotName) :
    ((roster.set name (some id)).get? other).getD none =
      if other = name then some id else (roster.get? other).getD none := by
  obtain ⟨held, hheld⟩ := Option.isSome_iff_exists.1 ((roster.isSome_get? name).2 hplays)
  rw [Roster.get?_set, hheld]
  by_cases hname : name = other
  · rw [if_pos hname, if_pos hname.symm]
    rfl
  · rw [if_neg hname, if_neg (Ne.symm hname)]

/-- Drawing the ball is drawing in its slot. -/
theorem guard?_drawBall (drawings : Drawings) (pool : Pool) (new : Drawable) :
    (drawings.drawBall pool new).1.guard? =
      Function.update drawings.guard? .ball (some (draw pool new (drawings.guard? .ball)).1) := by
  funext slot
  cases slot with
  | ball => rfl
  | robot name => rfl
  | target name => rfl

/-- Drawing a robot that plays is drawing in its slot. -/
theorem guard?_drawRobot (drawings : Drawings) (pool : Pool) {name : RobotName}
    (hplays : name ∈ RobotName.all) (new : Drawable) :
    (drawings.drawRobot pool name new).1.guard? =
      Function.update drawings.guard? (.robot name)
        (some (draw pool new (drawings.guard? (.robot name))).1) := by
  funext slot
  cases slot with
  | ball => rfl
  | robot other =>
    rw [guard?, drawRobot, getD_set hplays, Function.update_apply]
    simp only [Slot.robot.injEq]
    rfl
  | target other => rfl

/-- Drawing the target of a robot that plays is drawing in its slot. -/
theorem guard?_drawTarget (drawings : Drawings) (pool : Pool) {name : RobotName}
    (hplays : name ∈ RobotName.all) (new : Drawable) :
    (drawings.drawTarget pool name new).1.guard? =
      Function.update drawings.guard? (.target name)
        (some (draw pool new (drawings.guard? (.target name))).1) := by
  funext slot
  cases slot with
  | ball => rfl
  | robot other => rfl
  | target other =>
    rw [guard?, drawTarget, getD_set hplays, Function.update_apply]
    simp only [Slot.target.injEq]
    rfl

/-- A slot in which something is drawn shows that, and only that slot changes. -/
theorem held_draw [DecidableEq κ] {own : Slot → Option GuardId}
    (h : pool.Held (Sum.elim own guard) (Sum.elim shape shown)) (slot : Slot) (new : Drawable) :
    (draw pool new (own slot)).2.Held
      (Sum.elim (Function.update own slot (some (draw pool new (own slot)).1)) guard)
      (Sum.elim (Function.update shape slot (some new)) shown) := by
  rw [← Sum.update_elim_inl, ← Sum.update_elim_inl]
  cases hslot : own slot with
  | none =>
    have hfree : Sum.elim own guard (.inl slot) = none := hslot
    exact h.start hfree new
  | some id =>
    have hid : Sum.elim own guard (.inl slot) = some id := hslot
    have hsame : Function.update (Sum.elim own guard) (.inl slot) (some id) = Sum.elim own guard := by
      rw [← hid, Function.update_eq_self]
    dsimp only [draw]
    rw [hsame]
    exact h.update hid new

/-- What a loop draws in a slot leaves the guards of the others alone. -/
theorem shows_draw {gallery : Gallery} {others : List (Option Drawable)} {later : Drawings}
    (h : gallery.Shows others drawings.guard? shape) (slot : Slot) (new : Drawable)
    (hlater : later.guard? = Function.update drawings.guard? slot
      (some (draw gallery.pool new (drawings.guard? slot)).1)) :
    Gallery.Shows ⟨(draw gallery.pool new (drawings.guard? slot)).2, gallery.guards⟩ others later.guard?
      (Function.update shape slot (some new)) :=
  ⟨h.length_eq, hlater ▸ held_draw h.held slot new⟩

/-- The guards of a loop are those in its slots. -/
theorem mem_guards {drawings : Drawings} {id : GuardId} :
    id ∈ drawings.guards ↔ ∃ slot, drawings.guard? slot = some id := by
  have hroster (roster : Roster (Option GuardId)) :
      id ∈ roster.toList.filterMap (·.2) ↔ ∃ name, (roster.get? name).getD none = some id := by
    rw [List.mem_filterMap]
    constructor
    · rintro ⟨⟨name, held⟩, hmem, rfl⟩
      exact ⟨name, by rw [Roster.mem_toList.1 hmem]; rfl⟩
    · rintro ⟨name, hid⟩
      cases hheld : roster.get? name with
      | none => rw [hheld] at hid; cases hid
      | some held =>
        rw [hheld] at hid
        exact ⟨(name, held), Roster.mem_toList.2 hheld, hid⟩
  rw [guards, List.mem_append, List.mem_append, Option.mem_toList, hroster, hroster]
  constructor
  · rintro ((hball | ⟨name, hname⟩) | ⟨name, hname⟩)
    · exact ⟨.ball, hball⟩
    · exact ⟨.robot name, hname⟩
    · exact ⟨.target name, hname⟩
  · rintro ⟨slot, hslot⟩
    cases slot with
    | ball => exact .inl (.inl hslot)
    | robot name => exact .inl (.inr ⟨name, hslot⟩)
    | target name => exact .inr ⟨name, hslot⟩

/-- A robot that does not play has no slot with a guard. -/
theorem mem_all_of_guard? {slot : Slot} {id : GuardId} (h : drawings.guard? slot = some id) :
    slot ∈ Slot.all := by
  have hplays {roster : Roster (Option GuardId)} {name : RobotName}
      (hid : (roster.get? name).getD none = some id) : name ∈ RobotName.all := by
    refine (roster.isSome_get? name).1 ?_
    cases hheld : roster.get? name with
    | none => rw [hheld] at hid; cases hid
    | some held => rfl
  cases slot with
  | ball => exact List.mem_cons_self
  | robot name =>
    exact List.mem_cons_of_mem _ (List.mem_append_left _ (List.mem_map_of_mem (hplays h)))
  | target name =>
    exact List.mem_cons_of_mem _ (List.mem_append_right _ (List.mem_map_of_mem (hplays h)))

end Drawings

namespace Pool

/-- What dropped guards do to the view of the pool. -/
theorem get?_dropAll (pool : Pool) (ids : List GuardId) (id : GuardId) :
    (pool.dropAll ids).get? id = if id ∈ ids then none else pool.get? id := by
  induction ids generalizing pool with
  | nil => rfl
  | cons first more ih =>
    rw [dropAll, List.foldl_cons, ← dropAll, ih, get?_drop]
    by_cases hmore : id ∈ more
    · rw [if_pos hmore, if_pos (List.mem_cons_of_mem first hmore)]
    · rw [if_neg hmore]
      by_cases hfirst : first = id
      · rw [if_pos hfirst, if_pos (hfirst ▸ List.mem_cons_self)]
      · rw [if_neg hfirst, if_neg]
        exact fun hmem => (List.mem_cons.1 hmem).elim (Ne.symm hfirst) hmore

/-- When somebody drops all his guards the others are left with theirs. -/
theorem Held.dropAll {ι κ : Type} {pool : Pool} {own : ι → Option GuardId} {guard : κ → Option GuardId}
    {shape : ι → Option Drawable} {shown : κ → Option Drawable} {ids : List GuardId}
    (h : pool.Held (Sum.elim own guard) (Sum.elim shape shown))
    (hids : ∀ id, id ∈ ids ↔ ∃ slot, own slot = some id) :
    (pool.dropAll ids).Held (Sum.elim (fun _ : ι => none) guard) (Sum.elim (fun _ => none) shown) where
  agree
    | .inl _ => rfl
    | .inr place => by
      refine (Option.map_congr fun id hid => ?_).trans (h.agree (.inr place))
      rw [get?_dropAll, if_neg]
      intro hmem
      obtain ⟨slot, hslot⟩ := (hids id).1 hmem
      exact nomatch h.apart (.inl slot) (.inr place) id hslot hid
  apart
    | .inl _, _, _, hleft, _ => nomatch hleft
    | .inr _, .inl _, _, _, hright => nomatch hright
    | .inr left, .inr right, id, hleft, hright => h.apart (.inr left) (.inr right) id hleft hright
  owned id held hheld := by
    rw [get?_dropAll] at hheld
    by_cases hmem : id ∈ ids
    · rw [if_pos hmem] at hheld
      cases hheld
    · rw [if_neg hmem] at hheld
      obtain ⟨slot | place, hholder⟩ := h.owned id held hheld
      · exact absurd ((hids id).2 ⟨slot, hholder⟩) hmem
      · exact ⟨.inr place, hholder⟩

end Pool

end RobotSoccer
