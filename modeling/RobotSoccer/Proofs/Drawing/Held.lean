import Mathlib.Data.List.Nodup
import Mathlib.Data.List.Perm.Basic
import Mathlib.Logic.Function.Basic
import RobotSoccer.Drawing.Gallery

/-!
# Slots and their guards

Whoever draws has slots, each with a guard or without one, and a slot with a guard should show some
shape. The invariant of a pool says that it holds these shapes under these guards and nothing else.
Starting, updating and dropping change one slot each, whatever numbers are drawn.
-/

namespace RobotSoccer.Pool

variable {ι : Type} {pool : Pool} {guard : ι → Option GuardId} {shape : ι → Option Drawable}

/-- A pool holds the shapes of slots under their guards, and nothing else. -/
structure Held (pool : Pool) (guard : ι → Option GuardId) (shape : ι → Option Drawable) : Prop where
  /-- A slot has a guard exactly when it should show a shape, and its guard holds that shape. -/
  agree : ∀ slot, (guard slot).map pool.get? = (shape slot).map some
  /-- No two slots have the same guard. -/
  apart : ∀ slot other id, guard slot = some id → guard other = some id → slot = other
  /-- Whatever is held is held for a slot. -/
  owned : ∀ id held, pool.get? id = some held → ∃ slot, guard slot = some id

/-- A slot shows something exactly when it has a guard. -/
theorem Held.isSome_eq (h : Held pool guard shape) (slot : ι) :
    (guard slot).isSome = (shape slot).isSome := by
  have hagree := congrArg Option.isSome (h.agree slot)
  rwa [Option.isSome_map, Option.isSome_map] at hagree

/-- A slot shows nothing exactly when it has no guard. -/
theorem Held.eq_none_iff (h : Held pool guard shape) (slot : ι) :
    shape slot = none ↔ guard slot = none := by
  rw [← Option.not_isSome_iff_eq_none, ← Option.not_isSome_iff_eq_none, h.isSome_eq]

/-- A slot with a guard shows what the guard holds. -/
theorem Held.get?_eq (h : Held pool guard shape) {slot : ι} {id : GuardId} (hid : guard slot = some id) :
    pool.get? id = shape slot := by
  have hagree := h.agree slot
  rw [hid] at hagree
  cases hshape : shape slot with
  | none => rw [hshape] at hagree; cases hagree
  | some held => rw [hshape] at hagree; exact Option.some.inj hagree

/-- Slots with the same guards and the same shapes make no difference. -/
theorem Held.of_eq (h : Held pool guard shape) {later : ι → Option GuardId}
    {wanted : ι → Option Drawable} (hguard : ∀ slot, later slot = guard slot)
    (hshape : ∀ slot, wanted slot = shape slot) : Held pool later wanted := by
  obtain rfl : later = guard := funext hguard
  obtain rfl : wanted = shape := funext hshape
  exact h

/-- Nothing is held for slots without guards. -/
theorem held_drawing (draws : List GuardId) :
    Held (drawing draws) (fun _ : ι => none) (fun _ => none) where
  agree _ := rfl
  apart _ _ _ hid := nomatch hid
  owned _ _ hheld := nomatch hheld

section Slots

variable [DecidableEq ι] {slot : ι} {id : GuardId}

/-- A slot whose guard is given a shape shows that shape. -/
theorem Held.update (h : Held pool guard shape) (hid : guard slot = some id) (new : Drawable) :
    Held (pool.update id new) guard (Function.update shape slot (some new)) where
  agree other := by
    by_cases hslot : other = slot
    · subst hslot
      rw [hid, Function.update_self, Option.map_some, Option.map_some, get?_update, if_pos rfl]
    · rw [Function.update_of_ne hslot, ← h.agree other]
      refine Option.map_congr fun held hheld => ?_
      have hne : id ≠ held := fun heq => hslot (h.apart other slot held hheld (heq ▸ hid))
      rw [get?_update, if_neg hne]
  apart := h.apart
  owned other held hheld := by
    rw [get?_update] at hheld
    by_cases hother : id = other
    · exact ⟨slot, hother ▸ hid⟩
    · rw [if_neg hother] at hheld
      exact h.owned other held hheld

/-- A slot for which a new guard starts shows the shape that it starts with. -/
theorem Held.start (h : Held pool guard shape) (hfree : guard slot = none) (new : Drawable) :
    Held (pool.start new).2 (Function.update guard slot (some (pool.start new).1))
      (Function.update shape slot (some new)) := by
  let id := (pool.start new).1
  have hview (other : GuardId) :
      (pool.start new).2.get? other = if id = other then some new else pool.get? other :=
    pool.get?_update id other new
  have hnew : pool.get? id = none := by
    have hcontains := pool.contains_drawFree pool.draws
    rwa [contains_eq, Option.isSome_eq_false_iff, Option.isNone_iff_eq_none] at hcontains
  have hother {other : ι} {held : GuardId} (hheld : guard other = some held) : id ≠ held := by
    rintro rfl
    have hagree := h.isSome_eq other
    rw [hheld, ← h.get?_eq hheld, hnew] at hagree
    cases hagree
  refine ⟨fun other => ?_, fun left right held hleft hright => ?_, fun other held hheld => ?_⟩
  · by_cases hslot : other = slot
    · subst hslot
      rw [Function.update_self, Function.update_self, Option.map_some, Option.map_some, hview, if_pos rfl]
    · rw [Function.update_of_ne hslot, Function.update_of_ne hslot, ← h.agree other]
      refine Option.map_congr fun held hheld => ?_
      rw [hview, if_neg (hother hheld)]
  · by_cases hl : left = slot
    · by_cases hr : right = slot
      · exact hl.trans hr.symm
      · rw [Function.update_of_ne hr] at hright
        rw [hl, Function.update_self] at hleft
        exact absurd (Option.some.inj hleft) (hother hright)
    · rw [Function.update_of_ne hl] at hleft
      by_cases hr : right = slot
      · rw [hr, Function.update_self] at hright
        exact absurd (Option.some.inj hright) (hother hleft)
      · rw [Function.update_of_ne hr] at hright
        exact h.apart left right held hleft hright
  · rw [hview] at hheld
    by_cases hid : id = other
    · exact ⟨slot, by rw [Function.update_self, ← hid]⟩
    · rw [if_neg hid] at hheld
      obtain ⟨holder, hholder⟩ := h.owned other held hheld
      have hne : holder ≠ slot := by
        rintro rfl
        rw [hfree] at hholder
        cases hholder
      exact ⟨holder, by rw [Function.update_of_ne hne, hholder]⟩

/-- A slot whose guard is dropped shows nothing. -/
theorem Held.drop (h : Held pool guard shape) (hid : guard slot = some id) :
    Held (pool.drop id) (Function.update guard slot none) (Function.update shape slot none) where
  agree other := by
    by_cases hslot : other = slot
    · rw [hslot, Function.update_self, Function.update_self]
      rfl
    · rw [Function.update_of_ne hslot, Function.update_of_ne hslot, ← h.agree other]
      refine Option.map_congr fun held hheld => ?_
      have hne : id ≠ held := fun heq => hslot (h.apart other slot held hheld (heq ▸ hid))
      rw [get?_drop, if_neg hne]
  apart left right held hleft hright := by
    have hkept {other : ι} (hother : Function.update guard slot none other = some held) :
        guard other = some held := by
      by_cases hslot : other = slot
      · rw [hslot, Function.update_self] at hother
        cases hother
      · rwa [Function.update_of_ne hslot] at hother
    exact h.apart left right held (hkept hleft) (hkept hright)
  owned other held hheld := by
    rw [get?_drop] at hheld
    by_cases hother : id = other
    · rw [if_pos hother] at hheld
      cases hheld
    · rw [if_neg hother] at hheld
      obtain ⟨holder, hholder⟩ := h.owned other held hheld
      have hne : holder ≠ slot := by
        rintro rfl
        exact hother (Option.some.inj (hid.symm.trans hholder))
      exact ⟨holder, by rw [Function.update_of_ne hne, hholder]⟩

end Slots

section Contents

variable {slots : List ι}

/-- Whatever order the slots are listed in, a pool holds the shape of each slot under its guard once
and nothing else. -/
theorem Held.perm_drawings (h : Held pool guard shape) (hnodup : slots.Nodup)
    (hlisted : ∀ slot id, guard slot = some id → slot ∈ slots) :
    pool.drawings.Perm
      (slots.filterMap fun slot => (guard slot).bind fun id => (shape slot).map (Prod.mk id)) := by
  have hmem (id : GuardId) (held : Drawable) (slot : ι) :
      ((guard slot).bind fun id => (shape slot).map (Prod.mk id)) = some (id, held) ↔
        guard slot = some id ∧ shape slot = some held := by
    simp [Option.bind_eq_some_iff]
  refine (List.perm_ext_iff_of_nodup pool.nodup.of_map ?_).2 fun ⟨id, held⟩ => ?_
  · refine hnodup.filterMap fun slot other ⟨id, held⟩ hslot hother => ?_
    exact h.apart slot other id ((hmem id held slot).1 hslot).1 ((hmem id held other).1 hother).1
  · simp only [mem_drawings, List.mem_filterMap, hmem]
    constructor
    · intro hheld
      obtain ⟨slot, hslot⟩ := h.owned id held hheld
      exact ⟨slot, hlisted slot id hslot, hslot, (h.get?_eq hslot).symm.trans hheld⟩
    · rintro ⟨slot, -, hslot, hshape⟩
      exact (h.get?_eq hslot).trans hshape

/-- The guards that hold something are those of the slots. -/
theorem Held.perm_guards (h : Held pool guard shape) (hnodup : slots.Nodup)
    (hlisted : ∀ slot id, guard slot = some id → slot ∈ slots) :
    (pool.drawings.map Prod.fst).Perm (slots.filterMap guard) := by
  refine ((h.perm_drawings hnodup hlisted).map Prod.fst).trans (.of_eq ?_)
  rw [List.map_filterMap]
  refine List.filterMap_congr fun slot _ => ?_
  have hagree := h.isSome_eq slot
  cases hguard : guard slot with
  | none => rfl
  | some id =>
    rw [hguard] at hagree
    obtain ⟨held, hheld⟩ := Option.isSome_iff_exists.1 hagree.symm
    rw [hheld]
    rfl

/-- The shapes in a frame are those of the slots. -/
theorem Held.perm_shapes (h : Held pool guard shape) (hnodup : slots.Nodup)
    (hlisted : ∀ slot id, guard slot = some id → slot ∈ slots) :
    pool.shapes.Perm (slots.filterMap shape) := by
  refine ((h.perm_drawings hnodup hlisted).map Prod.snd).trans (.of_eq ?_)
  rw [List.map_filterMap]
  refine List.filterMap_congr fun slot _ => ?_
  have hagree := h.isSome_eq slot
  cases hshape : shape slot with
  | none =>
    rw [hshape, Option.isSome_none, Option.isSome_eq_false_iff, Option.isNone_iff_eq_none] at hagree
    rw [hagree]
    rfl
  | some held =>
    rw [hshape] at hagree
    obtain ⟨id, hid⟩ := Option.isSome_iff_exists.1 hagree
    rw [hid]
    rfl

end Contents

end RobotSoccer.Pool
