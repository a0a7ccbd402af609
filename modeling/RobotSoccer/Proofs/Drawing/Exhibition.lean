import Mathlib.Data.Sum.Basic
import RobotSoccer.Proofs.Drawing.Held

/-!
# What is on show

Whatever is done with guards, in whatever order and whatever numbers are drawn for them, the pool
shows for each guard that lives the latest shape that it was given, once, and nothing else. So the
numbers drawn make no difference to what viewers see. The pool may be shared with somebody else who has
slots of his own: what is done with guards leaves these alone.
-/

namespace RobotSoccer.Gallery

variable {κ : Type} {gallery : Gallery} {shown : List (Option Drawable)} {guard : κ → Option GuardId}
  {shape : κ → Option Drawable}

/-- The guards that came hold what they should show. Nothing else is held but for the slots of somebody
else. -/
structure Shows (gallery : Gallery) (shown : List (Option Drawable)) (guard : κ → Option GuardId)
    (shape : κ → Option Drawable) : Prop where
  /-- One entry for each guard that came. -/
  length_eq : gallery.guards.length = shown.length
  /-- The pool holds what the guards that live should show. -/
  held : gallery.pool.Held (Sum.elim guard gallery.guard?) (Sum.elim shape fun place => shown[place]?.join)

/-- What stands at a place of a list after something else was put at some place of it. -/
theorem join_set {α : Type} (list : List (Option α)) {slot : Nat} (hslot : slot < list.length)
    (value : Option α) :
    (fun place => (list.set slot value)[place]?.join) =
      Function.update (fun place => list[place]?.join) slot value := by
  funext place
  by_cases hplace : place = slot
  · rw [hplace, List.getElem?_set_self hslot, Function.update_self]
    rfl
  · rw [List.getElem?_set_ne (Ne.symm hplace), Function.update_of_ne hplace]

/-- What stands at a place of a list after something was put behind it. -/
theorem join_concat {α : Type} (list : List (Option α)) (value : α) :
    (fun place => (list ++ [some value])[place]?.join) =
      Function.update (fun place => list[place]?.join) list.length (some value) := by
  funext place
  by_cases hplace : place = list.length
  · rw [hplace, List.getElem?_concat_length, Function.update_self]
    rfl
  · rw [Function.update_of_ne hplace]
    rcases Nat.lt_or_gt_of_ne hplace with hlt | hgt
    · rw [List.getElem?_append_left hlt]
    · have hpast : (list ++ [some value]).length ≤ place := by
        rw [List.length_append, List.length_singleton]
        exact hgt
      rw [List.getElem?_eq_none hpast, List.getElem?_eq_none (Nat.le_of_lt hgt)]

/-- Nothing stands behind the end of a list. -/
theorem lt_of_join {α : Type} {list : List (Option α)} {place : Nat} {value : α}
    (h : list[place]?.join = some value) : place < list.length := by
  by_contra hpast
  rw [List.getElem?_eq_none (Nat.not_lt.1 hpast)] at h
  cases h

/-- Whatever is done, the guards hold what they should show afterwards. -/
theorem Shows.perform [DecidableEq κ] (h : Shows gallery shown guard shape) (deed : Deed) :
    Shows (gallery.perform deed) (deed.exhibit shown) guard shape := by
  cases deed with
  | start new =>
    have hfree : Sum.elim guard gallery.guard? (.inr gallery.guards.length) = none := by
      rw [Sum.elim_inr, guard?, List.getElem?_eq_none (Nat.le_refl _)]
      rfl
    have hguards : (gallery.perform (.start new)).guard? =
        Function.update gallery.guard? gallery.guards.length (some (gallery.pool.start new).1) :=
      join_concat _ _
    refine ⟨?_, ?_⟩
    · rw [Gallery.perform, Deed.exhibit, List.length_append, List.length_append, h.length_eq]
      rfl
    · rw [hguards, Deed.exhibit, join_concat, ← h.length_eq, ← Sum.update_elim_inr,
        ← Sum.update_elim_inr]
      exact h.held.start hfree new
  | update place new =>
    have hsome := h.held.isSome_eq (.inr place)
    rw [Sum.elim_inr, Sum.elim_inr] at hsome
    unfold Gallery.perform Deed.exhibit
    dsimp only
    cases hguard : gallery.guard? place with
    | none =>
      rw [hguard, Option.isSome_none, eq_comm, Option.isSome_eq_false_iff, Option.isNone_iff_eq_none] at hsome
      rw [hsome]
      exact h
    | some id =>
      have hseat : Sum.elim guard gallery.guard? (.inr place) = some id := hguard
      rw [hguard] at hsome
      obtain ⟨held, hheld⟩ := Option.isSome_iff_exists.1 hsome.symm
      rw [hheld]
      refine ⟨h.length_eq.trans List.length_set.symm, ?_⟩
      dsimp only
      rw [join_set shown (lt_of_join hheld), ← Sum.update_elim_inr]
      exact h.held.update hseat new
  | drop place =>
    unfold Gallery.perform Deed.exhibit
    dsimp only
    cases hguard : gallery.guard? place with
    | none =>
      have hnone : shown[place]?.join = none := (h.held.eq_none_iff (.inr place)).2 hguard
      have hsame : (fun other : Nat => (shown.set place none)[other]?.join) =
          fun other : Nat => shown[other]?.join := by
        funext other
        by_cases hplace : place = other
        · subst hplace
          rw [List.getElem?_set_self', hnone]
          cases shown[place]? <;> rfl
        · rw [List.getElem?_set_ne hplace]
      exact ⟨h.length_eq.trans List.length_set.symm, hsame ▸ h.held⟩
    | some id =>
      have hseat : Sum.elim guard gallery.guard? (.inr place) = some id := hguard
      have hplace := lt_of_join hguard
      have hguards : guard? ⟨gallery.pool.drop id, gallery.guards.set place none⟩ =
          Function.update gallery.guard? place none := join_set _ hplace none
      refine ⟨?_, ?_⟩
      · rw [List.length_set, List.length_set, h.length_eq]
      · rw [hguards, join_set shown (h.length_eq ▸ hplace), ← Sum.update_elim_inr,
          ← Sum.update_elim_inr]
        exact h.held.drop hseat

/-- After any deeds the guards hold what they should show. -/
theorem Shows.after [DecidableEq κ] (h : Shows gallery shown guard shape) (deeds : List Deed) :
    Shows (gallery.after deeds) (deeds.foldl Deed.exhibit shown) guard shape := by
  induction deeds generalizing gallery shown with
  | nil => exact h
  | cons deed more ih => exact ih (h.perform deed)

/-- At the start there are no guards and nothing is held. -/
theorem shows_fresh (draws : List GuardId) :
    Shows (fresh draws) [] (fun _ : κ => none) (fun _ => none) := by
  refine ⟨rfl, (Pool.held_drawing draws).of_eq ?_ ?_⟩ <;> rintro (slot | place) <;> rfl

/-- What stands at the places of a list one after the other is what the list holds. -/
theorem filterMap_range_join {α : Type} (list : List (Option α)) :
    (List.range list.length).filterMap (fun place => list[place]?.join) = list.filterMap id := by
  have hlist : (List.range list.length).map (fun place => list[place]?.join) = list := by
    refine List.ext_getElem (by rw [List.length_map, List.length_range]) fun place hplace hlist => ?_
    rw [List.getElem_map, List.getElem_range, List.getElem?_eq_getElem hlist]
    rfl
  conv_rhs => rw [← hlist]
  rw [List.filterMap_map]
  rfl

section Contents

variable {slots : List κ}

/-- The slots of somebody else and the places of all guards that came. -/
def seats (gallery : Gallery) (slots : List κ) : List (κ ⊕ Nat) :=
  slots.map .inl ++ (List.range gallery.guards.length).map .inr

/-- No seat is listed twice. -/
theorem nodup_seats (gallery : Gallery) (hnodup : slots.Nodup) : (gallery.seats slots).Nodup := by
  refine List.nodup_append.2 ⟨hnodup.map Sum.inl_injective, List.nodup_range.map Sum.inr_injective, ?_⟩
  intro slot hslot place hplace
  obtain ⟨_, -, rfl⟩ := List.mem_map.1 hslot
  obtain ⟨_, -, rfl⟩ := List.mem_map.1 hplace
  exact Sum.inl_ne_inr

/-- Whoever has a guard has a seat. -/
theorem mem_seats (gallery : Gallery) (hlisted : ∀ slot id, guard slot = some id → slot ∈ slots)
    (seat : κ ⊕ Nat) (id : GuardId) (hid : Sum.elim guard gallery.guard? seat = some id) :
    seat ∈ gallery.seats slots := by
  cases seat with
  | inl slot => exact List.mem_append_left _ (List.mem_map_of_mem (hlisted slot id hid))
  | inr place =>
    exact List.mem_append_right _ (List.mem_map_of_mem (List.mem_range.2 (lt_of_join hid)))

/-- What all seats have is what the slots and the places have. -/
theorem filterMap_seats {α : Type} (gallery : Gallery) (left : κ → Option α) (right : Nat → Option α) :
    (gallery.seats slots).filterMap (Sum.elim left right) =
      slots.filterMap left ++ (List.range gallery.guards.length).filterMap right := by
  rw [seats, List.filterMap_append, List.filterMap_map, List.filterMap_map]
  rfl

/-- The guards of the slots and those that live hold all that is in the pool. -/
theorem Shows.perm_guards (h : Shows gallery shown guard shape) (hnodup : slots.Nodup)
    (hlisted : ∀ slot id, guard slot = some id → slot ∈ slots) :
    (gallery.pool.drawings.map Prod.fst).Perm (slots.filterMap guard ++ gallery.alive) := by
  rw [alive, ← filterMap_range_join]
  exact (h.held.perm_guards (nodup_seats gallery hnodup) (mem_seats gallery hlisted)).trans
    (.of_eq (filterMap_seats gallery guard _))

/-- What the slots and the guards that live should show is all that is in a frame. -/
theorem Shows.perm_shapes (h : Shows gallery shown guard shape) (hnodup : slots.Nodup)
    (hlisted : ∀ slot id, guard slot = some id → slot ∈ slots) :
    gallery.pool.shapes.Perm (slots.filterMap shape ++ shown.filterMap id) := by
  rw [← filterMap_range_join, ← h.length_eq]
  exact (h.held.perm_shapes (nodup_seats gallery hnodup) (mem_seats gallery hlisted)).trans
    (.of_eq (filterMap_seats gallery shape _))

end Contents

/-- After any deeds with any guards, whatever numbers were drawn for them: the guards that live have
different numbers, which are the keys of the pool; a guard lives exactly when it should show
something, and holds the latest shape that it was given; a frame has these shapes, each once, and
nothing else; their count is that of the guards that live; and other draws make no difference to
the shapes in a frame. -/
theorem exhibition_law (draws : List GuardId) (deeds : List Deed) :
    let gallery := (fresh draws).after deeds
    let shown := Deed.exhibited deeds
    gallery.alive.Nodup ∧
    (gallery.pool.drawings.map Prod.fst).Perm gallery.alive ∧
    (∀ place, (gallery.guard? place).map gallery.pool.get? = shown[place]?.join.map some) ∧
    gallery.pool.shapes.Perm (shown.filterMap id) ∧
    (∃ objects, gallery.pool.frame = .obj [("objects", .arr objects)] ∧
      objects.Perm ((shown.filterMap id).map Drawable.toJson)) ∧
    gallery.pool.count = gallery.alive.length ∧
    ∀ others, ((fresh others).after deeds).pool.shapes.Perm gallery.pool.shapes := by
  intro gallery shown
  -- nobody else has slots
  have hshows (others : List GuardId) :
      Shows ((fresh others).after deeds) shown (fun _ : Empty => none) (fun _ => none) :=
    (shows_fresh others).after deeds
  have hshapes (others : List GuardId) :
      ((fresh others).after deeds).pool.shapes.Perm (shown.filterMap id) :=
    (hshows others).perm_shapes List.nodup_nil nofun
  have halive : (gallery.pool.drawings.map Prod.fst).Perm gallery.alive :=
    (hshows draws).perm_guards List.nodup_nil nofun
  refine ⟨halive.nodup_iff.1 gallery.pool.nodup, halive, fun place => (hshows draws).held.agree (.inr place),
    hshapes draws, ⟨_, rfl, (hshapes draws).map _⟩, ?_, fun others => ?_⟩
  · rw [Pool.count, ← halive.length_eq, List.length_map]
  · exact (hshapes others).trans (hshapes draws).symm

end RobotSoccer.Gallery
