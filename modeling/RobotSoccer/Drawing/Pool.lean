import RobotSoccer.Drawing.Object
import RobotSoccer.Link.Error

/-!
# The pool of drawings

Everything that is drawn at the moment. Each drawing is held by a guard, which is known by its
number; as long as the guard lives its shape is in every frame, and when it is dropped the
shape is gone. A new guard takes the first number drawn that no living guard has.
-/

namespace RobotSoccer

/-- The number of a guard. -/
abbrev GuardId := Nat

/-- What is drawn at the moment, by guards. -/
structure Pool where
  /-- The guards with their shapes, in the order in which they came. -/
  drawings : List (GuardId × Drawable)
  /-- No guard holds two shapes. -/
  nodup : (drawings.map Prod.fst).Nodup
  /-- The numbers that will be drawn at random for new guards, repeated ones included. Behind them
  come numbers that nobody has. -/
  draws : List GuardId

namespace Pool

/-- Nothing is drawn, and these numbers will be. -/
def drawing (draws : List GuardId) : Pool := ⟨[], List.nodup_nil, draws⟩

/-- Nothing is drawn. -/
def empty : Pool := drawing []

/-- The shape that a guard holds. -/
def get? (pool : Pool) (id : GuardId) : Option Drawable :=
  (pool.drawings.find? fun drawing => drawing.1 == id).map (·.2)

/-- Whether a guard is alive. -/
def contains (pool : Pool) (id : GuardId) : Bool :=
  pool.drawings.any fun drawing => drawing.1 == id

/-- Puts a shape under a guard, in the place of one that it holds. -/
def put (id : GuardId) (shape : Drawable) : List (GuardId × Drawable) → List (GuardId × Drawable)
  | [] => [(id, shape)]
  | (other, held) :: rest =>
    if other = id then (id, shape) :: rest else (other, held) :: put id shape rest

/-- Putting a shape under a guard adds no guard but that one. -/
theorem mem_put {id other : GuardId} {shape : Drawable} {drawings : List (GuardId × Drawable)}
    (h : other ∈ (put id shape drawings).map Prod.fst) :
    other = id ∨ other ∈ drawings.map Prod.fst := by
  induction drawings with
  | nil => exact .inl (List.mem_singleton.1 h)
  | cons head rest ih =>
    obtain ⟨first, held⟩ := head
    unfold put at h
    split at h
    · next heq => exact .inr (heq ▸ h)
    · rcases List.mem_cons.1 h with h | h
      · exact .inr (h ▸ List.mem_cons_self)
      · exact (ih h).imp_right (List.mem_cons_of_mem first)

/-- Putting a shape under a guard leaves each guard with one shape. -/
theorem nodup_put (id : GuardId) (shape : Drawable) {drawings : List (GuardId × Drawable)}
    (h : (drawings.map Prod.fst).Nodup) : ((put id shape drawings).map Prod.fst).Nodup := by
  induction drawings with
  | nil => exact List.nodup_cons.2 ⟨List.not_mem_nil, List.nodup_nil⟩
  | cons head rest ih =>
    obtain ⟨first, held⟩ := head
    obtain ⟨hfirst, hrest⟩ := List.nodup_cons.1 h
    unfold put
    split
    · next heq => exact heq ▸ h
    · next hne =>
      refine List.nodup_cons.2 ⟨fun hmem => ?_, ih hrest⟩
      exact (mem_put hmem).elim hne hfirst

/-- Gives a guard another shape. -/
def update (pool : Pool) (id : GuardId) (shape : Drawable) : Pool :=
  { pool with drawings := put id shape pool.drawings, nodup := nodup_put id shape pool.nodup }

/-- Drops a guard. -/
def drop (pool : Pool) (id : GuardId) : Pool :=
  { pool with
    drawings := pool.drawings.filter fun drawing => drawing.1 != id
    nodup := pool.nodup.sublist (List.filter_sublist.map Prod.fst) }

/-- Drops several guards. -/
def dropAll (pool : Pool) (ids : List GuardId) : Pool := ids.foldl drop pool

/-- A number above those of all living guards. -/
def nextId (pool : Pool) : GuardId :=
  pool.drawings.foldl (fun bound drawing => max bound (drawing.1 + 1)) 0

/-- Draws numbers until one comes that no living guard has. Also gives the numbers left. -/
def drawFree (pool : Pool) : List GuardId → GuardId × List GuardId
  | [] => (pool.nextId, [])
  | id :: more => if pool.contains id then pool.drawFree more else (id, more)

/-- Starts to draw a shape under a number that nobody has. -/
def start (pool : Pool) (shape : Drawable) : GuardId × Pool :=
  let drawn := pool.drawFree pool.draws
  (drawn.1, { pool.update drawn.1 shape with draws := drawn.2 })

/-- What a drawing does to the view of the pool. -/
theorem get?_update (pool : Pool) (id other : GuardId) (shape : Drawable) :
    (pool.update id shape).get? other = if id = other then some shape else pool.get? other := by
  unfold update get?
  dsimp only
  induction pool.drawings with
  | nil => by_cases h : id = other <;> simp [put, h]
  | cons head rest ih =>
    obtain ⟨held, current⟩ := head
    by_cases hid : held = id
    · subst hid
      by_cases h : held = other <;> simp [put, h]
    · by_cases hheld : held = other
      · have : id ≠ other := fun h => hid (hheld.trans h.symm)
        simp only [put, if_neg hid]
        simp [hheld, this]
      · simp [put, hid, hheld, ih]

/-- What a dropped guard does to the view of the pool. -/
theorem get?_drop (pool : Pool) (id other : GuardId) :
    (pool.drop id).get? other = if id = other then none else pool.get? other := by
  unfold drop get?
  dsimp only
  induction pool.drawings with
  | nil => simp
  | cons head rest ih =>
    obtain ⟨held, current⟩ := head
    by_cases hid : held = id
    · subst hid
      rw [List.filter_cons_of_neg (by simp)]
      rw [ih]
      by_cases h : held = other <;> simp [h]
    · rw [List.filter_cons_of_pos (by simpa using hid)]
      by_cases hheld : held = other
      · have : id ≠ other := fun h => hid (hheld.trans h.symm)
        simp [hheld, this]
      · rw [List.find?_cons_of_neg (by simpa using hheld), ih,
          List.find?_cons_of_neg (by simpa using hheld)]

/-- A guard is alive when it holds something. -/
theorem contains_eq (pool : Pool) (id : GuardId) : pool.contains id = (pool.get? id).isSome := by
  unfold contains get?
  rw [Option.isSome_map, List.isSome_find?]

/-- What the pool holds is what its view shows. -/
theorem mem_drawings {pool : Pool} {id : GuardId} {shape : Drawable} :
    (id, shape) ∈ pool.drawings ↔ pool.get? id = some shape := by
  have hnodup := pool.nodup
  unfold get?
  generalize pool.drawings = drawings at hnodup
  induction drawings with
  | nil => simp
  | cons head rest ih =>
    obtain ⟨other, held⟩ := head
    obtain ⟨hother, hrest⟩ := List.nodup_cons.1 hnodup
    by_cases hid : other = id
    · subst hid
      have hnone : (other, shape) ∉ rest := fun hmem =>
        hother (List.mem_map.2 ⟨_, hmem, rfl⟩)
      simp [hnone, eq_comm]
    · simp [hid, Ne.symm hid, ih hrest]

/-- The next number is above those of all living guards. -/
theorem contains_nextId (pool : Pool) : pool.contains pool.nextId = false := by
  have hbound (drawings : List (GuardId × Drawable)) (least : GuardId) :
      least ≤ drawings.foldl (fun bound drawing => max bound (drawing.1 + 1)) least ∧
        ∀ drawing ∈ drawings,
          drawing.1 < drawings.foldl (fun bound drawing => max bound (drawing.1 + 1)) least := by
    induction drawings generalizing least with
    | nil => exact ⟨Nat.le_refl least, fun _ hmem => absurd hmem List.not_mem_nil⟩
    | cons head rest ih =>
      obtain ⟨hleast, hrest⟩ := ih (max least (head.1 + 1))
      refine ⟨Nat.le_trans (Nat.le_max_left ..) hleast, List.forall_mem_cons.2 ⟨?_, hrest⟩⟩
      exact Nat.lt_of_lt_of_le (Nat.lt_of_lt_of_le (Nat.lt_succ_self _) (Nat.le_max_right ..)) hleast
  refine List.any_eq_false.2 fun drawing hmem hsame => ?_
  have hlt := (hbound pool.drawings 0).2 drawing hmem
  exact Nat.lt_irrefl _ (eq_of_beq hsame ▸ hlt)

/-- The number that is found is one that no living guard has. -/
theorem contains_drawFree (pool : Pool) (draws : List GuardId) :
    pool.contains (pool.drawFree draws).1 = false := by
  induction draws with
  | nil => exact pool.contains_nextId
  | cons id more ih =>
    unfold drawFree
    cases hid : pool.contains id with
    | true => exact ih
    | false => exact hid

/-- The count of what is drawn. -/
def count (pool : Pool) : Nat := pool.drawings.length

/-- The shapes in a frame. -/
def shapes (pool : Pool) : List Drawable := pool.drawings.map (·.2)

/-- The wire form of a frame. -/
def frame (pool : Pool) : Json := .obj [("objects", .arr (pool.shapes.map Drawable.toJson))]

/-- The frame that a viewer receives, once it can connect. -/
def viewerFrame (sockets : Sockets) (pool : Pool) : Except StartError Json :=
  sockets.bind.map fun _ => pool.frame

end Pool

end RobotSoccer
