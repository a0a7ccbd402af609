import RobotSoccer.Drawing.Pool

/-!
# Guards at work

Whatever is done with guards: a new one starts to draw, one that lives gets another shape, one is
dropped. Guards are known here by the order in which they came, so that what they should show can
be told without the numbers drawn for them.
-/

namespace RobotSoccer

/-- Something done with guards, each known by its place in the order in which they came. -/
inductive Deed where
  /-- A new guard starts to draw a shape. -/
  | start (shape : Drawable)
  /-- A guard gets another shape. -/
  | update (place : Nat) (shape : Drawable)
  /-- A guard is dropped. -/
  | drop (place : Nat)

/-- A pool with the guards that came so far. -/
structure Gallery where
  /-- What is drawn. -/
  pool : Pool
  /-- The numbers of the guards in the order in which they came, none for one that was dropped. -/
  guards : List (Option GuardId)

namespace Gallery

/-- A gallery without guards, for which these numbers will be drawn. -/
def fresh (draws : List GuardId) : Gallery := ⟨.drawing draws, []⟩

/-- The number of the guard at a place, while it lives. -/
def guard? (gallery : Gallery) (place : Nat) : Option GuardId := gallery.guards[place]?.join

/-- The numbers of the guards that live. -/
def alive (gallery : Gallery) : List GuardId := gallery.guards.filterMap id

/-- Something is done. A guard that was dropped is not there to do anything with. -/
def perform (gallery : Gallery) : Deed → Gallery
  | .start shape =>
    let started := gallery.pool.start shape
    ⟨started.2, gallery.guards ++ [some started.1]⟩
  | .update place shape =>
    match gallery.guard? place with
    | none => gallery
    | some id => { gallery with pool := gallery.pool.update id shape }
  | .drop place =>
    match gallery.guard? place with
    | none => gallery
    | some id => ⟨gallery.pool.drop id, gallery.guards.set place none⟩

/-- Several things are done in order. -/
def after (gallery : Gallery) (deeds : List Deed) : Gallery := deeds.foldl perform gallery

end Gallery

namespace Deed

/-- What the guards should show after one more deed, in the order in which they came: each the
latest shape that it was given, and nothing once it is dropped. -/
def exhibit (shown : List (Option Drawable)) : Deed → List (Option Drawable)
  | .start shape => shown ++ [some shape]
  | .update place shape =>
    match shown[place]?.join with
    | none => shown
    | some _ => shown.set place (some shape)
  | .drop place => shown.set place none

/-- What the guards should show after several deeds. -/
def exhibited (deeds : List Deed) : List (Option Drawable) := deeds.foldl exhibit []

end Deed

end RobotSoccer
