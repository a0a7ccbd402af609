import RobotSoccer.Geometry.Scalar
import RobotSoccer.Number.Layout

/-!
# Positions, displacements and poses

Positions on the field in metres from its centre, displacements between them, and poses: a
position with the direction that a robot faces, in radians counter-clockwise from the x axis.
-/

namespace RobotSoccer

/-- A displacement in metres. -/
structure Vec (α : Type) where
  /-- The part along the x axis. -/
  x : α
  /-- The part along the y axis. -/
  y : α
  deriving BEq, Repr

/-- A position on the field in metres from its centre. -/
structure Point (α : Type) where
  /-- The place along the x axis. -/
  x : α
  /-- The place along the y axis. -/
  y : α
  deriving BEq, Repr

/-- Where something is and which way it faces. -/
structure Pose (α : Type) where
  /-- Where it is. -/
  position : Point α
  /-- The direction it faces in radians. -/
  orientation : α
  deriving BEq, Repr

variable {α : Type} [Scalar α]

open Scalar

/-- The same angle between half a turn backwards and half a turn forwards. The remainder brings
both ends of that interval to its lower one; an angle above zero is given the upper one back. -/
def angleWrap (angle : α) : α :=
  let wrapped := remainder (angle + pi) turn - pi
  if same wrapped (-pi) && less 0.0 angle then pi else wrapped

namespace Vec

/-- The length of a displacement. -/
def norm (v : Vec α) : α := hypotenuse v.x v.y

/-- A displacement turned counter-clockwise. -/
def rotated (v : Vec α) (angle : α) : Vec α :=
  ⟨v.x * cos angle - v.y * sin angle, v.x * sin angle + v.y * cos angle⟩

/-- A displacement stretched by a factor. -/
def scaled (v : Vec α) (factor : α) : Vec α := ⟨v.x * factor, v.y * factor⟩

end Vec

namespace Point

/-- The centre of the field. -/
def zero : Point α := ⟨0.0, 0.0⟩

/-- The displacement that leads from the second position to the first. -/
def sub (p q : Point α) : Vec α := ⟨p.x - q.x, p.y - q.y⟩

/-- The displacement that leads from the first position to the second. -/
def vecTo (p q : Point α) : Vec α := q.sub p

/-- The position that a displacement leads to. -/
def add (p : Point α) (v : Vec α) : Point α := ⟨p.x + v.x, p.y + v.y⟩

/-- The distance between two positions. -/
def distanceTo (p q : Point α) : α := (q.sub p).norm

/-- A position as people read it. -/
def text (p : Point Float) : String :=
  String.ofList ('(' :: Number.shownText p.x ++ [',', ' '] ++ Number.shownText p.y ++ [')'])

end Point

namespace Pose

/-- A pose from its coordinates and its direction. -/
def of (x y orientation : α) : Pose α := ⟨⟨x, y⟩, orientation⟩

/-- A position as seen from a pose: ahead of it along x, to its left along y. -/
def pov (pose : Pose α) (p : Point α) : Point α :=
  let seen := (pose.position.vecTo p).rotated (-pose.orientation)
  ⟨seen.x, seen.y⟩

/-- A pose as people read it. -/
def text (pose : Pose Float) : String :=
  String.ofList ('(' :: Number.shownText pose.position.x ++ [',', ' '] ++
    Number.shownText pose.position.y ++ [',', ' '] ++ Number.shownText pose.orientation ++ [')'])

end Pose

end RobotSoccer
