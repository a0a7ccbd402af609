import RobotSoccer.Packet.Wire

/-!
# What can be drawn

The shapes that viewers draw, and their wire form: an object whose member `type` says which
shape it is.
-/

namespace RobotSoccer

/-- A shape on the picture of the field. -/
inductive Drawable where
  /-- A robot as it is seen. -/
  | robot (name : String) (team : Team) (pose : Pose Float) (preempted : Bool)
  /-- The ball as it is seen. -/
  | ball (position : Point Float)
  /-- Where a robot was ordered to go last. -/
  | target (robot : String) (pose : Pose Float)

namespace Drawable

/-- The wire form of a shape. -/
def toJson : Drawable → Json
  | .robot name team pose preempted =>
    .obj [("type", .str "Robot"), ("name", .str name), ("color", Team.codec.write team),
      ("pose", Pose.codec.write pose), ("preempted", .bool preempted)]
  | .ball position => .obj [("type", .str "Ball"), ("pos", Point.codec.write position)]
  | .target name pose =>
    .obj [("type", .str "Target"), ("robot", .str name), ("pose", Pose.codec.write pose)]

end Drawable

end RobotSoccer
