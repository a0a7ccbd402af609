import RobotSoccer.Number.Binary64

/-!
# Arithmetic for the field

The geometry of the field is written once, over any `Scalar`. Programs run it on doubles, with
the instance given here; statements about exact geometry read the same definitions over the
real numbers.
-/

namespace RobotSoccer

/-- Numbers with the operations that positions, angles and arrival tests need. Comparisons
answer with a Boolean, since on doubles they are not the order of equality. -/
class Scalar (α : Type) extends Add α, Sub α, Mul α, Div α, Neg α, OfScientific α where
  /-- Half a turn in radians. -/
  pi : α
  /-- The sine of an angle in radians. -/
  sin : α → α
  /-- The cosine of an angle in radians. -/
  cos : α → α
  /-- The length of the hypotenuse over two sides. -/
  hypotenuse : α → α → α
  /-- The remainder by a positive modulus that is not negative. -/
  remainder : α → α → α
  /-- Whether the first number is less than the second. -/
  less : α → α → Bool
  /-- Whether two numbers compare equal. -/
  same : α → α → Bool

namespace Scalar

variable {α : Type} [Scalar α]

/-- A whole turn in radians. -/
def turn : α := 2.0 * pi

/-- A number without its sign. -/
def magnitude (x : α) : α := if less x 0.0 then -x else x

end Scalar

/-- Doubles. The hypotenuse and the remainder are those of the exact values, rounded once. -/
instance : Scalar Float where
  pi := 3.141592653589793
  sin := Float.sin
  cos := Float.cos
  hypotenuse := Binary64.hypotenuse
  remainder := Binary64.euclideanRemainder
  less x y := x < y
  same x y := x == y

end RobotSoccer
