import RobotSoccer.Number.Decimal

/-!
# Whole numbers scaled by a power of ten

How a reader of numbers makes a double of the digits that it kept and a power of ten: the digits are
rounded to a double, which is then multiplied or divided by the double nearest to the power. Each of
the three is rounded for itself, so the result can miss the double that is nearest to what was
written. All of it is exact arithmetic on the bits of magnitudes.
-/

namespace RobotSoccer

namespace Binary64

/-- The whole number in a finite magnitude, which is worth `significand * 2^exponent`. -/
def significand (bits : Nat) : Nat :=
  if bits < 0x10000000000000 then bits else 0x10000000000000 + bits % 0x10000000000000

/-- The power of two in a finite magnitude. -/
def exponent (bits : Nat) : Int :=
  let field := bits >>> 52
  if bits < 0x10000000000000 then leastExponent else leastExponent - 1 + field

/-- The magnitude bits of a rounded product. -/
def product (a b : Nat) : Nat := nearestBits (significand a * significand b) (exponent a + exponent b)

/-- The magnitude bits of a rounded quotient. The division is made with more bits than a double can
hold, and one more bit says whether it left a rest. -/
def quotient (a b : Nat) : Nat :=
  let scaled := significand a <<< 128
  let whole := scaled / significand b
  let rest := scaled % significand b
  nearestBits (2 * whole + if rest = 0 then 0 else 1) (exponent a - exponent b - 129)

end Binary64

namespace PowerOfTen

/-- The greatest power of ten that has a double near to it. -/
def greatest : Nat := 308

/-- The magnitude bits of the double nearest to a power of ten. -/
def bits (n : Nat) : Nat := Binary64.nearestBits (Decimal.tenTo n) 0

/-- A magnitude divided by the greatest power of ten, a number of times. -/
def lowered (magnitude : Nat) : Nat → Nat
  | 0 => magnitude
  | rounds + 1 =>
    if magnitude = 0 then 0 else lowered (Binary64.quotient magnitude (bits greatest)) rounds

/-- A magnitude divided by ten to a positive power. What the power has beyond the greatest one is
divided out first. -/
def divided (magnitude n : Nat) : Nat :=
  let rounds := (n - 1) / greatest
  Binary64.quotient (lowered magnitude rounds) (bits (n - greatest * rounds))

/-- A whole number scaled by a power of ten; none when it overflows. -/
def scaled? (negative : Bool) (digits : Nat) (power : Int) : Option Float :=
  let magnitude := Binary64.nearestBits digits 0
  if power < 0 then some (Binary64.ofMagnitudeBits negative (divided magnitude (-power).toNat))
  else if greatest < power.toNat then
    if magnitude = 0 then some (Binary64.zero negative) else none
  else
    let product := Binary64.product magnitude (bits power.toNat)
    if product < Binary64.infinityBits then some (Binary64.ofMagnitudeBits negative product)
    else none

end PowerOfTen

end RobotSoccer
