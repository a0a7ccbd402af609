import RobotSoccer.Number.Binary64

/-!
# Decimal numbers

A decimal is `±digits * 10^exponent`. `Decimal.nearestBits` gives the double nearest to it, and
`Decimal.shortest` a decimal with as few digits as possible that a given double is nearest to.
How a decimal is laid out as text is settled where texts are written.
-/

namespace RobotSoccer

/-- The magnitude of a decimal number, `digits * 10^exponent`. -/
structure Decimal where
  /-- All digits, read as one natural number. -/
  digits : Nat
  /-- The power of ten that the digits are scaled by. -/
  exponent : Int
  deriving DecidableEq, Repr

namespace Decimal

/-- Ten to a power. -/
def tenTo (n : Nat) : Nat := Nat.pow 10 n

/-- Drops the zeros at the end of the digits, at most `limit` of them, and raises the exponent
instead. -/
def stripZeros : Nat → Decimal → Decimal
  | 0, d => d
  | limit + 1, d =>
    if d.digits ≠ 0 ∧ d.digits % 10 = 0 then stripZeros limit ⟨d.digits / 10, d.exponent + 1⟩
    else d

/-- The same number without zeros at the end of its digits. A number has fewer decimal digits
than binary ones, so none of the zeros is left. -/
def normal (d : Decimal) : Decimal := stripZeros (d.digits.log2 + 1) d

/-- Past this power of ten every decimal overflows, and under its inverse it vanishes. -/
def reach : Nat := 400

/-- The magnitude bits of the double nearest to a decimal. A negative power of ten is divided
out after scaling by a power of two that leaves more bits than a double can hold; one more bit
says whether the division left a rest. The two early answers keep the powers small: a decimal
with a large positive exponent is past every double, and one with few digits against its
negative exponent is closer to zero than to any other double. -/
def roundedBits (d : Decimal) : Nat :=
  if d.digits = 0 then 0
  else if 0 ≤ d.exponent then
    if reach < d.exponent.toNat then Binary64.infinityBits
    else Binary64.nearestBits (d.digits * tenTo d.exponent.toNat) 0
  else
    let n := (-d.exponent).toNat
    if reach + d.digits.log2 + 1 < n then 0
    else
      let k := 64 + 4 * n
      let scaled := d.digits <<< k
      let whole := scaled / tenTo n
      let rest := scaled % tenTo n
      Binary64.nearestBits (2 * whole + if rest = 0 then 0 else 1) (-(k + 1 : Nat))

/-- The magnitude bits of the double nearest to a decimal, the same for all its spellings. -/
def nearestBits (d : Decimal) : Nat := d.normal.roundedBits

/-- The exact quotient `num / den` that equals `m * 2^q`. -/
def ratioOfScaled (m : Nat) (q : Int) : Nat × Nat :=
  if 0 ≤ q then (m <<< q.toNat, 1) else (m, 1 <<< (-q).toNat)

/-- The quotient `num / den` divided by `10^t`, again as a quotient. -/
def overPowerOfTen (ratio : Nat × Nat) (t : Int) : Nat × Nat :=
  if 0 ≤ t then (ratio.1, ratio.2 * tenTo t.toNat) else (ratio.1 * tenTo (-t).toNat, ratio.2)

/-- Whether a quotient is at least one. -/
def atLeastOne (ratio : Nat × Nat) : Bool := ratio.2 ≤ ratio.1

/-- The power of ten of the leading digit of `m * 2^q`, for a positive `m`. The first guess
comes from the leading binary digit, at 0.30103 decimal digits a bit, and is put right by
comparison. -/
def leadingPower (m : Nat) (q : Int) : Int :=
  let ratio := ratioOfScaled m q
  let guess := (m.log2 + q) * 30103 / 100000
  if atLeastOne (overPowerOfTen ratio (guess + 1)) then guess + 1
  else if atLeastOne (overPowerOfTen ratio guess) then guess
  else guess - 1

/-- The nearest decimal with `count` digits that reads back as the double with these magnitude
bits, where `ratio` is the value of the double and `top` the power of its leading digit. Only
the two neighbours of the value on the grid of that many digits can be nearest; when both read
back the closer one wins, and of two equally close the even one. -/
def withDigits? (bits : Nat) (ratio : Nat × Nat) (top : Int) (count : Nat) : Option Decimal :=
  let t := top - count + 1
  let scaled := overPowerOfTen ratio t
  let floor := scaled.1 / scaled.2
  let twice := 2 * (scaled.1 % scaled.2)
  let below := normal ⟨floor, t⟩
  let above := normal ⟨floor + 1, t⟩
  if below.nearestBits = bits then
    if above.nearestBits = bits then
      if twice < scaled.2 ∨ (twice = scaled.2 ∧ floor % 2 = 0) then some below else some above
    else some below
  else if above.nearestBits = bits then some above
  else none

/-- The exact decimal value of `m * 2^q`. -/
def exact (m : Nat) (q : Int) : Decimal :=
  if 0 ≤ q then ⟨m <<< q.toNat, 0⟩ else ⟨m * Nat.pow 5 (-q).toNat, q⟩

/-- The most digits tried before the exact value is given instead. -/
def digitLimit : Nat := 17

/-- The first of the digit counts that gives a decimal reading back, else the exact value. -/
def fewest (m : Nat) (q : Int) : Decimal :=
  let bits := Binary64.nearestBits m q
  let ratio := ratioOfScaled m q
  let top := leadingPower m q
  let tried := (List.range digitLimit).findSome? fun k => withDigits? bits ratio top (k + 1)
  tried.getD (exact m q).normal

/-- The decimal with the fewest digits that reads back as `m * 2^q`, and of those the nearest;
without zeros at its end. Zero is the single digit `0`. -/
def shortest (m : Nat) (q : Int) : Decimal := if m = 0 then ⟨0, 0⟩ else fewest m q

end Decimal

end RobotSoccer
