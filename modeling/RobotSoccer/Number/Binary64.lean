import RobotSoccer.Number.Rounding

/-!
# Doubles as integers scaled by a power of two

A double is not a number, an infinity, or `±m * 2^q` for a natural `m` and an integer `q`.
`Shape` is that reading of the 64 bits, and `ofScaled` is the way back: it rounds an exact
`m * 2^q` to the nearest double, a half going to the even neighbour. On these two rest the
exact remainder and the exact hypotenuse below, and the decimal reader and printer beside.
Sums, products and trigonometry are left to the hardware type.
-/

namespace RobotSoccer.Binary64

/-- What the 64 bits of a double stand for. -/
inductive Shape where
  /-- Not a number. -/
  | nan
  /-- One of the two infinities. -/
  | infinite (negative : Bool)
  /-- The number `±significand * 2^exponent`, zero included. -/
  | finite (negative : Bool) (significand : Nat) (exponent : Int)
  deriving DecidableEq, Repr

/-- The bits of positive infinity, one above those of the greatest finite double. -/
def infinityBits : Nat := 0x7FF0000000000000

/-- The weight of the sign bit. -/
def signBit : Nat := 0x8000000000000000

/-- The exponent of the least positive double. -/
def leastExponent : Int := -1074

/-- The shape of a sign, an exponent field and a fraction field. A zero exponent field marks
the subnormal numbers, which lack the hidden leading bit. -/
def shapeOfFields (negative : Bool) (field fraction : Nat) : Shape :=
  if field = 2047 then
    if fraction = 0 then .infinite negative else .nan
  else if field = 0 then .finite negative fraction leastExponent
  else .finite negative (0x10000000000000 + fraction) (leastExponent - 1 + field)

/-- The shape of a double. -/
def shape (x : Float) : Shape :=
  let bits := x.toBits.toNat
  shapeOfFields (bits / signBit = 1) ((bits >>> 52) % 2048) (bits % 0x10000000000000)

/-- The double whose bits are a sign and the bits of a magnitude. -/
def ofMagnitudeBits (negative : Bool) (bits : Nat) : Float :=
  Float.ofBits (UInt64.ofNat (if negative then signBit + bits else bits))

/-- The zero of a sign. -/
def zero (negative : Bool) : Float := ofMagnitudeBits negative 0

/-- The infinity of a sign. -/
def infinity (negative : Bool) : Float := ofMagnitudeBits negative infinityBits

/-- The double that is not a number. -/
def notANumber : Float := ofMagnitudeBits false (infinityBits + 0x8000000000000)

/-- The magnitude bits of the double nearest to `m * 2^q`, ties to even. A value past the
greatest double by half a unit or more gives the bits of infinity. The unit in the last place
is `2^p`: the leading bit leaves room for 53 bits, but `p` never falls below the least
exponent. A significand that rounds up to `2^53` carries into the exponent field by itself. -/
def nearestBits (m : Nat) (q : Int) : Nat :=
  if m = 0 then 0
  else
    let p := max (m.log2 + q - 52) leastExponent
    let s := if p ≤ q then m <<< (q - p).toNat else Rounding.quotient m (1 <<< (p - q).toNat)
    min ((p - leastExponent).toNat <<< 52 + s) infinityBits

/-- A power of two shifts the leading binary digit. -/
theorem log2_shiftLeft (m k : Nat) (h : m ≠ 0) : (m <<< k).log2 = m.log2 + k := by
  rw [Nat.shiftLeft_eq]
  have hpos : 0 < 2 ^ k := Nat.two_pow_pos k
  have hne : m * 2 ^ k ≠ 0 := Nat.mul_ne_zero h (Nat.ne_of_gt hpos)
  rw [Nat.log2_eq_iff hne]
  obtain ⟨hl, hu⟩ := (Nat.log2_eq_iff h).1 rfl
  constructor
  · rw [Nat.pow_add]
    exact Nat.mul_le_mul_right _ hl
  · rw [show m.log2 + k + 1 = m.log2 + 1 + k by omega, Nat.pow_add]
    exact Nat.mul_lt_mul_of_pos_right hu hpos

/-- A factor that is a power of two may stand in the significand or in the exponent. -/
theorem nearestBits_shiftLeft (m k : Nat) (q : Int) :
    nearestBits (m <<< k) q = nearestBits m (q + k) := by
  by_cases h : m = 0
  · simp [nearestBits, h]
  · have hpos : 0 < 2 ^ k := Nat.two_pow_pos k
    have hne : m <<< k ≠ 0 := by
      rw [Nat.shiftLeft_eq]
      exact Nat.mul_ne_zero h (Nat.ne_of_gt hpos)
    unfold nearestBits
    rw [if_neg h, if_neg hne, log2_shiftLeft m k h]
    simp only [Nat.shiftLeft_eq, Nat.one_mul]
    have hp : ((m.log2 + k : Nat) : Int) + q - 52 = (m.log2 : Int) + (q + k) - 52 := by omega
    rw [hp]
    generalize max ((m.log2 : Int) + (q + k) - 52) leastExponent = p
    congr 2
    by_cases hq : p ≤ q
    · rw [if_pos hq, if_pos (by omega), Nat.mul_assoc, ← Nat.pow_add]
      congr 2
      omega
    · rw [if_neg hq]
      by_cases hk : p ≤ q + k
      · rw [if_pos hk]
        have hsplit : 2 ^ k = 2 ^ (p - q).toNat * 2 ^ (q + k - p).toNat := by
          rw [← Nat.pow_add]
          congr 1
          omega
        rw [hsplit, Nat.mul_left_comm, Rounding.quotient_mul _ _ (Nat.two_pow_pos _)]
      · rw [if_neg hk]
        have hsplit : 2 ^ (p - q).toNat = 2 ^ k * 2 ^ (p - (q + k)).toNat := by
          rw [← Nat.pow_add]
          congr 1
          omega
        rw [hsplit, Nat.mul_comm m, Rounding.quotient_scale _ _ _ hpos]

/-- Rounding gives back the fields of a finite double: its own value needs no rounding. -/
theorem nearestBits_of_shape {negative sign : Bool} {field fraction m : Nat} {q : Int}
    (hfield : field < 2048) (hfraction : fraction < 0x10000000000000)
    (h : shapeOfFields negative field fraction = .finite sign m q) :
    nearestBits m q = field <<< 52 + fraction := by
  unfold shapeOfFields at h
  split at h
  · split at h <;> simp at h
  · next htop =>
    have hbits : field <<< 52 + fraction < infinityBits := by
      unfold infinityBits
      omega
    split at h
    · next hzero =>
      subst hzero
      obtain ⟨-, rfl, rfl⟩ := Shape.finite.inj h
      unfold nearestBits
      by_cases hf : fraction = 0
      · simp [hf]
      · have hlog : fraction.log2 < 52 := (Nat.log2_lt hf).2 hfraction
        have hp : max ((fraction.log2 : Int) + leastExponent - 52) leastExponent =
            leastExponent := by omega
        rw [if_neg hf, hp]
        dsimp only
        rw [if_pos (Int.le_refl _)]
        simp only [Int.sub_self, Int.toNat_zero, Nat.shiftLeft_zero]
        omega
    · next hnonzero =>
      obtain ⟨-, rfl, rfl⟩ := Shape.finite.inj h
      have hne : 0x10000000000000 + fraction ≠ 0 := by omega
      have hlog : (0x10000000000000 + fraction).log2 = 52 :=
        (Nat.log2_eq_iff hne).2 ⟨by omega, by omega⟩
      unfold nearestBits
      have hp : max (((52 : Nat) : Int) + (leastExponent - 1 + field) - 52) leastExponent =
          leastExponent - 1 + field := by omega
      rw [if_neg hne, hlog, hp]
      dsimp only
      rw [if_pos (Int.le_refl _)]
      have ht : (leastExponent - 1 + (field : Int) - leastExponent).toNat = field - 1 := by omega
      rw [ht]
      simp only [Int.sub_self, Int.toNat_zero, Nat.shiftLeft_zero]
      omega

/-- The double nearest to `±m * 2^q`, ties to even; infinity when none is near enough. -/
def ofScaled (negative : Bool) (m : Nat) (q : Int) : Float :=
  ofMagnitudeBits negative (nearestBits m q)

/-- The double nearest to an integer, ties to even. -/
def ofInt (n : Int) : Float := ofScaled (n < 0) n.natAbs 0

/-- The double nearest to the square root of `m * 2^(2 * q)`. The root is taken of
`m * 2^128`, so that it has more bits than a double can hold, and one more bit after its end
says whether something was cut off. -/
def nearestRoot (m : Nat) (q : Int) : Float :=
  let scaled := m <<< 128
  let root := Rounding.squareRoot scaled
  ofScaled false (2 * root + if root * root = scaled then 0 else 1) (q - 65)

/-- The length of the hypotenuse over `x` and `y`, correctly rounded. An infinite side makes
it infinite whatever the other side is. -/
def hypotenuse (x y : Float) : Float :=
  match shape x, shape y with
  | .infinite _, _ => infinity false
  | _, .infinite _ => infinity false
  | .nan, _ => notANumber
  | _, .nan => notANumber
  | .finite _ m q, .finite _ n p =>
    let e := min q p
    let a := m <<< (q - e).toNat
    let b := n <<< (p - e).toNat
    nearestRoot (a * a + b * b) e

/-- The remainder of `x` by `y` with the sign of `x`, which is always exact. There is none
for an infinite `x` or a zero `y`, and an infinite `y` leaves `x` as it is. -/
def truncatedRemainder (x y : Float) : Float :=
  match shape x, shape y with
  | .nan, _ => notANumber
  | _, .nan => notANumber
  | .infinite _, _ => notANumber
  | _, .infinite _ => x
  | .finite negative m q, .finite _ n p =>
    if n = 0 then notANumber
    else
      let e := min q p
      ofScaled negative (m <<< (q - e).toNat % n <<< (p - e).toNat) e

/-- The magnitude of a double. -/
def magnitude (x : Float) : Float := if x < 0.0 then -x else x

/-- The remainder of `x` by `y` that is not negative: a negative remainder with the sign of
`x` is raised by `|y|`, in one rounded addition. -/
def euclideanRemainder (x y : Float) : Float :=
  let r := truncatedRemainder x y
  if r < 0.0 then r + magnitude y else r

end RobotSoccer.Binary64
