import RobotSoccer.Number.Layout

/-!
# Lengths of time

Lengths of time in whole nanoseconds, and their text in the largest unit that leaves a whole
part.
-/

namespace RobotSoccer

/-- A length of time. -/
structure Duration where
  /-- Its nanoseconds. -/
  nanoseconds : Nat
  deriving DecidableEq, Repr

namespace Duration

/-- No time. -/
def zero : Duration := ⟨0⟩

/-- The time of some seconds and nanoseconds. -/
def of (seconds nanoseconds : Nat) : Duration := ⟨seconds * 1000000000 + nanoseconds⟩

/-- The time of some milliseconds. -/
def ofMilliseconds (n : Nat) : Duration := ⟨n * 1000000⟩

/-- The whole seconds of a time. -/
def seconds (d : Duration) : Nat := d.nanoseconds / 1000000000

/-- The nanoseconds of a time beyond its whole seconds. -/
def restNanoseconds (d : Duration) : Nat := d.nanoseconds % 1000000000

/-- The power of ten of nanoseconds that a unit has, and its sign. -/
def unit (d : Duration) : Nat × String :=
  if 1000000000 ≤ d.nanoseconds then (9, "s")
  else if 1000000 ≤ d.nanoseconds then (6, "ms")
  else if 1000 ≤ d.nanoseconds then (3, "µs")
  else (0, "ns")

/-- The digits behind the point without zeros at their end. -/
def fractionText (places n : Nat) : List Char :=
  let digits := Number.naturalText n
  let padded := List.replicate (places - digits.length) '0' ++ digits
  (padded.reverse.dropWhile (· == '0')).reverse

/-- The text of a time: the largest unit that leaves a whole part, and as many decimal places
as it takes. -/
def text (d : Duration) : String :=
  let scale := Decimal.tenTo d.unit.1
  let fraction := fractionText d.unit.1 (d.nanoseconds % scale)
  let point := if fraction.isEmpty then [] else ['.']
  String.ofList (Number.naturalText (d.nanoseconds / scale) ++ point ++ fraction) ++ d.unit.2

end Duration

end RobotSoccer
