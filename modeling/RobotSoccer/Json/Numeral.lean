import RobotSoccer.Json.Reader
import RobotSoccer.Number.Scaling

/-!
# Reading numbers

`numeral` reads the grammar of a JSON number and `Numeral.value?` gives its meaning: an integer
where it is written as one and fits 64 bits, else a double. Of the digits as many are kept as fit
64 bits, and they are scaled by their power of ten; a number that overflows has no meaning and is
refused.
-/

namespace RobotSoccer

/-- What a number text says, before any rounding. -/
structure Numeral where
  /-- Whether a minus sign leads. -/
  negative : Bool
  /-- The digits before the point. -/
  whole : Bytes
  /-- The digits after the point, when there is one. -/
  part? : Option Bytes
  /-- The power of ten, when one is written. -/
  power? : Option Int
  deriving DecidableEq, Repr

/-- The meaning of a number text. -/
inductive NumberValue where
  /-- A whole number of 64 bits, signed or not. -/
  | int (n : Int)
  /-- Any other number. -/
  | float (x : Float)

namespace NumberValue

/-- The number as a double. -/
def toFloat : NumberValue → Float
  | int n => Binary64.ofInt n
  | float x => x

end NumberValue

namespace Numeral

/-- Takes digits up behind a number for as long as it fits 64 bits. Gives the number and the count of
the digits that are left. -/
def gather : Nat → Bytes → Nat × Nat
  | n, [] => (n, 0)
  | n, digit :: more =>
    let next := 10 * n + Ascii.digitValue digit
    if next < 0x10000000000000000 then gather next more else (n, more.length + 1)

/-- The digits that are kept, and the power of ten that they stand at. Digits before the point that
are left raise it; digits after the point are taken up behind those before it, and lower it. -/
def kept (numeral : Numeral) : Nat × Int :=
  let whole := gather 0 numeral.whole
  let part := numeral.part?.getD []
  let found := gather whole.1 part
  (found.1, (whole.2 : Int) + found.2 - part.length)

/-- The least power of ten that does not fit 32 bits. -/
def powerLimit : Nat := 0x80000000

/-- The double that is made of what is written; none when it overflows. A power that does not fit 32
bits is not looked at any further. -/
def double? (numeral : Numeral) : Option Float :=
  let (digits, power) := numeral.kept
  match numeral.power? with
  | none => PowerOfTen.scaled? numeral.negative digits power
  | some given =>
    if given.natAbs < powerLimit then
      PowerOfTen.scaled? numeral.negative digits (power + given)
    else if digits ≠ 0 ∧ 0 < given then none
    else some (Binary64.zero numeral.negative)

/-- Whether it is written without point and power of ten. -/
def integral (numeral : Numeral) : Bool := numeral.part?.isNone && numeral.power?.isNone

/-- The meaning of what is written; none when it overflows. A zero with a minus sign is a double,
since no integer has that sign, and so is what is less than all integers of 64 bits. -/
def value? (numeral : Numeral) : Option NumberValue :=
  let (n, left) := gather 0 numeral.whole
  if numeral.integral ∧ left = 0 then
    if numeral.negative then
      if n ≠ 0 ∧ n ≤ 0x8000000000000000 then some (.int (-n))
      else some (.float (Binary64.ofScaled true n 0))
    else some (.int n)
  else numeral.double?.map .float

end Numeral

namespace Reader

/-- One or more digits. -/
def digits (atEnd : Fault) (bytes : Bytes) : Reading Bytes :=
  let found := bytes.takeWhile Ascii.isDigit
  let rest := bytes.dropWhile Ascii.isDigit
  match found, rest with
  | [], [] => .error atEnd
  | [], _ :: _ => .error .malformed
  | _ :: _, _ => .ok (found, rest)

/-- The digits before the point: a single zero, or digits that start with none. -/
def wholeDigits (atEnd : Fault) (bytes : Bytes) : Reading Bytes :=
  match digits atEnd bytes with
  | .error fault => .error fault
  | .ok (found, rest) =>
    if found.head? = some Ascii.zero ∧ found.length ≠ 1 then .error .malformed
    else .ok (found, rest)

/-- The digits after a point, when there is one. -/
def fraction (atEnd : Fault) (bytes : Bytes) : Reading (Option Bytes) :=
  match bytes with
  | [] => .ok (none, [])
  | b :: rest =>
    if b = Ascii.point then
      match digits atEnd rest with
      | .error fault => .error fault
      | .ok (found, rest) => .ok (some found, rest)
    else .ok (none, bytes)

/-- A sign, when there is one: whether it is a minus, and the rest. -/
def sign (bytes : Bytes) : Bool × Bytes :=
  match bytes with
  | [] => (false, [])
  | b :: rest =>
    if b = Ascii.minus then (true, rest)
    else if b = Ascii.plus then (false, rest)
    else (false, bytes)

/-- The power of ten, when one is written. -/
def power (atEnd : Fault) (bytes : Bytes) : Reading (Option Int) :=
  match bytes with
  | [] => .ok (none, [])
  | b :: rest =>
    if b = Ascii.lowerE ∨ b = Ascii.upperE then
      match digits atEnd (sign rest).2 with
      | .error fault => .error fault
      | .ok (found, after) =>
        let n : Int := Ascii.digitsValue found
        .ok (some (if (sign rest).1 then -n else n), after)
    else .ok (none, bytes)

/-- A number without its sign. -/
def unsigned (atEnd : Fault) (negative : Bool) (bytes : Bytes) : Reading Numeral :=
  match wholeDigits atEnd bytes with
  | .error fault => .error fault
  | .ok (whole, rest) =>
    match fraction atEnd rest with
    | .error fault => .error fault
    | .ok (part?, rest) =>
      match power atEnd rest with
      | .error fault => .error fault
      | .ok (power?, rest) => .ok (⟨negative, whole, part?, power?⟩, rest)

/-- The grammar of a number. `atEnd` is the fault of an input that ends where a digit must
come. -/
def numeral (atEnd : Fault) (bytes : Bytes) : Reading Numeral :=
  match bytes with
  | [] => .error atEnd
  | b :: rest =>
    if b = Ascii.minus then unsigned atEnd true rest else unsigned atEnd false bytes

/-- Whether a byte can start a number. -/
def startsNumber (byte : UInt8) : Bool := byte == Ascii.minus || Ascii.isDigit byte

/-- A number and its meaning. -/
def number (bytes : Bytes) : Reading NumberValue :=
  match numeral .endOfInput bytes with
  | .error fault => .error fault
  | .ok (numeral, rest) =>
    match numeral.value? with
    | none => .error .malformed
    | some value => .ok (value, rest)

end Reader

end RobotSoccer
