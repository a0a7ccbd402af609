/-!
# Reading from bytes

A reader takes what it needs from the front of some bytes and gives back the rest, or says why
it stopped. Reading goes strictly from left to right, so the fault that is reported is the
first one met. Here are the faults, the bytes of the grammar, blanks and fixed words.
-/

namespace RobotSoccer

/-- Bytes as they come over a link. -/
abbrev Bytes := List UInt8

/-- Why a reader stopped. -/
inductive Fault where
  /-- The input ended inside a value. -/
  | endOfInput
  /-- The input is no JSON text. -/
  | malformed
  /-- The input is JSON so far, but not of the type or the value asked for. -/
  | mismatch
  deriving DecidableEq, Repr

/-- What was read and the bytes after it, or the first fault. -/
abbrev Reading (α : Type) := Except Fault (α × Bytes)

/-- Reads a value from the front of some bytes. -/
abbrev Reader (α : Type) := Bytes → Reading α

namespace Ascii

/-- The byte of a double quote. -/
abbrev quote : UInt8 := 0x22
/-- The byte of a backslash. -/
abbrev backslash : UInt8 := 0x5C
/-- The byte of a slash. -/
abbrev slash : UInt8 := 0x2F
/-- The byte of a comma. -/
abbrev comma : UInt8 := 0x2C
/-- The byte of a colon. -/
abbrev colon : UInt8 := 0x3A
/-- The byte of a point. -/
abbrev point : UInt8 := 0x2E
/-- The byte of a plus sign. -/
abbrev plus : UInt8 := 0x2B
/-- The byte of a minus sign. -/
abbrev minus : UInt8 := 0x2D
/-- The byte of the digit zero. -/
abbrev zero : UInt8 := 0x30
/-- The byte of the digit nine. -/
abbrev nine : UInt8 := 0x39
/-- The byte that opens an array. -/
abbrev openBracket : UInt8 := 0x5B
/-- The byte that closes an array. -/
abbrev closeBracket : UInt8 := 0x5D
/-- The byte that opens an object. -/
abbrev openBrace : UInt8 := 0x7B
/-- The byte that closes an object. -/
abbrev closeBrace : UInt8 := 0x7D
/-- The byte of a lower-case `b`. -/
abbrev lowerB : UInt8 := 0x62
/-- The byte of a lower-case `e`. -/
abbrev lowerE : UInt8 := 0x65
/-- The byte of an upper-case `E`. -/
abbrev upperE : UInt8 := 0x45
/-- The byte of a lower-case `f`. -/
abbrev lowerF : UInt8 := 0x66
/-- The byte of a lower-case `n`. -/
abbrev lowerN : UInt8 := 0x6E
/-- The byte of a lower-case `r`. -/
abbrev lowerR : UInt8 := 0x72
/-- The byte of a lower-case `t`. -/
abbrev lowerT : UInt8 := 0x74
/-- The byte of a lower-case `u`. -/
abbrev lowerU : UInt8 := 0x75

/-- Whether a byte is a decimal digit. -/
def isDigit (byte : UInt8) : Bool := zero ≤ byte && byte ≤ nine

/-- Whether a byte may stand between the parts of a text: space, tab, line feed, return. -/
def isBlank (byte : UInt8) : Bool := byte == 0x20 || byte == 0x09 || byte == 0x0A || byte == 0x0D

/-- The value of a digit. -/
def digitValue (byte : UInt8) : Nat := byte.toNat - 48

/-- The number that digits spell. -/
def digitsValue (digits : Bytes) : Nat := digits.foldl (fun n d => 10 * n + digitValue d) 0

/-- The value of a hexadecimal digit of either case. -/
def hexValue? (byte : UInt8) : Option Nat :=
  let n := byte.toNat
  if 48 ≤ n ∧ n ≤ 57 then some (n - 48)
  else if 97 ≤ n ∧ n ≤ 102 then some (n - 87)
  else if 65 ≤ n ∧ n ≤ 70 then some (n - 55)
  else none

end Ascii

namespace Reader

/-- The bytes after leading blanks. -/
def skipBlank (bytes : Bytes) : Bytes := bytes.dropWhile Ascii.isBlank

/-- The rest after one certain byte. -/
def expect (byte : UInt8) : Bytes → Except Fault Bytes
  | [] => .error .endOfInput
  | b :: rest => if b = byte then .ok rest else .error .malformed

/-- The rest after a fixed word. -/
def word : List UInt8 → Bytes → Except Fault Bytes
  | [], bytes => .ok bytes
  | c :: more, bytes =>
    match expect c bytes with
    | .error fault => .error fault
    | .ok rest => word more rest

/-- What follows the first byte of `null`. -/
def afterN : List UInt8 := [0x75, 0x6C, 0x6C]

/-- What follows the first byte of `true`. -/
def afterT : List UInt8 := [0x72, 0x75, 0x65]

/-- What follows the first byte of `false`. -/
def afterF : List UInt8 := [0x61, 0x6C, 0x73, 0x65]

/-- The rest after blanks and one certain byte. -/
def mark (byte : UInt8) (bytes : Bytes) : Except Fault Bytes := expect byte (skipBlank bytes)

/-- Nothing but blanks is left. -/
def finish (bytes : Bytes) : Except Fault Unit :=
  match skipBlank bytes with
  | [] => .ok ()
  | _ :: _ => .error .malformed

/-- Reads all bytes as one value. -/
def whole {α : Type} (read : Reader α) (bytes : Bytes) : Except Fault α :=
  match read bytes with
  | .error fault => .error fault
  | .ok (value, rest) =>
    match finish rest with
    | .error fault => .error fault
    | .ok () => .ok value

end Reader

end RobotSoccer
