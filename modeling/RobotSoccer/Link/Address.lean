import RobotSoccer.Number.Layout

/-!
# Addresses and endpoints

Addresses of hosts as four bytes, their dotted text, and the texts that name the ends of a
connection.
-/

namespace RobotSoccer

/-- The address of a host. -/
structure Address where
  /-- The first byte. -/
  first : UInt8
  /-- The second byte. -/
  second : UInt8
  /-- The third byte. -/
  third : UInt8
  /-- The fourth byte. -/
  fourth : UInt8
  deriving DecidableEq, Repr

namespace Address

/-- The host that a program runs on. -/
def loopback : Address := ⟨127, 0, 0, 1⟩

/-- The digits of a byte. -/
def partChars (part : UInt8) : List Char := Number.naturalText part.toNat

/-- The characters of an address: its bytes with points between them. -/
def chars (address : Address) : List Char :=
  partChars address.first ++ '.' :: (partChars address.second ++ '.' ::
    (partChars address.third ++ '.' :: partChars address.fourth))

/-- The text of an address. -/
def text (address : Address) : String := String.ofList address.chars

/-- Whether a character is a decimal digit. -/
def isDigit (c : Char) : Bool := '0' ≤ c && c ≤ '9'

/-- The number that digits spell. -/
def digitsValue (digits : List Char) : Nat :=
  digits.foldl (fun n c => 10 * n + (c.toNat - 48)) 0

/-- A byte from its digits: one to three of them, none in front for nothing. -/
def part? (digits : List Char) : Option UInt8 :=
  if digits.isEmpty || 3 < digits.length then none
  else if digits.head? = some '0' && digits.length ≠ 1 then none
  else if digitsValue digits < 256 then some (UInt8.ofNat (digitsValue digits))
  else none

/-- A byte and what follows its digits. -/
def leadingPart? (cs : List Char) : Option (UInt8 × List Char) :=
  (part? (cs.takeWhile isDigit)).map (·, cs.dropWhile isDigit)

/-- A byte behind a point, and what follows its digits. -/
def nextPart? : List Char → Option (UInt8 × List Char)
  | '.' :: cs => leadingPart? cs
  | _ => none

/-- The address that a text spells; only the text of an address spells one. -/
def ofText? (s : String) : Option Address := do
  let (first, rest) ← leadingPart? s.toList
  let (second, rest) ← nextPart? rest
  let (third, rest) ← nextPart? rest
  let (fourth, rest) ← nextPart? rest
  if rest.isEmpty then some ⟨first, second, third, fourth⟩ else none

end Address

/-- The name of one end of a connection: a port of a host. -/
def endpoint (host : Address) (port : UInt16) : String :=
  "tcp://" ++ host.text ++ ":" ++ String.ofList (Number.naturalText port.toNat)

end RobotSoccer
