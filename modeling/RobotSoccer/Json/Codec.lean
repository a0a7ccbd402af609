import RobotSoccer.Json.Document

/-!
# Codecs for plain values

A codec knows how values of a type are written as JSON and how they are read straight from
bytes. Reading never builds a tree first, so the first fault in the bytes is the one reported.
-/

namespace RobotSoccer

/-- How the values of a type are read and written. -/
structure Codec (α : Type) where
  /-- Reads a value from the front of some bytes. -/
  read : Reader α
  /-- Writes a value. -/
  write : α → Json

namespace Reader

variable {α β γ δ : Type}

/-- A truth value. -/
def boolean (bytes : Bytes) : Reading Bool :=
  match skipBlank bytes with
  | [] => .error .endOfInput
  | b :: rest =>
    if b = Ascii.lowerT then (word afterT rest).map (true, ·)
    else if b = Ascii.lowerF then (word afterF rest).map (false, ·)
    else .error (misfit (b :: rest))

/-- A number of any form. -/
def anyNumber (bytes : Bytes) : Reading NumberValue :=
  match skipBlank bytes with
  | [] => .error .endOfInput
  | b :: rest =>
    if startsNumber b then number (b :: rest) else .error (misfit (b :: rest))

/-- A double; whole numbers count as doubles too. -/
def double (bytes : Bytes) : Reading Float :=
  (anyNumber bytes).map fun read => (read.1.toFloat, read.2)

/-- A whole number from zero to under a bound. A number with a point or an exponent is none,
whatever its value. -/
def natural (bound : Nat) (bytes : Bytes) : Reading Nat :=
  match anyNumber bytes with
  | .error fault => .error fault
  | .ok (.float _, _) => .error .mismatch
  | .ok (.int n, rest) =>
    if 0 ≤ n ∧ n < bound then .ok (n.toNat, rest) else .error .mismatch

/-- A text. -/
def text (bytes : Bytes) : Reading String :=
  match skipBlank bytes with
  | [] => .error .endOfInput
  | b :: rest => if b = Ascii.quote then quotation rest else .error (misfit (b :: rest))

/-- A value, or null in its place. -/
def nullable (read : Reader α) (bytes : Bytes) : Reading (Option α) :=
  match skipBlank bytes with
  | [] => .error .endOfInput
  | b :: rest =>
    if b = Ascii.lowerN then (word afterN rest).map (none, ·)
    else (read (b :: rest)).map fun read => (some read.1, read.2)

/-- An array of two items. -/
def two (first : Reader α) (second : Reader β) (bytes : Bytes) :
    Except Fault ((α × β) × Bytes) := do
  let rest ← opening Ascii.openBracket bytes
  let (a, rest) ← place true first rest
  let (b, rest) ← place false second rest
  let rest ← closeArray rest
  return ((a, b), rest)

/-- An array of three items. -/
def three (first : Reader α) (second : Reader β) (third : Reader γ) (bytes : Bytes) :
    Except Fault ((α × β × γ) × Bytes) := do
  let rest ← opening Ascii.openBracket bytes
  let (a, rest) ← place true first rest
  let (b, rest) ← place false second rest
  let (c, rest) ← place false third rest
  let rest ← closeArray rest
  return ((a, b, c), rest)

/-- An array of four items. -/
def four (first : Reader α) (second : Reader β) (third : Reader γ) (fourth : Reader δ)
    (bytes : Bytes) : Except Fault ((α × β × γ × δ) × Bytes) := do
  let rest ← opening Ascii.openBracket bytes
  let (a, rest) ← place true first rest
  let (b, rest) ← place false second rest
  let (c, rest) ← place false third rest
  let (d, rest) ← place false fourth rest
  let rest ← closeArray rest
  return ((a, b, c, d), rest)

/-- An array of any count of items. -/
def list (item : Reader α) (bytes : Bytes) : Except Fault (List α × Bytes) := do
  let rest ← opening Ascii.openBracket bytes
  items item rest

/-- Takes in an entry of a map: a later value of a key replaces an earlier one. -/
def entryInto (value : Reader α) (dict : Dict α) (key : String) (bytes : Bytes) :
    Reading (Dict α) :=
  (valueOf value bytes).map fun read => (dict.insert key read.1, read.2)

/-- An object as a map. -/
def dict (value : Reader α) (bytes : Bytes) : Except Fault (Dict α × Bytes) := do
  let rest ← opening Ascii.openBrace bytes
  members quotation (entryInto value) Dict.empty rest

end Reader

namespace Codec

variable {α : Type}

/-- The value that all the bytes spell. -/
def decode (codec : Codec α) (bytes : Bytes) : Except Fault α := Reader.whole codec.read bytes

/-- The bytes of the compact text of a value. -/
def encode (codec : Codec α) (value : α) : Bytes := (codec.write value).toBytes

/-- Truth values. -/
def boolean : Codec Bool := ⟨Reader.boolean, .bool⟩

/-- Doubles. -/
def double : Codec Float := ⟨Reader.double, .float⟩

/-- Bytes as numbers. -/
def byte : Codec UInt8 where
  read bytes := (Reader.natural 0x100 bytes).map fun read => (UInt8.ofNat read.1, read.2)
  write n := .int n.toNat

/-- Whole numbers of 32 bits. -/
def count : Codec UInt32 where
  read bytes := (Reader.natural 0x100000000 bytes).map fun read => (UInt32.ofNat read.1, read.2)
  write n := .int n.toNat

/-- Texts. -/
def text : Codec String := ⟨Reader.text, .str⟩

/-- Values that null may stand for. -/
def nullable (codec : Codec α) : Codec (Option α) where
  read := Reader.nullable codec.read
  write
    | none => .null
    | some value => codec.write value

/-- Arrays. -/
def list (codec : Codec α) : Codec (List α) where
  read := Reader.list codec.read
  write values := .arr (values.map codec.write)

/-- Maps, written in the order of their keys. -/
def dict (codec : Codec α) : Codec (Dict α) where
  read := Reader.dict codec.read
  write dict := .obj (dict.entries.map fun entry => (entry.1, codec.write entry.2))

end Codec

end RobotSoccer
