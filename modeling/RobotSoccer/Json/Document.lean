import RobotSoccer.Json.Container
import RobotSoccer.Json.Value

/-!
# Reading any JSON value

`value` reads a value of any shape into the tree, down to a limit of nesting. `skip` passes
over a value that nobody asks for: at any depth, without converting its numbers or decoding
its texts.
-/

namespace RobotSoccer.Reader

/-- The value of a scalar, and a fault for what starts none. -/
def scalar (b : UInt8) (rest : Bytes) : Reading Json :=
  if b = Ascii.lowerN then (word afterN rest).map (Json.null, ·)
  else if b = Ascii.lowerT then (word afterT rest).map (Json.bool true, ·)
  else if b = Ascii.lowerF then (word afterF rest).map (Json.bool false, ·)
  else if b = Ascii.quote then (quotation rest).map fun read => (Json.str read.1, read.2)
  else if startsNumber b then
    (number (b :: rest)).map fun read =>
      match read.1 with
      | .int n => (Json.int n, read.2)
      | .float x => (Json.float x, read.2)
  else .error .malformed

/-- Takes in a member of an object: a later value of a name replaces an earlier one. -/
def memberInto {α : Type} (value : Reader α) (gathered : List (String × α)) (name : String)
    (bytes : Bytes) : Reading (List (String × α)) :=
  (valueOf value bytes).map fun read => (Entries.insert name read.1 gathered, read.2)

/-- A value with at most `depth` levels of arrays and objects. The members of its objects come
in the order of their names, the last of those with one name. -/
def value : Nat → Reader Json
  | depth, bytes =>
    match skipBlank bytes with
    | [] => .error .endOfInput
    | b :: rest =>
      if b = Ascii.openBracket then
        match depth with
        | 0 => .error .malformed
        | depth + 1 => (items (value depth) rest).map fun read => (Json.arr read.1, read.2)
      else if b = Ascii.openBrace then
        match depth with
        | 0 => .error .malformed
        | depth + 1 =>
          (members quotation (memberInto (value depth)) [] rest).map fun read =>
            (Json.obj read.1, read.2)
      else scalar b rest

/-- The rest behind a scalar that nobody asks for. A number that ends too early is malformed
here even when the input ends with it. -/
def skipScalar (b : UInt8) (rest : Bytes) : Except Fault Bytes :=
  if b = Ascii.lowerN then word afterN rest
  else if b = Ascii.lowerT then word afterT rest
  else if b = Ascii.lowerF then word afterF rest
  else if b = Ascii.quote then skipQuotation rest
  else if startsNumber b then (numeral .malformed (b :: rest)).map (·.2)
  else .error .malformed

/-- Passes over a value with at most `depth` levels. -/
def skipFrom : Nat → Reader Unit
  | depth, bytes =>
    match skipBlank bytes with
    | [] => .error .endOfInput
    | b :: rest =>
      if b = Ascii.openBracket then
        match depth with
        | 0 => .error .malformed
        | depth + 1 => (items (skipFrom depth) rest).map fun read => ((), read.2)
      else if b = Ascii.openBrace then
        match depth with
        | 0 => .error .malformed
        | depth + 1 =>
          members (fun bytes => (skipQuotation bytes).map ((), ·))
            (fun _ _ => valueOf (skipFrom depth)) () rest
      else (skipScalar b rest).map ((), ·)

/-- Passes over a value. No value has more levels than bytes, so no nesting is too deep. -/
def skip (bytes : Bytes) : Reading Unit := skipFrom bytes.length bytes

/-- The levels of arrays and objects that a text may have. -/
def nestingLimit : Nat := 127

end RobotSoccer.Reader

namespace RobotSoccer.Json

/-- The value that bytes spell. -/
def ofBytes (bytes : Bytes) : Except Fault Json :=
  Reader.whole (Reader.value Reader.nestingLimit) bytes

/-- The bytes of a value. -/
def toBytes (value : Json) : Bytes := Utf8.encodeChars value.chars

end RobotSoccer.Json
