import RobotSoccer.Json.Reader
import RobotSoccer.Text.Utf8

/-!
# Reading texts

A text stands between quotes. `quotation` resolves its escapes and gives the characters;
`skipQuotation` passes over one in a place that nobody asks for, where escapes are checked for
their form alone. Both start behind the opening quote.
-/

namespace RobotSoccer.Reader

/-- The number that four hexadecimal digits spell. -/
def hex4? (a b c d : UInt8) : Option Nat := do
  let a ← Ascii.hexValue? a
  let b ← Ascii.hexValue? b
  let c ← Ascii.hexValue? c
  let d ← Ascii.hexValue? d
  return ((a * 16 + b) * 16 + c) * 16 + d

/-- Whether a unit of sixteen bits is the first half of a pair. -/
def isLead (n : Nat) : Bool := 0xD800 ≤ n && n ≤ 0xDBFF

/-- Whether a unit of sixteen bits is the second half of a pair. -/
def isTrail (n : Nat) : Bool := 0xDC00 ≤ n && n ≤ 0xDFFF

/-- The code point of a pair. -/
def pairCode (lead trail : Nat) : Nat := 0x10000 + (lead - 0xD800) * 0x400 + (trail - 0xDC00)

/-- The byte that a short escape stands for. -/
def shortEscape? (byte : UInt8) : Option UInt8 :=
  if byte = Ascii.quote then some Ascii.quote
  else if byte = Ascii.backslash then some Ascii.backslash
  else if byte = Ascii.slash then some Ascii.slash
  else if byte = Ascii.lowerB then some 0x08
  else if byte = Ascii.lowerF then some 0x0C
  else if byte = Ascii.lowerN then some 0x0A
  else if byte = Ascii.lowerR then some 0x0D
  else if byte = Ascii.lowerT then some 0x09
  else none

/-- Puts bytes before what was read. -/
def before (front : Bytes) : Reading Bytes → Reading Bytes
  | .error fault => .error fault
  | .ok (bytes, rest) => .ok (front ++ bytes, rest)

/-- The bytes of the character with a code point. -/
def codeBytes (n : Nat) : Bytes := Utf8.encodeChar (Char.ofNat n)

/-- The bytes of a text up to its closing quote, escapes resolved. An escape by code point
needs four more bytes, whatever they are, before they are looked at; the first half of a pair
must be followed at once by the escape of the second. -/
def quotedBytes : Bytes → Reading Bytes
  | [] => .error .endOfInput
  | byte :: rest =>
    if byte = Ascii.quote then .ok ([], rest)
    else if byte < 0x20 then .error .malformed
    else if byte = Ascii.backslash then
      match rest with
      | [] => .error .endOfInput
      | kind :: rest =>
        if kind = Ascii.lowerU then
          match rest with
          | a :: b :: c :: d :: rest =>
            match hex4? a b c d with
            | none => .error .malformed
            | some n =>
              if isTrail n then .error .malformed
              else if isLead n then
                match rest with
                | [] => .error .endOfInput
                | slash :: rest =>
                  if slash = Ascii.backslash then
                    match rest with
                    | [] => .error .endOfInput
                    | unit :: rest =>
                      if unit = Ascii.lowerU then
                        match rest with
                        | e :: f :: g :: h :: rest =>
                          match hex4? e f g h with
                          | none => .error .malformed
                          | some m =>
                            if isTrail m then
                              before (codeBytes (pairCode n m)) (quotedBytes rest)
                            else .error .malformed
                        | _ => .error .endOfInput
                      else .error .malformed
                  else .error .malformed
              else before (codeBytes n) (quotedBytes rest)
          | _ => .error .endOfInput
        else
          match shortEscape? kind with
          | none => .error .malformed
          | some escaped => before [escaped] (quotedBytes rest)
    else before [byte] (quotedBytes rest)

/-- A text behind its opening quote. Whether its bytes are UTF-8 is settled at its end. -/
def quotation (bytes : Bytes) : Reading String :=
  match quotedBytes bytes with
  | .error fault => .error fault
  | .ok (content, rest) =>
    match Utf8.decode? content with
    | none => .error .malformed
    | some s => .ok (s, rest)

/-- The rest behind a text that nobody asks for. -/
def skipQuotation : Bytes → Except Fault Bytes
  | [] => .error .endOfInput
  | byte :: rest =>
    if byte = Ascii.quote then .ok rest
    else if byte < 0x20 then .error .malformed
    else if byte = Ascii.backslash then
      match rest with
      | [] => .error .endOfInput
      | kind :: rest =>
        if kind = Ascii.lowerU then
          match rest with
          | a :: b :: c :: d :: rest =>
            match hex4? a b c d with
            | none => .error .malformed
            | some _ => skipQuotation rest
          | _ => .error .endOfInput
        else
          match shortEscape? kind with
          | none => .error .malformed
          | some _ => skipQuotation rest
    else skipQuotation rest

end RobotSoccer.Reader
