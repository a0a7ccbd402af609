import RobotSoccer.Text.Unprintable

/-!
# Quoted texts

A text between double quotes in which every character can be seen: quotes, backslashes and the
common controls have short escapes, and other characters without a picture are spelled by
their code point.
-/

namespace RobotSoccer.Quoted

/-- The lower-case hexadecimal digits of a code point, without leading zeros. -/
def hexText (n : Nat) : List Char := Nat.toDigits 16 n

/-- One character inside the quotes. -/
def escape (c : Char) : List Char :=
  if c = '"' then ['\\', '"']
  else if c = '\\' then ['\\', '\\']
  else if c = '\n' then ['\\', 'n']
  else if c = '\r' then ['\\', 'r']
  else if c = '\t' then ['\\', 't']
  else if c.toNat = 0 then ['\\', '0']
  else if Unprintable.member c then ['\\', 'u', '\x7b'] ++ hexText c.toNat ++ ['\x7d']
  else [c]

/-- A text between quotes. -/
def quote (s : String) : String := String.ofList ('"' :: s.toList.flatMap escape ++ ['"'])

end RobotSoccer.Quoted
