import RobotSoccer.Number.Layout
import RobotSoccer.Dict

/-!
# JSON values and their compact text

The tree of a JSON text and the one compact way in which it is written: no blanks, members in
the order of the tree, characters raw except for quotes, backslashes and controls. A number
that is not finite is written as null.
-/

namespace RobotSoccer

/-- A JSON value. A number is an integer of 64 bits or else a double. -/
inductive Json where
  /-- The value null. -/
  | null
  /-- A truth value. -/
  | bool (value : Bool)
  /-- A whole number. -/
  | int (value : Int)
  /-- Any other number. -/
  | float (value : Float)
  /-- A text. -/
  | str (value : String)
  /-- An array of values. -/
  | arr (items : List Json)
  /-- An object with its members in order. -/
  | obj (members : List (String × Json))
  deriving Inhabited

namespace Json

/-- Four lower-case hexadecimal digits. -/
def hex4 (n : Nat) : List Char :=
  let digits := Nat.toDigits 16 n
  List.replicate (4 - digits.length) '0' ++ digits

/-- One character of a text between its quotes. -/
def escape (c : Char) : List Char :=
  if c = '"' then ['\\', '"']
  else if c = '\\' then ['\\', '\\']
  else if c.toNat = 0x08 then ['\\', 'b']
  else if c.toNat = 0x09 then ['\\', 't']
  else if c.toNat = 0x0A then ['\\', 'n']
  else if c.toNat = 0x0C then ['\\', 'f']
  else if c.toNat = 0x0D then ['\\', 'r']
  else if c.toNat < 0x20 then ['\\', 'u'] ++ hex4 c.toNat
  else [c]

/-- A text between its quotes. -/
def quotedChars (s : String) : List Char := '"' :: s.toList.flatMap escape ++ ['"']

/-- A double, or null in place of one that is not finite. -/
def floatChars (x : Float) : List Char :=
  if x.isFinite then Number.numberText x else ['n', 'u', 'l', 'l']

mutual

/-- The compact text of a value. -/
def chars : Json → List Char
  | .null => ['n', 'u', 'l', 'l']
  | .bool true => ['t', 'r', 'u', 'e']
  | .bool false => ['f', 'a', 'l', 's', 'e']
  | .int n => Number.integerText n
  | .float x => floatChars x
  | .str s => quotedChars s
  | .arr [] => ['[', ']']
  | .arr (item :: rest) => '[' :: (item.chars ++ itemChars rest)
  | .obj [] => ['\x7b', '\x7d']
  | .obj ((key, value) :: rest) =>
    '\x7b' :: (quotedChars key ++ ':' :: (value.chars ++ memberChars rest))

/-- The items that follow an item, and the end of their array. -/
def itemChars : List Json → List Char
  | [] => [']']
  | item :: rest => ',' :: (item.chars ++ itemChars rest)

/-- The members that follow a member, and the end of their object. -/
def memberChars : List (String × Json) → List Char
  | [] => ['\x7d']
  | (key, value) :: rest => ',' :: (quotedChars key ++ ':' :: (value.chars ++ memberChars rest))

end

/-- The compact text of a value. -/
def text (value : Json) : String := String.ofList value.chars

/-- The number of a value as a double. -/
def number? : Json → Option Float
  | .int n => some (Binary64.ofInt n)
  | .float x => some x
  | _ => none

/-- The text of a value that is one. -/
def str? : Json → Option String
  | .str s => some s
  | _ => none

/-- The items of a value that is an array. -/
def items? : Json → Option (List Json)
  | .arr items => some items
  | _ => none

/-- The member of an object with a name. -/
def member? (value : Json) (name : String) : Option Json :=
  match value with
  | .obj members => Entries.get? name members
  | _ => none

end Json

end RobotSoccer
