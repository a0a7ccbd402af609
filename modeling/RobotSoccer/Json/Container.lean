import RobotSoccer.Json.Numeral
import RobotSoccer.Json.Quotation

/-!
# Reading arrays and objects

Arrays and objects are read item by item, whatever their items are. A `slot` is a place in an
array where an item or the end may come; `items` and `members` run over all places. The rule
for a value of another type than the one asked for is here too: `misfit`.
-/

namespace RobotSoccer.Reader

variable {α κ σ : Type}

/-- A mismatch, unless reading what is there meets a fault first. -/
def mismatchAfter {β : Type} : Except Fault β → Fault
  | .error fault => fault
  | .ok _ => .mismatch

/-- The fault of a value that has the wrong type. A scalar is read to its end first, which can
show another fault; of an array or an object only the opening is seen. -/
def misfit (bytes : Bytes) : Fault :=
  match skipBlank bytes with
  | [] => .endOfInput
  | b :: rest =>
    if b = Ascii.lowerN then mismatchAfter (word afterN rest)
    else if b = Ascii.lowerT then mismatchAfter (word afterT rest)
    else if b = Ascii.lowerF then mismatchAfter (word afterF rest)
    else if startsNumber b then mismatchAfter (number (b :: rest))
    else if b = Ascii.quote then mismatchAfter (quotation rest)
    else if b = Ascii.openBracket ∨ b = Ascii.openBrace then .mismatch
    else .malformed

/-- The rest behind one certain opening byte. -/
def opening (byte : UInt8) (bytes : Bytes) : Except Fault Bytes :=
  match skipBlank bytes with
  | [] => .error .endOfInput
  | b :: rest => if b = byte then .ok rest else .error (misfit (b :: rest))

/-- A place in an array: the item that stands there, or none at the end, which is left to be
read. Every place but the first has a comma before its item. -/
def slot (first : Bool) (item : Reader α) (bytes : Bytes) : Reading (Option α) :=
  match skipBlank bytes with
  | [] => .error .endOfInput
  | b :: rest =>
    if b = Ascii.closeBracket then .ok (none, b :: rest)
    else if first then
      match item (b :: rest) with
      | .error fault => .error fault
      | .ok (value, rest) => .ok (some value, rest)
    else if b = Ascii.comma then
      match item rest with
      | .error fault => .error fault
      | .ok (value, rest) => .ok (some value, rest)
    else .error .malformed

/-- A place in an array that must hold an item. -/
def place (first : Bool) (item : Reader α) (bytes : Bytes) : Reading α :=
  match slot first item bytes with
  | .error fault => .error fault
  | .ok (none, _) => .error .mismatch
  | .ok (some value, rest) => .ok (value, rest)

/-- The rest behind the end of an array. -/
def closeArray (bytes : Bytes) : Except Fault Bytes := mark Ascii.closeBracket bytes

/-- The items of an array from some place on, and the rest behind its end. The count bounds
the places; no array has more of them than bytes. -/
def itemsFrom (item : Reader α) : Nat → Bool → Reader (List α)
  | 0, _, _ => .error .malformed
  | count + 1, first, bytes =>
    match slot first item bytes with
    | .error fault => .error fault
    | .ok (none, rest) =>
      match closeArray rest with
      | .error fault => .error fault
      | .ok rest => .ok ([], rest)
    | .ok (some value, rest) =>
      match itemsFrom item count false rest with
      | .error fault => .error fault
      | .ok (values, rest) => .ok (value :: values, rest)

/-- All items of an array, behind its opening, and the rest behind its end. -/
def items (item : Reader α) (bytes : Bytes) : Reading (List α) :=
  itemsFrom item (bytes.length + 1) true bytes

/-- The name of a member, and what follows it. -/
def key (name : Reader κ) (bytes : Bytes) : Reading κ :=
  match skipBlank bytes with
  | [] => .error .endOfInput
  | b :: rest => if b = Ascii.quote then name rest else .error .malformed

/-- The members of an object from some place on. `entry` takes in the member with a name, from
what follows the name, and changes what has been gathered. -/
def membersFrom (name : Reader κ) (entry : σ → κ → Reader σ) : Nat → Bool → σ → Reader σ
  | 0, _, _, _ => .error .malformed
  | count + 1, first, gathered, bytes =>
    match skipBlank bytes with
    | [] => .error .endOfInput
    | b :: rest =>
      if b = Ascii.closeBrace then .ok (gathered, rest)
      else
        let named : Reading κ :=
          if first then key name (b :: rest)
          else if b = Ascii.comma then key name rest
          else .error .malformed
        match named with
        | .error fault => .error fault
        | .ok (found, rest) =>
          match entry gathered found rest with
          | .error fault => .error fault
          | .ok (gathered, rest) => membersFrom name entry count false gathered rest

/-- All members of an object, behind its opening, and the rest behind its end. -/
def members (name : Reader κ) (entry : σ → κ → Reader σ) (start : σ) (bytes : Bytes) :
    Reading σ :=
  membersFrom name entry (bytes.length + 1) true start bytes

/-- The value of a member, behind the colon that leads to it. -/
def valueOf (value : Reader α) (bytes : Bytes) : Reading α :=
  match mark Ascii.colon bytes with
  | .error fault => .error fault
  | .ok rest => value rest

end RobotSoccer.Reader
