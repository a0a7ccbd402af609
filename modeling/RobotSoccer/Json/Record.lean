import RobotSoccer.Json.Codec

/-!
# Codecs for records

A record is described once by its members: their names, how their values are coded, and where
they belong in the value. The description gives both ways in which a record may be written, as
an object whose members come in any order and as an array of their values, and how it is
written here, as an object in the order of the description.
-/

namespace RobotSoccer

/-- One member of the records that describe values of `σ`. -/
structure Member (σ : Type) where
  /-- Its name in the object. -/
  name : String
  /-- The type of its values. -/
  Value : Type
  /-- How its values are coded. -/
  codec : Codec Value
  /-- Its value in a whole. -/
  get : σ → Value
  /-- A whole with another value of it. -/
  set : σ → Value → σ

/-- The description of a kind of record. -/
structure Record (σ : Type) where
  /-- The whole from which reading starts; members that are left out keep their value. -/
  blank : σ
  /-- The members in the order in which an array lists them. -/
  members : List (Member σ)
  /-- Whether every member must be there. -/
  complete : Bool

namespace Record

variable {σ : Type}

/-- The member with a name. -/
def member? (record : Record σ) (name : String) : Option (Member σ) :=
  record.members.find? fun member => member.name = name

/-- Takes in one member of an object, where `gathered` holds the whole so far and the names
that came. A member must not come twice, which shows at its name; a member that the record
does not know is passed over. -/
def takeMember (record : Record σ) (gathered : σ × List String) (name : String)
    (bytes : Bytes) : Reading (σ × List String) :=
  match record.member? name with
  | none => (Reader.valueOf Reader.skip bytes).map fun read => (gathered, read.2)
  | some member =>
    if name ∈ gathered.2 then .error .mismatch
    else
      (Reader.valueOf member.codec.read bytes).map fun read =>
        ((member.set gathered.1 read.1, name :: gathered.2), read.2)

/-- A record written as an object, behind its opening. -/
def readObject (record : Record σ) (bytes : Bytes) : Reading σ :=
  match Reader.members Reader.quotation record.takeMember (record.blank, []) bytes with
  | .error fault => .error fault
  | .ok ((whole, names), rest) =>
    if record.complete && !(record.members.all fun member => names.contains member.name) then
      .error .mismatch
    else .ok (whole, rest)

/-- The values of members in their order, and the end of their array. -/
def readPlaces (complete : Bool) : List (Member σ) → Bool → σ → Reader σ
  | [], _, whole, bytes => (Reader.closeArray bytes).map (whole, ·)
  | member :: more, first, whole, bytes =>
    match Reader.slot first member.codec.read bytes with
    | .error fault => .error fault
    | .ok (none, rest) =>
      if complete then .error .mismatch else readPlaces complete more false whole rest
    | .ok (some value, rest) =>
      readPlaces complete more false (member.set whole value) rest

/-- A record in either of its two forms. -/
def read (record : Record σ) (bytes : Bytes) : Reading σ :=
  match Reader.skipBlank bytes with
  | [] => .error .endOfInput
  | b :: rest =>
    if b = Ascii.openBrace then record.readObject rest
    else if b = Ascii.openBracket then
      readPlaces record.complete record.members true record.blank rest
    else .error (Reader.misfit (b :: rest))

/-- A record as an object in the order of its description. -/
def write (record : Record σ) (whole : σ) : Json :=
  .obj (record.members.map fun member => (member.name, member.codec.write (member.get whole)))

/-- The codec that a description gives. -/
def codec (record : Record σ) : Codec σ := ⟨record.read, record.write⟩

end Record

end RobotSoccer
