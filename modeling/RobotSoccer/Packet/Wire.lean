import RobotSoccer.Packet.Status

/-!
# The wire form of packets

How the parts of a state packet are written as JSON: positions and poses as arrays of their
coordinates, everything with named parts as a record.
-/

namespace RobotSoccer

/-- Displacements as arrays of two numbers. -/
def Vec.codec : Codec (Vec Float) where
  read bytes := (Reader.two Reader.double Reader.double bytes).map fun read =>
    (⟨read.1.1, read.1.2⟩, read.2)
  write v := .arr [.float v.x, .float v.y]

/-- Positions as arrays of two numbers. -/
def Point.codec : Codec (Point Float) where
  read bytes := (Reader.two Reader.double Reader.double bytes).map fun read =>
    (⟨read.1.1, read.1.2⟩, read.2)
  write p := .arr [.float p.x, .float p.y]

/-- Poses as arrays of three numbers. -/
def Pose.codec : Codec (Pose Float) where
  read bytes := (Reader.three Reader.double Reader.double Reader.double bytes).map fun read =>
    (Pose.of read.1.1 read.1.2.1 read.1.2.2, read.2)
  write pose := .arr [.float pose.position.x, .float pose.position.y, .float pose.orientation]

/-- Lights as arrays of three bytes. -/
def Light.codec : Codec Light where
  read bytes :=
    (Reader.three Codec.byte.read Codec.byte.read Codec.byte.read bytes).map fun read =>
      (⟨read.1.1, read.1.2.1, read.1.2.2⟩, read.2)
  write light := .arr [Codec.byte.write light.red, Codec.byte.write light.green,
    Codec.byte.write light.blue]

namespace Team

/-- The team that a text names. -/
def readWord (s : String) : Except Fault Team :=
  match ofText? s with
  | none => .error .mismatch
  | some team => .ok team

/-- A null, where nothing else belongs. -/
def readNull (bytes : Bytes) : Except Fault Bytes :=
  match Reader.skipBlank bytes with
  | [] => .error .endOfInput
  | b :: rest =>
    if b = Ascii.lowerN then Reader.word Reader.afterN rest
    else .error (Reader.misfit (b :: rest))

/-- A team as its word, or as an object whose only member has that word for a name and null
for a value. -/
def read (bytes : Bytes) : Except Fault (Team × Bytes) :=
  match Reader.skipBlank bytes with
  | [] => .error .endOfInput
  | b :: rest =>
    if b = Ascii.quote then do
      let (found, rest) ← Reader.quotation rest
      let team ← readWord found
      return (team, rest)
    else if b = Ascii.openBrace then do
      let (found, rest) ← Reader.key Reader.quotation rest
      let team ← readWord found
      let rest ← Reader.mark Ascii.colon rest
      let rest ← readNull rest
      let rest ← Reader.mark Ascii.closeBrace rest
      return (team, rest)
    else .error .malformed

/-- Teams by their words. -/
def codec : Codec Team := ⟨read, fun team => .str team.text⟩

end Team

/-- The record of a marker. Both members must be there. -/
def markerRecord : Record (Pose Float) where
  blank := Pose.of 0.0 0.0 0.0
  members := [
    ⟨"position", _, Point.codec, (·.position), fun pose p => { pose with position := p }⟩,
    ⟨"orientation", _, Codec.double, (·.orientation),
      fun pose angle => { pose with orientation := angle }⟩]
  complete := true

/-- The record of what the referee says about a robot. -/
def RobotStatus.record : Record RobotStatus where
  blank := .blank
  members := [
    ⟨"penalized", _, Codec.boolean, (·.penalized), fun s v => { s with penalized := v }⟩,
    ⟨"penalized_remaining", _, Codec.double.nullable, (·.penalizedRemaining),
      fun s v => { s with penalizedRemaining := v }⟩,
    ⟨"penalized_reason", _, Codec.text.nullable, (·.penalizedReason),
      fun s v => { s with penalizedReason := v }⟩,
    ⟨"preempted", _, Codec.boolean, (·.preempted), fun s v => { s with preempted := v }⟩,
    ⟨"preemption_reasons", _, Codec.text.list, (·.preemptionReasons),
      fun s v => { s with preemptionReasons := v }⟩]
  complete := false

/-- The record of what the referee says about a team. -/
def TeamStatus.record : Record TeamStatus where
  blank := .blank
  members := [
    ⟨"name", _, Codec.text, (·.name), fun s v => { s with name := v }⟩,
    ⟨"score", _, Codec.count, (·.score), fun s v => { s with score := v }⟩,
    ⟨"x_positive", _, Codec.boolean, (·.xPositive), fun s v => { s with xPositive := v }⟩,
    ⟨"robots", _, RobotStatus.record.codec.dict, (·.robots),
      fun s v => { s with robots := v }⟩]
  complete := false

/-- The record of what the referee says about the match. -/
def MatchStatus.record : Record MatchStatus where
  blank := .blank
  members := [
    ⟨"game_is_running", _, Codec.boolean, (·.gameIsRunning),
      fun s v => { s with gameIsRunning := v }⟩,
    ⟨"game_paused", _, Codec.boolean, (·.gamePaused), fun s v => { s with gamePaused := v }⟩,
    ⟨"halftime_is_running", _, Codec.boolean, (·.halftimeIsRunning),
      fun s v => { s with halftimeIsRunning := v }⟩,
    ⟨"timer", _, Codec.double, (·.timer), fun s v => { s with timer := v }⟩,
    ⟨"game_state_msg", _, Codec.text, (·.message), fun s v => { s with message := v }⟩,
    ⟨"teams", _, TeamStatus.record.codec.dict, (·.teams), fun s v => { s with teams := v }⟩]
  complete := false

/-- The record of a packet. -/
def Packet.record : Record Packet where
  blank := .blank
  members := [
    ⟨"markers", _, markerRecord.codec.dict, (·.markers), fun s v => { s with markers := v }⟩,
    ⟨"ball", _, Point.codec.nullable, (·.ball), fun s v => { s with ball := v }⟩,
    ⟨"referee", _, MatchStatus.record.codec, (·.referee), fun s v => { s with referee := v }⟩,
    ⟨"leds", _, Light.codec.dict, (·.lights), fun s v => { s with lights := v }⟩,
    ⟨"simulated", _, Codec.boolean, (·.simulated), fun s v => { s with simulated := v }⟩]
  complete := false

/-- The packet that some bytes spell. -/
def Packet.decode (bytes : Bytes) : Except Fault Packet := Packet.record.codec.decode bytes

/-- The bytes of a packet. -/
def Packet.encode (packet : Packet) : Bytes := Packet.record.codec.encode packet

end RobotSoccer
