import RobotSoccer.Controller.Simulator
import RobotSoccer.Proofs.Json.Arrays
import RobotSoccer.Proofs.Json.Values

/-!
# Requests and replies are understood

The controller reads from the bytes of a request the order that the client encoded, and the
client decodes from each form of reply what the controller said. The texts in both may hold any
characters, and the numbers may be any doubles: the controller holds what their texts are read as.
-/

namespace RobotSoccer

open Reader

/-- A command as the controller reads it: its word and its numbers, null for those that are not
finite. -/
def Command.items : Command → List Json
  | .control v => [.str "control", .ofFloat v.forward, .ofFloat v.left, .ofFloat v.turn]
  | .kick power => [.str "kick", .ofFloat power]

/-- A velocity whose components are read from their own texts. -/
def Velocity.reread (v : Velocity Float) : Velocity Float :=
  ⟨Number.reread v.forward, Number.reread v.left, Number.reread v.turn⟩

/-- A command whose numbers are read from their own texts. -/
def Command.reread : Command → Command
  | .control v => .control v.reread
  | .kick power => .kick (Number.reread power)

/-- The numbers of a command. -/
def Command.doubles : Command → List Float
  | .control v => [v.forward, v.left, v.turn]
  | .kick power => [power]

/-- A command whose numbers are read back stays as it is. -/
theorem Command.reread_eq {command : Command} (h : ∀ x ∈ command.doubles, Number.ReadsBack x) :
    command.reread = command := by
  cases command with
  | control v =>
    obtain ⟨hforward, hothers⟩ := List.forall_mem_cons.1 h
    obtain ⟨hleft, hothers⟩ := List.forall_mem_cons.1 hothers
    rw [reread, Velocity.reread, hforward, hleft, List.forall_mem_singleton.1 hothers]
  | kick power => rw [reread, List.forall_mem_singleton.1 h]

/-- The items of a command are read as those of the command that is read from its own texts. -/
theorem Command.reads_items (depth : Nat) (command : Command) :
    Reads (Reader.list (value depth)) command.toJson.toBytes command.reread.items := by
  have hblanks := passesBlanks_value depth
  cases command with
  | control v =>
    have hturn := reads_value_float depth v.turn
    have hleft := reads_value_float depth v.left
    have hforward := reads_value_float depth v.forward
    have hword := reads_value_str depth "control"
    rw [toJson, Json.toBytes_arr]
    exact reads_list hblanks (.cons hword (.cons hforward (.cons hleft (.cons hturn .nil))))
      (Json.arrayForm_arrayBytes _)
  | kick power =>
    have hpower := reads_value_float depth power
    have hword := reads_value_str depth "kick"
    rw [toJson, Json.toBytes_arr]
    exact reads_list hblanks (.cons hword (.cons hpower .nil)) (Json.arrayForm_arrayBytes _)

namespace Request

/-- What the controller reads from the request of a client. -/
def order (key : String) (robot : RobotName) (command : Command) : Controller.Order :=
  ⟨key, robot.team.text, robot.number, command.reread.items⟩

/-- The bytes of a request are read as the order that it holds. -/
theorem readOrder_encode (key : String) (robot : RobotName) (command : Command) :
    Reader.whole Controller.readOrder (encode key robot command) =
      .ok (order key robot command) := by
  have hread := reads_four passesBlanks_text ((passesBlanks_natural _).map _)
    (passesBlanks_list _) (reads_text key) (reads_text robot.team.text)
    (reads_byte robot.number) (command.reads_items (nestingLimit - 2))
    (Json.arrayForm_arrayBytes _)
  have hbytes : encode key robot command =
      Json.arrayBytes [Utf8.encodeChars (Json.quotedChars key),
        Utf8.encodeChars (Json.quotedChars robot.team.text),
        (Codec.byte.write robot.number).toBytes, command.toJson.toBytes] := by
    rw [encode, toJson, Json.toBytes_arr]
    rfl
  rw [hbytes]
  exact (hread.map fun read : String × String × UInt8 × List Json =>
    (⟨read.1, read.2.1, read.2.2.1, read.2.2.2⟩ : Controller.Order)).whole

end Request

namespace Reply

/-- A status and a message are read as they were written. -/
theorem read_arr {status : Json} (message : String)
    (h : Reads (value (nestingLimit - 1)) status.toBytes status) :
    Reader.whole read (Json.toBytes (.arr [status, .str message])) = .ok (status, message) := by
  have hread := reads_two passesBlanks_text h (reads_text message) (Json.arrayForm_arrayBytes _)
  rw [Json.toBytes_arr]
  exact hread.whole

/-- The agreement of the controller is understood. -/
theorem decode_applied : decode Controller.applied.toBytes = .ok .applied := by
  rw [decode, Controller.applied, read_arr "ok" (reads_value_bool _ true)]

/-- A refusal is understood with its reason. -/
theorem decode_refusal (reason : String) :
    decode (Controller.refusal reason).toBytes = .error (.failed reason) := by
  rw [decode, Controller.refusal, read_arr reason (reads_value_bool _ false)]

/-- That a request was not applied is understood with its reason. -/
theorem decode_notApplied (reason : String) :
    decode (Controller.notApplied reason).toBytes = .ok (.notApplied reason) := by
  rw [decode, Controller.notApplied, read_arr reason (reads_value_int _ (by decide) (by decide))]
  exact if_pos rfl

end Reply

end RobotSoccer
