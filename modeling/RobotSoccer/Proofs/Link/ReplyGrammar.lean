import RobotSoccer.Link.Command
import RobotSoccer.Proofs.Json.Trees

/-!
# Which bytes are a reply

A reply is an array of a status and a message, with blanks between its parts and around it. Only
three spellings of a status count: the words for what is the case and what is not, and the digit
two. Everything else is malformed, and it is shown as it came unless it is an array of some value
and a text.
-/

namespace RobotSoccer

namespace Reply

open Reader

variable {bytes : Bytes}

/-- The bytes of a reply with a status that is written in one way and a message that may be spelled
in any. -/
inductive Written (status : Bytes) (message : String) : Bytes → Prop
  /-- An array of both with blanks around it. -/
  | array {before text inner behind : Bytes} (hbefore : Gap before) (hbehind : Gap behind)
    (htext : Json.TextForm message text) (h : Json.ArrayForm [status, text] inner) :
    Written status message (before ++ (inner ++ behind))

/-- The digit two. -/
def twoDigit : Bytes := [0x32]

/-- The bytes that a status which means something is written as. -/
def statuses : List Bytes := [Form.boolWord true, Form.boolWord false, twoDigit]

/-- A status and a message are read exactly where they are written as an array, down to the limit
of nesting. -/
theorem read_eq_ok_iff {value : Json} {message : String} :
    whole read bytes = .ok (value, message) ↔
      ∃ status, Form.json (nestingLimit - 1) value status ∧ Written status message bytes := by
  have hunderstands : Understands read (Form.two (.json (nestingLimit - 1)) .text) :=
    (understands_value _).two understands_text
  have hrecognizes : Recognizes read (Form.two (.json (nestingLimit - 1)) .text) :=
    (recognizes_value _).two recognizes_text
  rw [whole_eq_ok_iff hunderstands hrecognizes]
  constructor
  · rintro ⟨before, taken, behind, hbefore, hbehind, hpair, rfl⟩
    cases hpair with
    | array hstatus htext harray => exact ⟨_, hstatus, .array hbefore hbehind htext harray⟩
  · rintro ⟨status, hstatus, hwritten⟩
    cases hwritten with
    | array hbefore hbehind htext harray =>
      exact ⟨_, _, _, hbefore, hbehind, .array hstatus htext harray, rfl⟩

/-- How a reply is shown whose status means nothing. -/
def shown (value : Json) (message : String) : String :=
  "[" ++ value.text ++ ", " ++ Quoted.quote message ++ "]"

/-- What becomes of bytes, by what is read from them. -/
inductive Decoded (bytes : Bytes) : Except CommandError Outcome → Prop
  /-- They are no reply, and they are shown as they came. -/
  | unread {fault : Fault} (h : whole read bytes = .error fault) :
    Decoded bytes (.error (.malformedReply (Utf8.decodeLossy bytes)))
  /-- The command was applied. -/
  | applied {message : String} (h : whole read bytes = .ok (.bool true, message)) :
    Decoded bytes (.ok .applied)
  /-- The command failed. -/
  | failed {message : String} (h : whole read bytes = .ok (.bool false, message)) :
    Decoded bytes (.error (.failed message))
  /-- The command was not applied. -/
  | notApplied {message : String}
    (h : whole read bytes = .ok (.int notAppliedStatus, message)) :
    Decoded bytes (.ok (.notApplied message))
  /-- The status means nothing, and it is shown with the message. -/
  | other {value : Json} {message : String} (h : whole read bytes = .ok (value, message)) :
    Decoded bytes (.error (.malformedReply (shown value message)))

/-- Whatever the bytes are, one of these becomes of them. -/
theorem decoded (bytes : Bytes) : Decoded bytes (decode bytes) := by
  unfold decode
  cases hread : whole read bytes with
  | error fault => exact .unread hread
  | ok found =>
    obtain ⟨value, message⟩ := found
    cases value with
    | bool status =>
      cases status with
      | true => exact .applied hread
      | false => exact .failed hread
    | int n =>
      dsimp only
      by_cases htwo : n = notAppliedStatus
      · rw [if_pos htwo]
        exact .notApplied (htwo ▸ hread)
      · rw [if_neg htwo]
        exact .other hread
    | null => exact .other hread
    | float x => exact .other hread
    | str s => exact .other hread
    | arr items => exact .other hread
    | obj members => exact .other hread

/-- A status that is a truth value is written as its word. -/
theorem read_bool_iff {value : Bool} {message : String} :
    whole read bytes = .ok (.bool value, message) ↔
      Written (Form.boolWord value) message bytes := by
  rw [read_eq_ok_iff]
  constructor
  · rintro ⟨status, hstatus, hwritten⟩
    exact Form.json_bool_iff.1 hstatus ▸ hwritten
  · exact fun hwritten => ⟨_, Form.json_bool_iff.2 rfl, hwritten⟩

/-- The number two is written as the digit two and in no other way. -/
theorem json_two_iff {depth : Nat} {status : Bytes} :
    Form.json depth (.int notAppliedStatus) status ↔ status = twoDigit :=
  Form.json_int_iff (by decide) (by decide)

/-- The status of a command that was not applied is written as the digit two. -/
theorem read_two_iff {message : String} :
    whole read bytes = .ok (.int notAppliedStatus, message) ↔ Written twoDigit message bytes := by
  rw [read_eq_ok_iff]
  constructor
  · rintro ⟨status, hstatus, hwritten⟩
    exact json_two_iff.1 hstatus ▸ hwritten
  · exact fun hwritten => ⟨_, json_two_iff.2 rfl, hwritten⟩

/-- A reply says that a command was applied exactly when its status is the word for what is the
case. -/
theorem decode_eq_applied_iff :
    decode bytes = .ok .applied ↔ ∃ message, Written (Form.boolWord true) message bytes := by
  constructor
  · intro h
    have hdecoded := decoded bytes
    rw [h] at hdecoded
    cases hdecoded with
    | applied hread => exact ⟨_, read_bool_iff.1 hread⟩
  · rintro ⟨message, hwritten⟩
    have hread : whole read bytes = .ok (.bool true, message) := read_bool_iff.2 hwritten
    rw [decode, hread]

/-- A reply says why a command failed exactly when its status is the word for what is not. -/
theorem decode_eq_failed_iff {message : String} :
    decode bytes = .error (.failed message) ↔ Written (Form.boolWord false) message bytes := by
  constructor
  · intro h
    have hdecoded := decoded bytes
    rw [h] at hdecoded
    cases hdecoded with
    | failed hread => exact read_bool_iff.1 hread
  · intro hwritten
    have hread : whole read bytes = .ok (.bool false, message) := read_bool_iff.2 hwritten
    rw [decode, hread]

/-- A reply says why a command was not applied exactly when its status is the digit two. -/
theorem decode_eq_notApplied_iff {message : String} :
    decode bytes = .ok (.notApplied message) ↔ Written twoDigit message bytes := by
  constructor
  · intro h
    have hdecoded := decoded bytes
    rw [h] at hdecoded
    cases hdecoded with
    | notApplied hread => exact read_two_iff.1 hread
  · intro hwritten
    rw [decode, read_two_iff.2 hwritten]
    exact if_pos rfl

/-- The bytes of a reply whose status means something are not malformed. -/
theorem Written.decode_ne_malformed {status : Bytes} {message : String}
    (h : Written status message bytes) (hstatus : status ∈ statuses) (text : String) :
    decode bytes ≠ .error (.malformedReply text) := by
  intro hdecode
  simp only [statuses, List.mem_cons, List.not_mem_nil, or_false] at hstatus
  rcases hstatus with rfl | rfl | rfl
  · cases hdecode.symm.trans (decode_eq_applied_iff.2 ⟨message, h⟩)
  · cases hdecode.symm.trans (decode_eq_failed_iff.2 h)
  · cases hdecode.symm.trans (decode_eq_notApplied_iff.2 h)

/-- Bytes are malformed exactly when they are no reply with a status that means something. -/
theorem exists_malformed_iff :
    (∃ text, decode bytes = .error (.malformedReply text)) ↔
      ∀ status ∈ statuses, ∀ message, ¬Written status message bytes := by
  constructor
  · rintro ⟨text, hdecode⟩ status hstatus message hwritten
    exact hwritten.decode_ne_malformed hstatus text hdecode
  · intro hnone
    have hdecoded := decoded bytes
    generalize decode bytes = verdict at hdecoded
    cases hdecoded with
    | unread _ => exact ⟨_, rfl⟩
    | applied hread => exact absurd (read_bool_iff.1 hread) (hnone _ (by simp [statuses]) _)
    | failed hread => exact absurd (read_bool_iff.1 hread) (hnone _ (by simp [statuses]) _)
    | notApplied hread => exact absurd (read_two_iff.1 hread) (hnone _ (by simp [statuses]) _)
    | other _ => exact ⟨_, rfl⟩

/-- A reply with a status that is some value means something, or it is shown with the value and the
message. -/
theorem Written.decode_other {status : Bytes} {value : Json} {message : String}
    (h : Written status message bytes) (hstatus : Form.json (nestingLimit - 1) value status) :
    status ∈ statuses ∨ decode bytes = .error (.malformedReply (shown value message)) := by
  have hall := read_eq_ok_iff.2 ⟨status, hstatus, h⟩
  have hdecoded := decoded bytes
  generalize decode bytes = verdict at hdecoded
  cases hdecoded with
  | unread hread => cases hall.symm.trans hread
  | applied hread =>
    cases hall.symm.trans hread
    exact .inl (by simp [statuses, Form.json_bool_iff.1 hstatus])
  | failed hread =>
    cases hall.symm.trans hread
    exact .inl (by simp [statuses, Form.json_bool_iff.1 hstatus])
  | notApplied hread =>
    cases hall.symm.trans hread
    exact .inl (by simp [statuses, json_two_iff.1 hstatus])
  | other hread =>
    cases hall.symm.trans hread
    exact .inr rfl

/-- What the client takes a reply for, whatever bytes come. It was applied, it failed or it was not
applied exactly when the bytes are an array of the word or the digit that says so and of a text,
with blanks between the parts and around them. Everything else is malformed: an array of another
value and a text is shown with both, and bytes that are no such array are shown as they came. -/
theorem grammar_law (bytes : Bytes) :
    (decode bytes = .ok .applied ↔ ∃ message, Written (Form.boolWord true) message bytes) ∧
      (∀ message,
        decode bytes = .error (.failed message) ↔ Written (Form.boolWord false) message bytes) ∧
      (∀ message, decode bytes = .ok (.notApplied message) ↔ Written twoDigit message bytes) ∧
      ((∃ text, decode bytes = .error (.malformedReply text)) ↔
        ∀ status ∈ statuses, ∀ message, ¬Written status message bytes) ∧
      (∀ value status message, Form.json (nestingLimit - 1) value status →
        Written status message bytes →
          status ∈ statuses ∨ decode bytes = .error (.malformedReply (shown value message))) ∧
      ((∃ value status message, Form.json (nestingLimit - 1) value status ∧
          Written status message bytes) ∨
        decode bytes = .error (.malformedReply (Utf8.decodeLossy bytes))) := by
  refine ⟨decode_eq_applied_iff, fun _ => decode_eq_failed_iff, fun _ => decode_eq_notApplied_iff,
    exists_malformed_iff, fun value status message hstatus hwritten =>
      hwritten.decode_other hstatus, ?_⟩
  cases hread : whole read bytes with
  | error fault => exact .inr (by rw [decode, hread])
  | ok found =>
    obtain ⟨status, hstatus, hwritten⟩ := read_eq_ok_iff.1 hread
    exact .inl ⟨found.1, status, found.2, hstatus, hwritten⟩

end Reply

end RobotSoccer
