import RobotSoccer.Proofs.Controller.Ways
import RobotSoccer.Proofs.Link.RoundTrip
import RobotSoccer.Session.Client

/-!
# Replies are understood

Whatever bytes a request is made of, the client makes of the text of the reply what its status and
its message say. The message may quote the request or name the reasons of a referee, so it may hold
any characters.
-/

namespace RobotSoccer

/-- What a reply says about a command, read off its status and its message. -/
inductive Reply.Means : Json → Except CommandError Outcome → Prop
  /-- True: the command was applied, whatever the message is. -/
  | applied (message : String) : Means (.arr [.bool true, .str message]) (.ok .applied)
  /-- False: the command failed for this reason. -/
  | failed (reason : String) : Means (.arr [.bool false, .str reason]) (.error (.failed reason))
  /-- Two: the command was understood but not applied for this reason. -/
  | notApplied (reason : String) :
    Means (.arr [.int notAppliedStatus, .str reason]) (.ok (.notApplied reason))

/-- The client decodes from the text of a reply what the reply says. -/
theorem Reply.Means.decode_toBytes {reply : Json} {verdict : Except CommandError Outcome}
    (h : Means reply verdict) : decode reply.toBytes = verdict := by
  cases h with
  | applied message => rw [decode, read_arr message (Reader.reads_value_bool _ true)]
  | failed reason => exact decode_refusal reason
  | notApplied reason => exact decode_notApplied reason

/-- No reply says that it was not understood. -/
theorem Reply.Means.ne_malformedReply {reply : Json} {verdict : Except CommandError Outcome}
    (h : Means reply verdict) (text : String) : verdict ≠ .error (.malformedReply text) := by
  cases h with
  | applied message => exact nofun
  | failed reason => exact nofun
  | notApplied reason => exact nofun

namespace Controller

/-- What the answer to a request comes to: its reply says that the command was applied, and the
controller has noted a command, or it says something else, and the controller is as it was. -/
theorem answer_means (controller : Controller) (bytes : Bytes) :
    (Reply.Means (controller.answer bytes).1 (.ok .applied) ∧
      ∃ noted, (controller.answer bytes).2.received = controller.received ++ [noted]) ∨
    ∃ verdict, Reply.Means (controller.answer bytes).1 verdict ∧ verdict ≠ .ok .applied ∧
      (controller.answer bytes).2 = controller := by
  have hfailed (reason : String) :
      (.error (.failed reason) : Except CommandError Outcome) ≠ .ok .applied := by
    intro h
    cases h
  have hrefused (reason : String) :
      (.ok (.notApplied reason) : Except CommandError Outcome) ≠ .ok .applied := by
    intro h
    cases h
  rw [answer]
  cases Reader.whole readOrder bytes with
  | error fault => exact .inr ⟨_, .failed _, hfailed _, rfl⟩
  | ok order =>
    have hway := obey_way controller order
    dsimp only
    generalize controller.obey order = ended at hway ⊢
    cases hway with
    | unknownRobot hname => exact .inr ⟨_, .failed _, hfailed _, rfl⟩
    | wrongKey robot hname hkey => exact .inr ⟨_, .failed _, hfailed _, rfl⟩
    | preempted robot hfor status hstatus => exact .inr ⟨_, .notApplied _, hrefused _, rfl⟩
    | unknownCommand robot hfor hfree hcommand => exact .inr ⟨_, .notApplied _, hrefused _, rfl⟩
    | carriedOut robot hfor hfree velocity hcommand => exact .inl ⟨.applied _, _, rfl⟩

/-- Every reply of the controller is understood, whatever it holds and whatever bytes come in: the
client decodes from its text what the reply says, and never takes it for malformed. The client
believes that a command was applied exactly when the controller has noted one, and otherwise the
controller is as it was. -/
theorem replies_understood (controller : Controller) (bytes : Bytes) :
    Reply.Means (controller.answer bytes).1
        (Reply.decode (Server.simulated.answer controller bytes).1) ∧
      (∀ text,
        Reply.decode (Server.simulated.answer controller bytes).1 ≠ .error (.malformedReply text)) ∧
      (Reply.decode (Server.simulated.answer controller bytes).1 = .ok .applied →
        ∃ noted, (controller.answer bytes).2.received = controller.received ++ [noted]) ∧
      (Reply.decode (Server.simulated.answer controller bytes).1 ≠ .ok .applied →
        (controller.answer bytes).2 = controller) := by
  have htext : (Server.simulated.answer controller bytes).1 =
      (controller.answer bytes).1.toBytes := rfl
  rw [htext]
  rcases controller.answer_means bytes with ⟨hmeans, hnoted⟩ | ⟨verdict, hmeans, hother, hsame⟩
  · have hdecode := hmeans.decode_toBytes
    rw [hdecode]
    exact ⟨hmeans, hmeans.ne_malformedReply, fun _ => hnoted, fun h => absurd rfl h⟩
  · have hdecode := hmeans.decode_toBytes
    rw [hdecode]
    exact ⟨hmeans, hmeans.ne_malformedReply, fun h => absurd h hother, fun _ => hsame⟩

end Controller

end RobotSoccer
