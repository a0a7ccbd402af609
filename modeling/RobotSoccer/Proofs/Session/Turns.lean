import Mathlib.Data.List.Basic
import Mathlib.Data.List.Nodup
import RobotSoccer.Session.Link

/-!
# Turns on the control link

Whatever the schedule, the exchanges use the link one after the other: a turn is one request and the
message that came back for it, and the socket sees whole turns and at most the request of the next
one. Every exchange has one turn, which has come when it is done. The invariant `Orderly` ties the
phases of the calls to the line, to the wire and to the turns.
-/

namespace RobotSoccer

/-- A turn on the link: a call, its request, and the message that came back. -/
structure Turn where
  /-- The number of the call. -/
  call : Nat
  /-- The request. -/
  request : Bytes
  /-- The message. -/
  message : List Bytes

namespace Turn

/-- What the socket sees of a turn. -/
def traffic (turn : Turn) : List Traffic :=
  [.sent turn.call turn.request, .received turn.call turn.message]

/-- What the far end sees of a turn. -/
def service (turn : Turn) : Bytes × List Bytes := (turn.request, turn.message)

/-- The turns of one call. -/
def own (turns : List Turn) (id : Nat) : List Turn := turns.filter (·.call = id)

variable {turns : List Turn} {turn : Turn} {id : Nat}

/-- A turn of another call is not one's own. -/
theorem own_append_ne (h : turn.call ≠ id) : own (turns ++ [turn]) id = own turns id := by
  rw [own, own, List.filter_append, List.filter_cons_of_neg (by simpa using h), List.filter_nil,
    List.append_nil]

/-- A turn of one's own comes last. -/
theorem own_append_self (h : turn.call = id) : own (turns ++ [turn]) id = own turns id ++ [turn] := by
  rw [own, own, List.filter_append, List.filter_cons_of_pos (by simpa using h), List.filter_nil]

/-- A call that was never called for has no turns. -/
theorem own_eq_nil {count : Nat} (h : ∀ turn ∈ turns, turn.call < count) (hid : count ≤ id) :
    own turns id = [] := by
  refine List.filter_eq_nil_iff.2 fun turn hturn hown => ?_
  have hlt := h turn hturn
  have heq : turn.call = id := by simpa using hown
  omega

end Turn

namespace Link

variable {σ : Type} {peer : Peer σ} {link next : Link σ} {turns : List Turn}
  {current : Option (Nat × Bytes)} {id : Nat} {call : Call}

/-- What is on the wire of a link when these turns are over: nothing, or the request of the current
exchange, or the message that came back for it. -/
inductive Wire (link : Link σ) (turns : List Turn) : Option (Nat × Bytes) → Prop
  /-- Nothing is on its way. -/
  | idle (hrequests : link.requests = []) (hreplies : link.replies = [])
      (htraffic : link.traffic = turns.flatMap Turn.traffic)
      (hserved : link.served = turns.map Turn.service) : Wire link turns none
  /-- A request was sent and not answered. -/
  | asked {id : Nat} {request : Bytes} (hrequests : link.requests = [request])
      (hreplies : link.replies = [])
      (htraffic : link.traffic = turns.flatMap Turn.traffic ++ [.sent id request])
      (hserved : link.served = turns.map Turn.service) : Wire link turns (some (id, request))
  /-- A request was answered with a message that was not received. -/
  | answered {id : Nat} {request : Bytes} {message : List Bytes} (hrequests : link.requests = [])
      (hreplies : link.replies = [message])
      (htraffic : link.traffic = turns.flatMap Turn.traffic ++ [.sent id request])
      (hserved : link.served = turns.map Turn.service ++ [(request, message)]) :
      Wire link turns (some (id, request))

/-- How the phase of an exchange goes with the line, the current exchange and its own turns. -/
def Fits (line : List Nat) (current : Option (Nat × Bytes)) (own : List Turn) (id : Nat)
    (request : Bytes) : Phase → Prop
  | .begun => id ∉ line ∧ own = []
  | .queued => id ∈ line ∧ own = []
  | .sent => line.head? = some id ∧ current = some (id, request) ∧ own = []
  | .received message => line.head? = some id ∧ own = [⟨id, request, message⟩]
  | .done outcome =>
    id ∉ line ∧ ∃ message, own = [⟨id, request, message⟩] ∧ outcome = Reply.decodeMessage message

/-- A link on which these turns are over and this exchange is between its request and its reply. -/
structure Orderly (link : Link σ) (turns : List Turn) (current : Option (Nat × Bytes)) : Prop where
  /-- The wire holds what is left of the current exchange. -/
  wire : Wire link turns current
  /-- Nobody is in line twice. -/
  nodup : link.line.Nodup
  /-- Only exchanges that were called for are in line. -/
  inLine : ∀ id ∈ link.line, id < link.calls.length
  /-- Only exchanges that were called for had turns. -/
  known : ∀ turn ∈ turns, turn.call < link.calls.length
  /-- The current exchange has sent its request. -/
  sender : ∀ id request, current = some (id, request) →
    ∃ call, link.calls[id]? = some call ∧ call.phase = .sent
  /-- Every exchange is where its phase says. -/
  fits : ∀ (id : Nat) (call : Call), link.calls[id]? = some call →
    Fits link.line current (Turn.own turns id) id (call.request link.key) call.phase
  /-- A caller was told the outcome of its own exchange. -/
  told : ∀ (id : Nat) (call : Call), link.calls[id]? = some call →
    ∀ outcome, call.caller = .told outcome → call.phase = .done outcome

/-- A link at its start is orderly. -/
theorem Orderly.fresh (key : String) (far : σ) : Orderly (fresh key far) [] none where
  wire := .idle rfl rfl rfl rfl
  nodup := List.nodup_nil
  inLine _ hid := nomatch hid
  known _ hturn := nomatch hturn
  sender _ _ h := nomatch h
  fits _ _ h := nomatch h
  told _ _ h := nomatch h

/-- What an exchange can do next. -/
theorem proceed_cases (h : link.proceed id = some next) :
    ∃ call, link.calls[id]? = some call ∧
      ((call.phase = .begun ∧ next = link.ask id call) ∨
        (call.phase = .queued ∧ link.send id call = some next) ∨
        (call.phase = .sent ∧ link.receive id call = some next) ∨
        ∃ message, call.phase = .received message ∧ next = link.giveBack id call message) := by
  unfold proceed at h
  cases hcall : link.calls[id]? with
  | none => rw [hcall] at h; cases h
  | some call =>
    rw [hcall] at h
    dsimp only at h
    refine ⟨call, rfl, ?_⟩
    cases hphase : call.phase with
    | begun =>
      rw [hphase] at h
      exact .inl ⟨rfl, (Option.some.inj h).symm⟩
    | queued =>
      rw [hphase] at h
      exact .inr (.inl ⟨rfl, h⟩)
    | sent =>
      rw [hphase] at h
      exact .inr (.inr (.inl ⟨rfl, h⟩))
    | received message =>
      rw [hphase] at h
      exact .inr (.inr (.inr ⟨message, rfl, (Option.some.inj h).symm⟩))
    | done outcome =>
      rw [hphase] at h
      cases h

/-- What sending a request takes and does. -/
theorem send_cases (h : link.send id call = some next) :
    link.line.head? = some id ∧
      next = { link.setCall id { call with phase := .sent } with
        requests := link.requests ++ [call.request link.key]
        traffic := link.traffic ++ [.sent id (call.request link.key)] } := by
  unfold send at h
  by_cases hhead : link.line.head? = some id
  · rw [if_pos hhead] at h
    exact ⟨hhead, (Option.some.inj h).symm⟩
  · rw [if_neg hhead] at h
    cases h

/-- What receiving a message takes and does. -/
theorem receive_cases (h : link.receive id call = some next) :
    ∃ message more, link.replies = message :: more ∧
      next = { link.setCall id { call with phase := .received message } with
        replies := more
        traffic := link.traffic ++ [.received id message] } := by
  unfold receive at h
  cases hreplies : link.replies with
  | nil => rw [hreplies] at h; cases h
  | cons message more =>
    rw [hreplies] at h
    exact ⟨message, more, rfl, (Option.some.inj h).symm⟩

/-- What an exchange that goes on does to the calls: its own, which was not done, goes into another
phase. -/
theorem calls_of_proceed (h : link.proceed id = some next) :
    ∃ call phase, link.calls[id]? = some call ∧ (∀ outcome, call.phase ≠ .done outcome) ∧
      next.calls = link.calls.set id { call with phase := phase } := by
  obtain ⟨call, hcall, hcases⟩ := proceed_cases h
  rcases hcases with ⟨hphase, rfl⟩ | ⟨hphase, hsend⟩ | ⟨hphase, hreceive⟩ | ⟨message, hphase, rfl⟩
  · exact ⟨call, _, hcall, fun _ => ne_of_eq_of_ne hphase nofun, rfl⟩
  · obtain ⟨-, rfl⟩ := send_cases hsend
    exact ⟨call, _, hcall, fun _ => ne_of_eq_of_ne hphase nofun, rfl⟩
  · obtain ⟨message, more, -, rfl⟩ := receive_cases hreceive
    exact ⟨call, _, hcall, fun _ => ne_of_eq_of_ne hphase nofun, rfl⟩
  · exact ⟨call, _, hcall, fun _ => ne_of_eq_of_ne hphase nofun, rfl⟩

/-- What an answer takes and does. -/
theorem answer_cases (h : link.answer peer = some next) :
    ∃ request more, link.requests = request :: more ∧
      next = { link with
        far := (peer.answer link.far request).2
        requests := more
        replies := link.replies ++ [(peer.answer link.far request).1]
        served := link.served ++ [(request, (peer.answer link.far request).1)] } := by
  unfold answer at h
  cases hrequests : link.requests with
  | nil => rw [hrequests] at h; cases h
  | cons request more =>
    rw [hrequests] at h
    exact ⟨request, more, rfl, (Option.some.inj h).symm⟩

/-- What leaving takes and does. -/
theorem leave_cases (h : link.leave id = some next) :
    ∃ call, link.calls[id]? = some call ∧ call.caller = .waiting ∧
      next = link.setCall id { call with caller := .gone } := by
  unfold leave at h
  cases hcall : link.calls[id]? with
  | none => rw [hcall] at h; cases h
  | some call =>
    rw [hcall] at h
    dsimp only at h
    cases hcaller : call.caller with
    | waiting =>
      rw [hcaller] at h
      exact ⟨call, rfl, hcaller, (Option.some.inj h).symm⟩
    | gone => rw [hcaller] at h; cases h
    | told => rw [hcaller] at h; cases h

/-- What being told an outcome takes and does. -/
theorem take_cases {outcome : Except CommandError Outcome} (h : link.take id = some (outcome, next)) :
    ∃ call, link.calls[id]? = some call ∧ call.phase = .done outcome ∧ call.caller = .waiting ∧
      next = link.setCall id { call with caller := .told outcome } := by
  unfold take at h
  cases hcall : link.calls[id]? with
  | none => rw [hcall] at h; cases h
  | some call =>
    rw [hcall] at h
    dsimp only at h
    cases hphase : call.phase with
    | done found =>
      cases hcaller : call.caller with
      | waiting =>
        rw [hphase, hcaller] at h
        obtain ⟨rfl, rfl⟩ := Prod.mk.inj (Option.some.inj h)
        exact ⟨call, rfl, hphase, hcaller, by rw [hphase]⟩
      | gone => rw [hphase, hcaller] at h; cases h
      | told => rw [hphase, hcaller] at h; cases h
    | begun => rw [hphase] at h; cases h
    | queued => rw [hphase] at h; cases h
    | sent => rw [hphase] at h; cases h
    | received => rw [hphase] at h; cases h

/-- An exchange stays where its phase says when its place in the line, its request on the wire and
its turns stay. -/
theorem Fits.imp {line other : List Nat} {before after : Option (Nat × Bytes)} {own : List Turn}
    {request : Bytes} {phase : Phase} (h : Fits line before own id request phase)
    (hmem : id ∈ other ↔ id ∈ line) (hhead : line.head? = some id → other.head? = some id)
    (hcurrent : line.head? = some id → before = some (id, request) → after = some (id, request)) :
    Fits other after own id request phase := by
  cases phase with
  | begun => exact ⟨fun hin => h.1 (hmem.1 hin), h.2⟩
  | queued => exact ⟨hmem.2 h.1, h.2⟩
  | sent => exact ⟨hhead h.1, hcurrent h.1 h.2.1, h.2.2⟩
  | received => exact ⟨hhead h.1, h.2⟩
  | done => exact ⟨fun hin => h.1 (hmem.1 hin), h.2⟩

/-- A property of all numbered calls is checked at the call that was set and at the others. -/
theorem forall_set {calls : List Call} {good : Nat → Call → Prop} {other : Call}
    (hself : good id other)
    (hothers : ∀ (j : Nat) (call : Call), j ≠ id → calls[j]? = some call → good j call) :
    ∀ (j : Nat) (call : Call), (calls.set id other)[j]? = some call → good j call := by
  intro j call hcall
  by_cases hj : id = j
  · subst hj
    rw [List.getElem?_set_self'] at hcall
    obtain ⟨-, -, rfl⟩ := Option.map_eq_some_iff.1 hcall
    exact hself
  · rw [List.getElem?_set_ne hj] at hcall
    exact hothers j call (Ne.symm hj) hcall

/-- A property of all numbered calls is checked at the new call and at the others. -/
theorem forall_append {calls : List Call} {good : Nat → Call → Prop} {new : Call}
    (hnew : good calls.length new)
    (hothers : ∀ (j : Nat) (call : Call), calls[j]? = some call → good j call) :
    ∀ (j : Nat) (call : Call), (calls ++ [new])[j]? = some call → good j call := by
  intro j call hcall
  rcases Nat.lt_trichotomy j calls.length with hlt | rfl | hgt
  · rw [List.getElem?_append_left hlt] at hcall
    exact hothers j call hcall
  · rw [List.getElem?_concat_length] at hcall
    exact Option.some.inj hcall ▸ hnew
  · rw [List.getElem?_eq_none (by rw [List.length_append]; exact hgt)] at hcall
    cases hcall

/-- The current exchange has the link. -/
theorem Orderly.head (h : Orderly link turns current) {request : Bytes}
    (hcurrent : current = some (id, request)) : link.line.head? = some id := by
  obtain ⟨call, hcall, hphase⟩ := h.sender id request hcurrent
  have hfits := h.fits id call hcall
  rw [hphase] at hfits
  exact hfits.1

/-- Nothing is under way while the exchange that has the link has not sent its request, or has
received the message. -/
theorem Orderly.current_eq_none (h : Orderly link turns current) (hcall : link.calls[id]? = some call)
    (hhead : link.line.head? = some id) (hphase : call.phase ≠ .sent) : current = none := by
  cases hcurrent : current with
  | none => rfl
  | some found =>
    obtain ⟨other, request⟩ := found
    have hother := h.head hcurrent
    obtain rfl : id = other := Option.some.inj (hhead.symm.trans hother)
    obtain ⟨sender, hsender, hsent⟩ := h.sender id request hcurrent
    obtain rfl : call = sender := Option.some.inj (hcall.symm.trans hsender)
    exact absurd hsent hphase

/-- The wire does not depend on who called for what. -/
theorem Wire.of_eq (h : Wire link turns current) (hrequests : next.requests = link.requests)
    (hreplies : next.replies = link.replies) (htraffic : next.traffic = link.traffic)
    (hserved : next.served = link.served) : Wire next turns current := by
  cases h with
  | idle h₁ h₂ h₃ h₄ =>
    exact .idle (hrequests.trans h₁) (hreplies.trans h₂) (htraffic.trans h₃) (hserved.trans h₄)
  | asked h₁ h₂ h₃ h₄ =>
    exact .asked (hrequests.trans h₁) (hreplies.trans h₂) (htraffic.trans h₃) (hserved.trans h₄)
  | answered h₁ h₂ h₃ h₄ =>
    exact .answered (hrequests.trans h₁) (hreplies.trans h₂) (htraffic.trans h₃) (hserved.trans h₄)

/-- A new call keeps a link orderly. -/
theorem Orderly.of_call (h : Orderly link turns current) (robot : RobotName) (command : Command) :
    Orderly (link.call robot command) turns current where
  wire := h.wire.of_eq rfl rfl rfl rfl
  nodup := h.nodup
  inLine id hid := by
    rw [Link.call, List.length_append]
    exact Nat.lt_add_right _ (h.inLine id hid)
  known turn hturn := by
    rw [Link.call, List.length_append]
    exact Nat.lt_add_right _ (h.known turn hturn)
  sender id request hcurrent := by
    obtain ⟨call, hcall, hphase⟩ := h.sender id request hcurrent
    have hlt := (List.getElem?_eq_some_iff.1 hcall).1
    exact ⟨call, (List.getElem?_append_left hlt).trans hcall, hphase⟩
  fits := by
    refine forall_append ⟨fun hin => ?_, Turn.own_eq_nil h.known (Nat.le_refl _)⟩ h.fits
    exact Nat.lt_irrefl _ (h.inLine _ hin)
  told := forall_append (fun outcome htold => nomatch htold) h.told

/-- A call whose caller changes keeps a link orderly, unless the caller was told another outcome. -/
theorem Orderly.of_caller (h : Orderly link turns current) (hcall : link.calls[id]? = some call)
    {caller : Caller} (htold : ∀ outcome, caller = .told outcome → call.phase = .done outcome) :
    Orderly (link.setCall id { call with caller := caller }) turns current where
  wire := h.wire.of_eq rfl rfl rfl rfl
  nodup := h.nodup
  inLine id hid := by
    rw [setCall, List.length_set]
    exact h.inLine id hid
  known turn hturn := by
    rw [setCall, List.length_set]
    exact h.known turn hturn
  sender other request hcurrent := by
    obtain ⟨sender, hsender, hphase⟩ := h.sender other request hcurrent
    by_cases hid : id = other
    · subst hid
      obtain rfl : call = sender := Option.some.inj (hcall.symm.trans hsender)
      exact ⟨_, List.getElem?_set_self (List.getElem?_eq_some_iff.1 hcall).1, hphase⟩
    · exact ⟨sender, (List.getElem?_set_ne hid).trans hsender, hphase⟩
  fits := forall_set (h.fits id call hcall) fun j other _ => h.fits j other
  told := forall_set htold fun j other _ => h.told j other

/-- An exchange that goes on into another phase keeps a link orderly when the phase fits, the others
stay in line as they were, and what is under way is under way for it or was so before. -/
theorem Orderly.of_phase {turns' : List Turn} {current' : Option (Nat × Bytes)} {phase : Phase}
    (h : Orderly link turns current) (hcall : link.calls[id]? = some call)
    (hfresh : ∀ outcome, call.phase ≠ .done outcome) (hkey : next.key = link.key)
    (hcalls : next.calls = link.calls.set id { call with phase := phase })
    (hwire : Wire next turns' current') (hnodup : next.line.Nodup)
    (hline : ∀ j, j ≠ id → (j ∈ next.line ↔ j ∈ link.line))
    (hhead : ∀ j, j ≠ id → link.line.head? = some j → next.line.head? = some j)
    (hcurrent : ∀ j request, j ≠ id → (current' = some (j, request) ↔ current = some (j, request)))
    (hsent : ∀ request, current' = some (id, request) → phase = .sent)
    (hown : ∀ j, j ≠ id → Turn.own turns' j = Turn.own turns j)
    (hknown : ∀ turn ∈ turns', turn ∈ turns ∨ turn.call = id)
    (hfits : Fits next.line current' (Turn.own turns' id) id (call.request link.key) phase) :
    Orderly next turns' current' := by
  have hlt := (List.getElem?_eq_some_iff.1 hcall).1
  have hlength : next.calls.length = link.calls.length := by rw [hcalls, List.length_set]
  refine ⟨hwire, hnodup, ?_, ?_, ?_, ?_, ?_⟩
  · intro j hj
    rw [hlength]
    by_cases hid : j = id
    · exact hid ▸ hlt
    · exact h.inLine j ((hline j hid).1 hj)
  · intro turn hturn
    rw [hlength]
    rcases hknown turn hturn with hold | hnew
    · exact h.known turn hold
    · exact hnew ▸ hlt
  · intro j request hj
    rw [hcalls]
    by_cases hid : j = id
    · subst hid
      exact ⟨_, List.getElem?_set_self hlt, hsent request hj⟩
    · obtain ⟨sender, hsender, hphase⟩ := h.sender j request ((hcurrent j request hid).1 hj)
      exact ⟨sender, (List.getElem?_set_ne (Ne.symm hid)).trans hsender, hphase⟩
  · rw [hcalls, hkey]
    refine forall_set hfits fun j other hj hother => ?_
    rw [hown j hj]
    exact (h.fits j other hother).imp (hline j hj) (hhead j hj) fun _ => (hcurrent j _ hj).2
  · rw [hcalls]
    refine forall_set (fun outcome htold => ?_) fun j other _ => h.told j other
    exact absurd (h.told id call hcall outcome htold) (hfresh outcome)

/-- An exchange that asks for the link comes last in line. -/
theorem Orderly.of_ask (h : Orderly link turns current) (hcall : link.calls[id]? = some call)
    (hphase : call.phase = .begun) : Orderly (link.ask id call) turns current := by
  have hfits := h.fits id call hcall
  rw [hphase] at hfits
  refine h.of_phase hcall (fun _ => ne_of_eq_of_ne hphase nofun) rfl rfl (h.wire.of_eq rfl rfl rfl rfl) ?_ ?_ ?_
    (fun _ _ _ => Iff.rfl) ?_ (fun _ _ => rfl) (fun _ => Or.inl) ?_
  · exact List.nodup_append_comm.1 (List.nodup_cons.2 ⟨hfits.1, h.nodup⟩)
  · intro j hj
    exact List.mem_append.trans (or_iff_left (mt List.mem_singleton.1 hj))
  · intro j _ hhead
    exact (List.head?_append_of_ne_nil _ (List.ne_nil_of_mem (List.mem_of_head? hhead))).trans hhead
  · intro request hcurrent
    exact absurd (List.mem_of_head? (h.head hcurrent)) hfits.1
  · exact ⟨List.mem_append_right _ List.mem_cons_self, hfits.2⟩

/-- The exchange that has the link sends its request while nothing is under way. -/
theorem Orderly.of_send (h : Orderly link turns current) (hcall : link.calls[id]? = some call)
    (hphase : call.phase = .queued) (hsend : link.send id call = some next) :
    Orderly next turns (some (id, call.request link.key)) := by
  obtain ⟨hhead, rfl⟩ := send_cases hsend
  have hfits := h.fits id call hcall
  rw [hphase] at hfits
  have hnone : current = none := h.current_eq_none hcall hhead (ne_of_eq_of_ne hphase nofun)
  subst hnone
  refine h.of_phase hcall (fun _ => ne_of_eq_of_ne hphase nofun) rfl rfl ?_ h.nodup (fun _ _ => Iff.rfl)
    (fun _ _ hother => hother) ?_ (fun _ _ => rfl) (fun _ _ => rfl) (fun _ => Or.inl) ?_
  · cases h.wire with
    | idle hrequests hreplies htraffic hserved =>
      exact .asked (congrArg (· ++ _) hrequests) hreplies (congrArg (· ++ _) htraffic) hserved
  · intro j request hj
    refine ⟨fun heq => ?_, fun heq => nomatch heq⟩
    exact absurd (Prod.mk.inj (Option.some.inj heq)).1.symm hj
  · exact ⟨hhead, rfl, hfits.2⟩

/-- The current exchange receives the message that came back for its own request. -/
theorem Orderly.of_receive (h : Orderly link turns current) (hcall : link.calls[id]? = some call)
    (hphase : call.phase = .sent) (hreceive : link.receive id call = some next) :
    ∃ message, current = some (id, call.request link.key) ∧
      Orderly next (turns ++ [⟨id, call.request link.key, message⟩]) none := by
  obtain ⟨message, more, hreplies, rfl⟩ := receive_cases hreceive
  have hfits := h.fits id call hcall
  rw [hphase] at hfits
  obtain ⟨hhead, rfl, hown⟩ := hfits
  refine ⟨message, rfl, ?_⟩
  refine h.of_phase hcall (fun _ => ne_of_eq_of_ne hphase nofun) rfl rfl ?_ h.nodup (fun _ _ => Iff.rfl)
    (fun _ _ hother => hother) ?_ (fun _ heq => nomatch heq) ?_ ?_ ?_
  · cases h.wire with
    | asked _ hnone => rw [hnone] at hreplies; cases hreplies
    | answered hrequests hone htraffic hserved =>
      rw [hone] at hreplies
      obtain ⟨rfl, rfl⟩ := List.cons.inj hreplies
      refine .idle hrequests rfl ?_ ?_
      · change link.traffic ++ _ = _
        rw [htraffic, List.flatMap_append, List.append_assoc]
        rfl
      · change link.served = _
        rw [hserved, List.map_append]
        rfl
  · intro j request hj
    refine ⟨fun heq => (nomatch heq), fun heq => ?_⟩
    exact absurd (Prod.mk.inj (Option.some.inj heq)).1.symm hj
  · exact fun j hj => Turn.own_append_ne (Ne.symm hj)
  · intro turn hturn
    rcases List.mem_append.1 hturn with hold | hnew
    · exact .inl hold
    · exact .inr (List.mem_singleton.1 hnew ▸ rfl)
  · refine ⟨hhead, ?_⟩
    rw [Turn.own_append_self rfl, hown]
    rfl

/-- An exchange that has its message gives the link to the next in line. -/
theorem Orderly.of_giveBack (h : Orderly link turns current) (hcall : link.calls[id]? = some call)
    {message : List Bytes} (hphase : call.phase = .received message) :
    Orderly (link.giveBack id call message) turns current := by
  have hfits := h.fits id call hcall
  rw [hphase] at hfits
  obtain ⟨hhead, hown⟩ := hfits
  have hnone : current = none := h.current_eq_none hcall hhead (ne_of_eq_of_ne hphase nofun)
  subst hnone
  have hline : link.line = id :: link.line.tail := (List.cons_head?_tail hhead).symm
  have hnodup := h.nodup
  rw [hline] at hnodup
  obtain ⟨hleft, htail⟩ := List.nodup_cons.1 hnodup
  refine h.of_phase hcall (fun _ => ne_of_eq_of_ne hphase nofun) rfl rfl (h.wire.of_eq rfl rfl rfl rfl) htail ?_
    ?_ (fun _ _ _ => Iff.rfl) (fun _ heq => nomatch heq) (fun _ _ => rfl) (fun _ => Or.inl) ?_
  · intro j hj
    change j ∈ link.line.tail ↔ j ∈ link.line
    rw [hline]
    exact (List.mem_cons.trans (or_iff_right hj)).symm
  · intro j hj hother
    exact absurd (Option.some.inj (hother.symm.trans hhead)) hj
  · exact ⟨hleft, message, hown, rfl⟩

/-- An answer is to the request of the current exchange. -/
theorem Orderly.of_answer (h : Orderly link turns current) (hanswer : link.answer peer = some next) :
    Orderly next turns current := by
  obtain ⟨request, more, hrequests, rfl⟩ := answer_cases hanswer
  refine ⟨?_, h.nodup, h.inLine, h.known, h.sender, h.fits, h.told⟩
  cases h.wire with
  | idle hnone => rw [hnone] at hrequests; cases hrequests
  | answered hnone => rw [hnone] at hrequests; cases hrequests
  | asked hone hreplies htraffic hserved =>
    rw [hone] at hrequests
    obtain ⟨rfl, rfl⟩ := List.cons.inj hrequests
    exact .answered rfl (congrArg (· ++ _) hreplies) htraffic (congrArg (· ++ _) hserved)

/-- Work keeps a link orderly. It ends the turn of the current exchange or none. -/
theorem Orderly.of_perform (h : Orderly link turns current) {work : Work σ}
    (hwork : link.perform peer work = some next) :
    ∃ (ended : Option Turn) (current' : Option (Nat × Bytes)),
      Orderly next (turns ++ ended.toList) current' ∧
        ∀ turn, ended = some turn → current = some (turn.call, turn.request) := by
  have hsame {next : Link σ} {current' : Option (Nat × Bytes)} (hnext : Orderly next turns current') :
      ∃ (ended : Option Turn) (current' : Option (Nat × Bytes)),
        Orderly next (turns ++ ended.toList) current' ∧
          ∀ turn, ended = some turn → current = some (turn.call, turn.request) :=
    ⟨none, current', (List.append_nil turns).symm ▸ hnext, fun _ hturn => nomatch hturn⟩
  cases work with
  | proceed id =>
    obtain ⟨call, hcall, hcases⟩ := proceed_cases hwork
    rcases hcases with ⟨hphase, rfl⟩ | ⟨hphase, hsend⟩ | ⟨hphase, hreceive⟩ | ⟨message, hphase, rfl⟩
    · exact hsame (h.of_ask hcall hphase)
    · exact hsame (h.of_send hcall hphase hsend)
    · obtain ⟨message, rfl, hnext⟩ := h.of_receive hcall hphase hreceive
      exact ⟨some _, none, hnext, fun turn hturn => Option.some.inj hturn ▸ rfl⟩
    · exact hsame (h.of_giveBack hcall hphase)
  | answer => exact hsame (h.of_answer hwork)
  | change far =>
    cases hwork
    exact hsame ⟨h.wire.of_eq rfl rfl rfl rfl, h.nodup, h.inLine, h.known, h.sender, h.fits, h.told⟩

/-- Whatever happens keeps a link orderly. -/
theorem Orderly.of_happen (h : Orderly link turns current) {act : Act σ}
    (hact : link.happen peer act = some next) : ∃ turns current, Orderly next turns current := by
  cases act with
  | call robot command =>
    cases hact
    exact ⟨_, _, h.of_call robot command⟩
  | leave id =>
    obtain ⟨call, hcall, -, rfl⟩ := leave_cases hact
    exact ⟨_, _, h.of_caller hcall fun _ htold => nomatch htold⟩
  | take id =>
    obtain ⟨⟨outcome, later⟩, htake, rfl⟩ := Option.map_eq_some_iff.1 hact
    obtain ⟨call, hcall, hdone, -, rfl⟩ := take_cases htake
    refine ⟨_, _, h.of_caller hcall fun told htold => ?_⟩
    cases htold
    exact hdone
  | work work =>
    obtain ⟨ended, current', hnext, -⟩ := h.of_perform hact
    exact ⟨_, _, hnext⟩

/-- A link is orderly after any run. -/
theorem exists_orderly {key : String} {far : σ} {acts : List (Act σ)}
    (hrun : (fresh key far).run peer acts = some link) : ∃ turns current, Orderly link turns current :=
  run_keeps (fun link => ∃ turns current, Orderly link turns current)
    (fun _ _ _ hact ⟨_, _, h⟩ => h.of_happen hact) hrun ⟨_, _, .fresh key far⟩

end Link

end RobotSoccer
