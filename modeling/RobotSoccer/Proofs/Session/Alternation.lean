import RobotSoccer.Proofs.Session.Settling

/-!
# The control link alternates

Over any schedule the socket sees requests and replies in turns, every command that was called for
has one turn of its own, and its outcome is what the message of that turn says. When nobody has the
link it does for the next command what a client does that sends one and waits.
-/

namespace RobotSoccer

/-- What a call is for. -/
def Call.order (call : Call) : RobotName × Command := (call.robot, call.command)

namespace Link

variable {σ : Type} {peer : Peer σ} {link next later : Link σ} {turns : List Turn}
  {current : Option (Nat × Bytes)} {id : Nat} {call : Call}

/-- The command that an act calls for. -/
def Act.called? : Act σ → Option (RobotName × Command)
  | .call robot command => some (robot, command)
  | .leave _ | .take _ | .work _ => none

/-- What an act does to the calls: a new one comes last, or one of them changes, but not what it is
for, or none does. A caller is gone only by leaving. -/
theorem calls_of_happen {act : Act σ} (h : link.happen peer act = some next) :
    (∃ robot command, act.called? = some (robot, command) ∧
      next.calls = link.calls ++ [⟨robot, command, .begun, .waiting⟩]) ∨
    act.called? = none ∧ (next.calls = link.calls ∨
      ∃ id call other, link.calls[id]? = some call ∧ next.calls = link.calls.set id other ∧
        other.order = call.order ∧
        (other.caller = .gone → call.caller = .gone ∨ act = .leave id)) := by
  cases act with
  | call robot command =>
    obtain rfl := Option.some.inj h
    exact .inl ⟨robot, command, rfl, rfl⟩
  | leave id =>
    obtain ⟨call, hcall, -, rfl⟩ := leave_cases h
    exact .inr ⟨rfl, .inr ⟨id, call, _, hcall, rfl, rfl, fun _ => .inr rfl⟩⟩
  | take id =>
    obtain ⟨⟨outcome, later⟩, htake, rfl⟩ := Option.map_eq_some_iff.1 h
    obtain ⟨call, hcall, -, -, rfl⟩ := take_cases htake
    exact .inr ⟨rfl, .inr ⟨id, call, _, hcall, rfl, rfl, fun hgone => nomatch hgone⟩⟩
  | work work =>
    cases work with
    | proceed id =>
      obtain ⟨call, phase, hcall, -, hcalls⟩ := calls_of_proceed h
      exact .inr ⟨rfl, .inr ⟨id, call, _, hcall, hcalls, rfl, Or.inl⟩⟩
    | answer =>
      obtain ⟨request, more, -, rfl⟩ := answer_cases h
      exact .inr ⟨rfl, .inl rfl⟩
    | change far =>
      obtain rfl := Option.some.inj h
      exact .inr ⟨rfl, .inl rfl⟩

/-- What was called for stays when a call changes and is still for the same. -/
theorem map_order_set {calls : List Call} {other : Call} (hcall : calls[id]? = some call)
    (horder : other.order = call.order) :
    (calls.set id other).map Call.order = calls.map Call.order := by
  obtain ⟨hlt, rfl⟩ := List.getElem?_eq_some_iff.1 hcall
  have hmap : id < (calls.map Call.order).length := by rwa [List.length_map]
  rw [List.map_set, horder, ← List.getElem_map Call.order (h := hmap), List.set_getElem_self]

/-- An act calls for what it says, and leaves what was called for before. -/
theorem map_order_of_happen {act : Act σ} (h : link.happen peer act = some next) :
    next.calls.map Call.order = link.calls.map Call.order ++ act.called?.toList := by
  rcases calls_of_happen h with ⟨robot, command, hcalled, hcalls⟩ | ⟨hcalled, hcalls⟩
  · rw [hcalls, hcalled, List.map_append]
    rfl
  · rw [hcalled, Option.toList_none, List.append_nil]
    rcases hcalls with hcalls | ⟨id, call, other, hcall, hcalls, horder, -⟩
    · rw [hcalls]
    · rw [hcalls, map_order_set hcall horder]

/-- The calls are for what was called for, in order. -/
theorem map_order_of_run {acts : List (Act σ)} (hrun : link.run peer acts = some later) :
    later.calls.map Call.order = link.calls.map Call.order ++ acts.filterMap Act.called? := by
  induction acts generalizing link with
  | nil =>
    obtain rfl := Option.some.inj hrun
    exact (List.append_nil _).symm
  | cons act more ih =>
    obtain ⟨next, hnext, hmore⟩ := Option.bind_eq_some_iff.1 hrun
    rw [ih hmore, map_order_of_happen hnext, List.append_assoc, List.filterMap_cons]
    cases act.called? with
    | none => rfl
    | some order => rfl

/-- A caller that is gone was gone before an act or leaves by it. -/
theorem gone_of_happen {act : Act σ} (h : link.happen peer act = some next)
    (hcall : next.calls[id]? = some call) (hgone : call.caller = .gone) :
    (∃ before, link.calls[id]? = some before ∧ before.caller = .gone) ∨ act = .leave id := by
  rcases calls_of_happen h with ⟨robot, command, -, hcalls⟩ | ⟨-, hcalls | hcalls⟩
  · have hold : ∀ (j : Nat) (call : Call),
        (link.calls ++ [⟨robot, command, .begun, .waiting⟩])[j]? = some call →
          call.caller = .gone → ∃ before, link.calls[j]? = some before ∧ before.caller = .gone :=
      forall_append (fun hnew => nomatch hnew) fun j before hbefore hgone => ⟨before, hbefore, hgone⟩
    exact .inl (hold id call (hcalls ▸ hcall) hgone)
  · exact .inl ⟨call, hcalls ▸ hcall, hgone⟩
  · obtain ⟨changed, old, other, hold, hcalls, -, hother⟩ := hcalls
    rw [hcalls] at hcall
    by_cases hid : changed = id
    · subst hid
      rw [List.getElem?_set_self (List.getElem?_eq_some_iff.1 hold).1] at hcall
      obtain rfl := Option.some.inj hcall
      exact (hother hgone).imp_left fun hgone => ⟨old, hold, hgone⟩
    · rw [List.getElem?_set_ne hid] at hcall
      exact .inl ⟨call, hcall, hgone⟩

/-- The caller of a call is gone only when it has left. -/
theorem leave_mem_of_gone {acts : List (Act σ)} (hrun : link.run peer acts = some later)
    (hcall : later.calls[id]? = some call) (hgone : call.caller = .gone) :
    (∃ call, link.calls[id]? = some call ∧ call.caller = .gone) ∨ .leave id ∈ acts := by
  induction acts generalizing link with
  | nil =>
    obtain rfl := Option.some.inj hrun
    exact .inl ⟨call, hcall, hgone⟩
  | cons act more ih =>
    obtain ⟨next, hnext, hmore⟩ := Option.bind_eq_some_iff.1 hrun
    rcases ih hmore with ⟨before, hbefore, hgone⟩ | hleft
    · rcases gone_of_happen hnext hbefore hgone with hbefore | rfl
      · exact .inl hbefore
      · exact .inr List.mem_cons_self
    · exact .inr (List.mem_cons_of_mem _ hleft)

/-- The work of an exchange that nobody interrupts. -/
def serving (id : Nat) : List (Work σ) :=
  [.proceed id, .proceed id, .answer, .proceed id, .proceed id]

/-- Such an exchange with a caller who stays for the outcome. -/
def exchangeActs (id : Nat) (robot : RobotName) (command : Command) : List (Act σ) :=
  .call robot command :: ((serving id).map .work ++ [.take id])

/-- The message that comes back for a command, and the far end afterwards. -/
def answered (peer : Peer σ) (link : Link σ) (robot : RobotName) (command : Command) :
    List Bytes × σ :=
  peer.answer link.far (Request.encode link.key robot command)

/-- A link after such an exchange, with what became of the caller. -/
def exchanged (peer : Peer σ) (link : Link σ) (robot : RobotName) (command : Command)
    (caller : Caller) : Link σ :=
  let request := Request.encode link.key robot command
  let message := (link.answered peer robot command).1
  { link with
    far := (link.answered peer robot command).2
    calls := link.calls ++ [⟨robot, command, .done (Reply.decodeMessage message), caller⟩]
    traffic := link.traffic ++
      [.sent link.calls.length request, .received link.calls.length message]
    served := link.served ++ [(request, message)] }

/-- What such an exchange does to a link that nobody has, with nothing on its way. -/
theorem run_serving (peer : Peer σ) (robot : RobotName) (command : Command)
    (hline : link.line = []) (hrequests : link.requests = []) (hreplies : link.replies = []) :
    (link.call robot command).run peer ((serving link.calls.length).map .work) =
      some (link.exchanged peer robot command .waiting) := by
  simp [exchanged, answered, serving, run, happen, perform, proceed, Link.call, ask, send, receive,
    giveBack, Link.answer, setCall, Call.request, hline, hrequests, hreplies]

/-- The caller who stayed is told the outcome. -/
theorem take_exchanged (peer : Peer σ) (link : Link σ) (robot : RobotName) (command : Command) :
    (link.exchanged peer robot command .waiting).take link.calls.length =
      let outcome := Reply.decodeMessage (link.answered peer robot command).1
      some (outcome, link.exchanged peer robot command (.told outcome)) := by
  simp [exchanged, take, setCall]

/-- What such an exchange and the end of the call do to a link. -/
theorem run_exchangeActs (peer : Peer σ) (robot : RobotName) (command : Command)
    (hline : link.line = []) (hrequests : link.requests = []) (hreplies : link.replies = []) :
    link.run peer (exchangeActs link.calls.length robot command) =
      some (link.exchanged peer robot command
        (.told (Reply.decodeMessage (link.answered peer robot command).1))) := by
  have hserving := run_serving peer robot command hline hrequests hreplies
  have htake := take_exchanged peer link robot command
  change (link.call robot command).run peer ((serving link.calls.length).map .work ++ [.take _]) = _
  rw [run_append, hserving, Option.bind_some, run, happen, htake]
  rfl

/-- Everything that was called for over a link has come to its end. -/
structure Settled (link : Link σ) : Prop where
  /-- Every exchange is done. -/
  done : ∀ call ∈ link.calls, ∃ outcome, call.phase = .done outcome
  /-- No caller waits. -/
  told : ∀ call ∈ link.calls, call.caller ≠ .waiting

/-- A link over which nothing is left to be done is settled. -/
theorem settled_of_left (h : link.left = 0) : link.Settled := by
  have hcalls := List.sum_eq_zero_iff_forall_eq_nat.1 (Nat.add_eq_zero_iff.1 h).1
  have hcall := List.forall_mem_map.1 hcalls
  exact ⟨fun call hmem => (Call.left_eq_zero (hcall call hmem)).1,
    fun call hmem => (Call.left_eq_zero (hcall call hmem)).2⟩

/-- The key of a link stays. -/
theorem key_of_run {acts : List (Act σ)} (hrun : link.run peer acts = some later) :
    later.key = link.key := by
  refine run_keeps (fun other => other.key = link.key) (fun before act after hact hkey => ?_) hrun rfl
  rw [← hkey]
  cases act with
  | call => exact Option.some.inj hact ▸ rfl
  | leave =>
    obtain ⟨call, -, -, rfl⟩ := leave_cases hact
    rfl
  | take =>
    obtain ⟨⟨outcome, told⟩, htake, rfl⟩ := Option.map_eq_some_iff.1 hact
    obtain ⟨call, -, -, -, rfl⟩ := take_cases htake
    rfl
  | work work =>
    cases work with
    | proceed =>
      obtain ⟨call, -, hcases⟩ := proceed_cases hact
      rcases hcases with ⟨-, rfl⟩ | ⟨-, hsend⟩ | ⟨-, hreceive⟩ | ⟨message, -, rfl⟩
      · rfl
      · obtain ⟨-, rfl⟩ := send_cases hsend
        rfl
      · obtain ⟨message, more, -, rfl⟩ := receive_cases hreceive
        rfl
      · rfl
    | answer =>
      obtain ⟨request, more, -, rfl⟩ := answer_cases hact
      rfl
    | change => exact Option.some.inj hact ▸ rfl

/-- An exchange has had no turn or one with its own request. -/
theorem Fits.own_eq {line : List Nat} {own : List Turn} {request : Bytes} {phase : Phase}
    (h : Fits line current own id request phase) :
    own = [] ∨ ∃ message, own = [⟨id, request, message⟩] := by
  cases phase with
  | begun => exact .inl h.2
  | queued => exact .inl h.2
  | sent => exact .inl h.2.2
  | received message => exact .inr ⟨message, h.2⟩
  | done outcome => exact .inr (h.2.imp fun _ hown => hown.1)

/-- No call has two turns. -/
theorem Orderly.length_own_le (h : Orderly link turns current) (id : Nat) :
    (Turn.own turns id).length ≤ 1 := by
  cases hcall : link.calls[id]? with
  | none =>
    rw [Turn.own_eq_nil h.known (List.getElem?_eq_none_iff.1 hcall)]
    exact Nat.zero_le _
  | some call =>
    rcases (h.fits id call hcall).own_eq with hown | ⟨message, hown⟩
    · rw [hown]
      exact Nat.zero_le _
    · rw [hown]
      exact Nat.le_refl _

/-- The current exchange has had no turn. -/
theorem Orderly.own_current (h : Orderly link turns current) {request : Bytes}
    (hcurrent : current = some (id, request)) :
    Turn.own turns id = [] ∧ ∃ call, link.calls[id]? = some call ∧ request = call.request link.key := by
  obtain ⟨call, hcall, hphase⟩ := h.sender id request hcurrent
  have hfits := h.fits id call hcall
  rw [hphase] at hfits
  obtain ⟨-, hrequest, hown⟩ := hfits
  rw [hcurrent] at hrequest
  exact ⟨hown, call, hcall, (Prod.mk.inj (Option.some.inj hrequest)).2⟩

/-- An exchange sends once: no call has two turns, or one and the link for another. -/
theorem Orderly.nodup_senders (h : Orderly link turns current) :
    (turns.map (·.call) ++ current.toList.map (·.1)).Nodup := by
  refine List.nodup_append.2 ⟨List.nodup_iff_count_le_one.2 fun id => ?_, ?_, ?_⟩
  · have hcount : (turns.map (·.call)).count id = (Turn.own turns id).length := by
      rw [List.count, List.countP_map, List.countP_eq_length_filter]
      rfl
    exact hcount ▸ h.length_own_le id
  · cases current with
    | none => exact List.nodup_nil
    | some sent => exact List.nodup_singleton sent.1
  · intro id hturn other hcurrent heq
    subst heq
    obtain ⟨⟨sender, request⟩, hsent, rfl⟩ := List.mem_map.1 hcurrent
    obtain ⟨turn, hmem, hturn⟩ := List.mem_map.1 hturn
    have hown := (h.own_current (Option.mem_toList.1 hsent)).1
    exact absurd hmem fun hmem => List.filter_eq_nil_iff.1 hown turn hmem (by simpa using hturn)

/-- The turn of an exchange that is done is with its own request, and its outcome is what the message
says. -/
theorem Orderly.exists_turn (h : Orderly link turns current) (hcall : link.calls[id]? = some call)
    {outcome : Except CommandError Outcome} (hdone : call.phase = .done outcome) :
    ∃ message, ⟨id, call.request link.key, message⟩ ∈ turns ∧
      outcome = Reply.decodeMessage message := by
  have hfits := h.fits id call hcall
  rw [hdone] at hfits
  obtain ⟨-, message, hown, rfl⟩ := hfits
  have hmem : ⟨id, call.request link.key, message⟩ ∈ Turn.own turns id := hown ▸ List.mem_cons_self
  exact ⟨message, List.mem_of_mem_filter hmem, rfl⟩

/-- Every turn is one of a call, with the request of that call. -/
theorem Orderly.request_of_turn (h : Orderly link turns current) {turn : Turn} (hturn : turn ∈ turns) :
    ∃ call, link.calls[turn.call]? = some call ∧ turn.request = call.request link.key := by
  have hmem : turn ∈ Turn.own turns turn.call := List.mem_filter.2 ⟨hturn, by simp⟩
  have hcall := List.getElem?_eq_getElem (h.known turn hturn)
  refine ⟨_, hcall, ?_⟩
  rcases (h.fits _ _ hcall).own_eq with hown | ⟨message, hown⟩
  · rw [hown] at hmem
    cases hmem
  · rw [hown] at hmem
    exact congrArg Turn.request (List.mem_singleton.1 hmem)

/-- The far end has served the turns that are over, in order. -/
theorem Orderly.prefix_served (h : Orderly link turns current) :
    turns.map Turn.service <+: link.served ∧
      link.served.length ≤ turns.length + current.toList.length := by
  cases h.wire with
  | idle _ _ _ hserved => exact ⟨hserved ▸ List.prefix_rfl, by rw [hserved, List.length_map]; exact Nat.le_refl _⟩
  | asked _ _ _ hserved =>
    refine ⟨hserved ▸ List.prefix_rfl, ?_⟩
    rw [hserved, List.length_map]
    exact Nat.le_add_right _ _
  | answered _ _ _ hserved =>
    refine ⟨hserved ▸ List.prefix_append _ _, ?_⟩
    rw [hserved, List.length_append, List.length_map]
    exact Nat.le_refl _

/-- The socket has seen the turns that are over and the request of the current exchange. -/
theorem Orderly.traffic_eq (h : Orderly link turns current) :
    link.traffic = turns.flatMap Turn.traffic ++
      current.toList.map fun sent => Traffic.sent sent.1 sent.2 := by
  cases h.wire with
  | idle _ _ htraffic => exact htraffic.trans (List.append_nil _).symm
  | asked _ _ htraffic => exact htraffic
  | answered _ _ htraffic => exact htraffic

/-- Nothing is on the wire while nothing is under way. -/
theorem Orderly.wire_idle (h : Orderly link turns none) : link.requests = [] ∧ link.replies = [] := by
  cases h.wire with
  | idle hrequests hreplies => exact ⟨hrequests, hreplies⟩

/-- Nothing is under way while nobody has the link. -/
theorem Orderly.current_of_line (h : Orderly link turns current) (hline : link.line = []) :
    current = none := by
  cases hcurrent : current with
  | none => rfl
  | some sent =>
    have hhead := h.head hcurrent
    rw [hline] at hhead
    cases hhead

/-- After any run over a link: the socket has seen requests and replies in turns, each reply being
what the far end answered to the request before it; every command that was called for sends its own
request once, and when it is done, or its caller was told an outcome, that is what the message of its
turn says; a caller is gone only by leaving. The acts that settle things are no more than are left to
be done, and while not everything has come to its end one of them is possible. When nobody has the
link, whatever was replied before, the next command is served at once, as a client does that sends it
and waits. -/
theorem alternation_law (peer : Peer σ) {key : String} {far : σ} {acts : List (Act σ)}
    (hrun : (fresh key far).run peer acts = some link) :
    ∃ (turns : List Turn) (current : Option (Nat × Bytes)),
      link.traffic = turns.flatMap Turn.traffic ++
        current.toList.map (fun sent => Traffic.sent sent.1 sent.2) ∧
      turns.map Turn.service <+: link.served ∧
      link.served.length ≤ turns.length + current.toList.length ∧
      (current = none → link.requests = [] ∧ link.replies = []) ∧
      link.calls.map Call.order = acts.filterMap Act.called? ∧
      (turns.map (·.call) ++ current.toList.map (·.1)).Nodup ∧
      (∀ turn ∈ turns, ∃ call, link.calls[turn.call]? = some call ∧
        turn.request = call.request key) ∧
      (∀ (id : Nat) (call : Call), link.calls[id]? = some call →
        (∀ outcome, call.phase = .done outcome ∨ call.caller = .told outcome →
          ∃ message, ⟨id, call.request key, message⟩ ∈ turns ∧
            outcome = Reply.decodeMessage message) ∧
        (call.caller = .gone → .leave id ∈ acts)) ∧
      (∀ more later, (∀ act ∈ more, act.Settles) → link.run peer more = some later →
        later.left + more.length = link.left ∧
          (later.Settled ∨ ∃ act : Act σ, act.Settles ∧ ∃ next, later.happen peer act = some next)) ∧
      (link.line = [] → ∀ robot command, ∃ later outcome,
        link.run peer (exchangeActs link.calls.length robot command) = some later ∧
          later.calls = link.calls ++ [⟨robot, command, .done outcome, .told outcome⟩] ∧
          outcome = Reply.decodeMessage
            (peer.answer link.far (Request.encode key robot command)).1 ∧
          ∀ (server : Server σ) (client : Client σ), server.peer = peer → client.key = key →
            client.far = link.far → client.command server robot command =
              (outcome.mapError (.command robot), { client with
                far := later.far
                exchanges := client.exchanges ++ [⟨robot, command, outcome⟩] })) := by
  obtain ⟨turns, current, h⟩ := exists_orderly hrun
  have hkey : link.key = key := key_of_run hrun
  refine ⟨turns, current, h.traffic_eq, h.prefix_served.1, h.prefix_served.2, ?_, ?_,
    h.nodup_senders, ?_, ?_, ?_, ?_⟩
  · rintro rfl
    exact h.wire_idle
  · exact map_order_of_run hrun
  · exact hkey ▸ fun turn hturn => h.request_of_turn hturn
  · intro id call hcall
    refine ⟨fun outcome houtcome => ?_, fun hgone => ?_⟩
    · have hdone := houtcome.elim (fun hdone => hdone) (h.told id call hcall outcome)
      exact hkey ▸ h.exists_turn hcall hdone
    · rcases leave_mem_of_gone hrun hcall hgone with ⟨before, hbefore, -⟩ | hleave
      · cases hbefore
      · exact hleave
  · intro more later hsettles hmore
    refine ⟨left_of_run hsettles hmore, ?_⟩
    have hwhole : (fresh key far).run peer (acts ++ more) = some later := by
      rw [run_append, hrun]
      exact hmore
    obtain ⟨turns, current, hlater⟩ := exists_orderly hwhole
    by_cases hleft : later.left = 0
    · exact .inl (settled_of_left hleft)
    · exact .inr (hlater.exists_happen peer hleft)
  · intro hline robot command
    obtain rfl := h.current_of_line hline
    obtain ⟨hrequests, hreplies⟩ := h.wire_idle
    refine ⟨_, _, run_exchangeActs peer robot command hline hrequests hreplies, rfl, hkey ▸ rfl, ?_⟩
    rintro server client rfl rfl hfar
    rw [Client.command, hfar, ← hkey]
    rfl

/-- A far end that gives prepared messages in order and agrees to everything after them. -/
def preparedPeer : Peer (List (List Bytes)) where
  answer
    | [], _ => ([Server.agreement], [])
    | message :: more, _ => (message, more)

/-- Two callers share a link. The first leaves before its request is sent. -/
def crossing : List (Act (List (List Bytes))) :=
  [.call .blue1 .stop, .call .green1 (.kick 0.5), .work (.proceed 0), .leave 0, .work (.proceed 1),
    .work (.proceed 0), .work .answer, .work (.proceed 0), .work (.proceed 0), .work (.proceed 1),
    .work .answer, .work (.proceed 1), .work (.proceed 1), .take 1]

/-- The message that comes back for the first of two callers, who has left, has no frame. The second
is told what the reply to its own request says, and the link takes the next command. -/
theorem alternation_crossing :
    ∃ link, (fresh "" [[]]).run preparedPeer crossing = some link ∧
      link.calls.map (·.caller) = [.gone, .told (Reply.decode Server.agreement)] ∧
      (∃ (turns : List Turn) (message : List Bytes), turns.map Turn.service <+: link.served ∧
        ⟨1, Request.encode "" .green1 (.kick 0.5), message⟩ ∈ turns ∧
        Reply.decode Server.agreement = Reply.decodeMessage message) ∧
      ∃ later, link.run preparedPeer (exchangeActs link.calls.length .blue2 .stop) = some later := by
  have hrun : ∃ link call, (fresh "" [[]]).run preparedPeer crossing = some link ∧
      link.line = [] ∧ link.calls.map (·.caller) = [.gone, .told (Reply.decode Server.agreement)] ∧
      link.calls[1]? = some call ∧ call.order = (.green1, .kick 0.5) ∧
      call.caller = .told (Reply.decode Server.agreement) := ⟨_, _, rfl, rfl, rfl, rfl, rfl, rfl⟩
  obtain ⟨link, call, hrun, hline, hcallers, hcall, horder, htold⟩ := hrun
  obtain ⟨turns, current, -, hserved, -, -, -, -, -, hcalls, -, hready⟩ :=
    alternation_law preparedPeer hrun
  obtain ⟨message, hturn, hmessage⟩ := (hcalls 1 call hcall).1 _ (.inr htold)
  obtain ⟨hrobot, hcommand⟩ := Prod.mk.inj horder
  rw [Call.request, hrobot, hcommand] at hturn
  obtain ⟨later, -, hlater, -⟩ := hready hline .blue2 .stop
  exact ⟨link, hrun, hcallers, ⟨turns, message, hserved, hturn, hmessage⟩, later, hlater⟩

end Link

end RobotSoccer
