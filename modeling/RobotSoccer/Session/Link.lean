import RobotSoccer.Session.Client

/-!
# The shared control link

All callers of a session share one link to the controller. The exchange of a command runs on its
own: it asks for the link, which is given to the exchanges in the order in which they asked, sends
its request, takes the next message that arrives for the reply, and gives the link back. A caller
may leave at any time; the exchange goes on without it. Which exchange goes on next, and when the far
end answers, is left open: a run is any list of acts that are possible one after the other.
-/

namespace RobotSoccer

/-- The far end of a link with states in `σ`, whose replies are messages of any number of frames. -/
structure Peer (σ : Type) where
  /-- The reply to a request, and the state afterwards. -/
  answer : σ → Bytes → List Bytes × σ

/-- A server as a far end whose replies have one frame each. -/
def Server.peer {σ : Type} (server : Server σ) : Peer σ where
  answer far request :=
    let answered := server.answer far request
    ([answered.1], answered.2)

/-- What a message says about a command. Its first frame is the reply. -/
def Reply.decodeMessage : List Bytes → Except CommandError Outcome
  | [] => .error (.receive .empty)
  | frame :: _ => decode frame

/-- How far an exchange has come. -/
inductive Phase where
  /-- It has not asked for the link yet. -/
  | begun
  /-- It has asked for the link, which it may have been given by now. -/
  | queued
  /-- It has sent its request. -/
  | sent
  /-- It has received a message. -/
  | received (message : List Bytes)
  /-- It has given the link back and has an outcome. -/
  | done (outcome : Except CommandError Outcome)

/-- What became of the caller of a command. -/
inductive Caller where
  /-- It waits for the outcome. -/
  | waiting
  /-- It has left. -/
  | gone
  /-- It was told the outcome. -/
  | told (outcome : Except CommandError Outcome)

/-- A command that somebody called for. -/
structure Call where
  /-- The robot it is for. -/
  robot : RobotName
  /-- The command. -/
  command : Command
  /-- How far its exchange has come. -/
  phase : Phase
  /-- What became of its caller. -/
  caller : Caller

/-- The bytes of the request of a call. -/
def Call.request (call : Call) (key : String) : Bytes := Request.encode key call.robot call.command

/-- What passes through the socket of a link, with the number of the call it is done for. -/
inductive Traffic where
  /-- A request is sent. -/
  | sent (id : Nat) (request : Bytes)
  /-- A message is received. -/
  | received (id : Nat) (message : List Bytes)

/-- A link with everything that was called for over it. Calls are numbered in their order. -/
structure Link (σ : Type) where
  /-- The key that the requests carry. -/
  key : String
  /-- The state of the far end. -/
  far : σ
  /-- The calls. -/
  calls : List Call
  /-- The exchanges that have asked for the link and not given it back, in the order in which they
  asked. The first of them has it. -/
  line : List Nat
  /-- The requests on their way to the far end. -/
  requests : List Bytes
  /-- The messages on their way back. -/
  replies : List (List Bytes)
  /-- What has passed through the socket. -/
  traffic : List Traffic
  /-- The requests that the far end has answered, with its replies. -/
  served : List (Bytes × List Bytes)

namespace Link

variable {σ : Type}

/-- A link over which nothing was called for. -/
def fresh (key : String) (far : σ) : Link σ := ⟨key, far, [], [], [], [], [], []⟩

/-- What goes on over a link behind the backs of the callers. -/
inductive Work (σ : Type) where
  /-- The exchange of a call goes on. -/
  | proceed (id : Nat)
  /-- The far end answers the next request. -/
  | answer
  /-- The far end changes of itself. -/
  | change (far : σ)

/-- What happens over a link. -/
inductive Act (σ : Type) where
  /-- Somebody calls for a command. -/
  | call (robot : RobotName) (command : Command)
  /-- The caller of a call leaves. -/
  | leave (id : Nat)
  /-- The caller of a call is told the outcome. -/
  | take (id : Nat)
  /-- Some work is done. -/
  | work (work : Work σ)

/-- The call of a number becomes another one. -/
def setCall (link : Link σ) (id : Nat) (call : Call) : Link σ :=
  { link with calls := link.calls.set id call }

/-- Somebody calls for a command. -/
def call (link : Link σ) (robot : RobotName) (command : Command) : Link σ :=
  { link with calls := link.calls ++ [⟨robot, command, .begun, .waiting⟩] }

/-- A caller that waits leaves. -/
def leave (link : Link σ) (id : Nat) : Option (Link σ) :=
  match link.calls[id]? with
  | none => none
  | some call =>
    match call.caller with
    | .waiting => some (link.setCall id { call with caller := .gone })
    | .gone | .told _ => none

/-- A caller that waits is told the outcome, when there is one. -/
def take (link : Link σ) (id : Nat) : Option (Except CommandError Outcome × Link σ) :=
  match link.calls[id]? with
  | none => none
  | some call =>
    match call.phase, call.caller with
    | .done outcome, .waiting =>
      some (outcome, link.setCall id { call with caller := .told outcome })
    | _, _ => none

/-- An exchange asks for the link. -/
def ask (link : Link σ) (id : Nat) (call : Call) : Link σ :=
  { link.setCall id { call with phase := .queued } with line := link.line ++ [id] }

/-- An exchange sends its request, when it has the link. -/
def send (link : Link σ) (id : Nat) (call : Call) : Option (Link σ) :=
  if link.line.head? = some id then
    some { link.setCall id { call with phase := .sent } with
      requests := link.requests ++ [call.request link.key]
      traffic := link.traffic ++ [.sent id (call.request link.key)] }
  else none

/-- An exchange receives the next message, when there is one. -/
def receive (link : Link σ) (id : Nat) (call : Call) : Option (Link σ) :=
  match link.replies with
  | [] => none
  | message :: more =>
    some { link.setCall id { call with phase := .received message } with
      replies := more
      traffic := link.traffic ++ [.received id message] }

/-- An exchange gives the link back and has an outcome, whatever the message says. -/
def giveBack (link : Link σ) (id : Nat) (call : Call) (message : List Bytes) : Link σ :=
  { link.setCall id { call with phase := .done (Reply.decodeMessage message) } with
    line := link.line.tail }

/-- An exchange goes on from where it is. -/
def proceed (link : Link σ) (id : Nat) : Option (Link σ) :=
  match link.calls[id]? with
  | none => none
  | some call =>
    match call.phase with
    | .begun => some (link.ask id call)
    | .queued => link.send id call
    | .sent => link.receive id call
    | .received message => some (link.giveBack id call message)
    | .done _ => none

/-- The far end answers the next request, when there is one. -/
def answer (peer : Peer σ) (link : Link σ) : Option (Link σ) :=
  match link.requests with
  | [] => none
  | request :: more =>
    let answered := peer.answer link.far request
    some { link with
      far := answered.2
      requests := more
      replies := link.replies ++ [answered.1]
      served := link.served ++ [(request, answered.1)] }

/-- Some work is done, when it can be. -/
def perform (peer : Peer σ) (link : Link σ) : Work σ → Option (Link σ)
  | .proceed id => link.proceed id
  | .answer => link.answer peer
  | .change far => some { link with far := far }

/-- Something happens, when it can. -/
def happen (peer : Peer σ) (link : Link σ) : Act σ → Option (Link σ)
  | .call robot command => some (link.call robot command)
  | .leave id => link.leave id
  | .take id => (link.take id).map (·.2)
  | .work work => link.perform peer work

/-- Things happen one after the other. -/
def run (peer : Peer σ) : Link σ → List (Act σ) → Option (Link σ)
  | link, [] => some link
  | link, act :: more => (link.happen peer act).bind fun next => run peer next more

/-- A run may be cut in two anywhere. -/
theorem run_append (peer : Peer σ) (link : Link σ) (before after : List (Act σ)) :
    link.run peer (before ++ after) = (link.run peer before).bind fun next => next.run peer after := by
  induction before generalizing link with
  | nil => rfl
  | cons act more ih =>
    simp only [List.cons_append, run, ih, Option.bind_assoc]

/-- What every act keeps, a run keeps. -/
theorem run_keeps {peer : Peer σ} (kept : Link σ → Prop)
    (hstep : ∀ link act next, link.happen peer act = some next → kept link → kept next)
    {link later : Link σ} {acts : List (Act σ)} (hrun : link.run peer acts = some later)
    (hstart : kept link) : kept later := by
  induction acts generalizing link with
  | nil => exact Option.some.inj hrun ▸ hstart
  | cons act more ih =>
    obtain ⟨next, hnext, hmore⟩ := Option.bind_eq_some_iff.1 hrun
    exact ih hmore (hstep link act next hnext hstart)

end Link

end RobotSoccer
