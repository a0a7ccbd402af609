/-!
# What goes wrong on a link

The faults of the transport under a link, and those of connecting, sending, receiving and
commanding that they lead to, each with its text.
-/

namespace RobotSoccer

/-- A fault of the transport. -/
inductive TransportError where
  /-- Nothing was there to be received. -/
  | noMessage
  /-- The socket refused. -/
  | socket (reason : String)
  /-- A peer does not take its messages. -/
  | bufferFull (reason : String)
  /-- Any other fault. -/
  | other (reason : String)
  deriving DecidableEq, Repr

/-- The text of a fault of the transport. -/
def TransportError.text : TransportError → String
  | noMessage => "No message received"
  | socket reason => "Socket Error: " ++ reason
  | bufferFull reason => reason
  | other reason => reason

/-- Why a connection was not made. -/
inductive ConnectError where
  /-- The other end was not reached. -/
  | unreached (endpoint : String) (cause : TransportError)
  /-- The other end did not take the subscription. -/
  | unsubscribed (cause : TransportError)
  deriving DecidableEq, Repr

/-- The text of a failed connection. -/
def ConnectError.text : ConnectError → String
  | unreached endpoint cause => "couldn't connect to " ++ endpoint ++ ": " ++ cause.text
  | unsubscribed cause => "couldn't subscribe: " ++ cause.text

/-- Why a message was not sent. -/
structure SendError where
  /-- What the transport said. -/
  cause : TransportError
  deriving DecidableEq, Repr

/-- The text of a failed sending. -/
def SendError.text (error : SendError) : String := "socket send failed: " ++ error.cause.text

/-- Why no message was received. -/
inductive ReceiveError where
  /-- The transport failed. -/
  | transport (cause : TransportError)
  /-- The message had no frame. -/
  | empty
  deriving DecidableEq, Repr

/-- The text of a failed receiving. -/
def ReceiveError.text : ReceiveError → String
  | transport cause => "socket receive failed: " ++ cause.text
  | empty => "received an empty message"

/-- Why a command has no outcome. -/
inductive CommandError where
  /-- The controller refused it: a wrong key, no such robot, or a fault of its own. -/
  | failed (reason : String)
  /-- The reply was not understood. -/
  | malformedReply (reply : String)
  /-- The request was not sent. -/
  | send (cause : SendError)
  /-- No reply was received. -/
  | receive (cause : ReceiveError)
  deriving DecidableEq, Repr

/-- The text of a command without outcome. -/
def CommandError.text : CommandError → String
  | failed reason => "command failed: " ++ reason
  | malformedReply reply => "malformed reply: " ++ reply
  | send cause => cause.text
  | receive cause => cause.text

/-- What keeps the sockets of a program from doing what they are asked to, if anything does. -/
structure Sockets where
  /-- What keeps one from being opened for others to connect to. -/
  bindFault? : Option TransportError
  /-- What keeps one from reaching another end. -/
  connectFault? : String → Option TransportError
  /-- What keeps one from subscribing to what the other end publishes. -/
  subscribeFault? : Option TransportError

/-- Why something that others connect to did not start. -/
structure StartError where
  /-- What the transport said. -/
  cause : TransportError
  deriving DecidableEq, Repr

/-- The text of a failed start. -/
def StartError.text (error : StartError) : String := "couldn't bind: " ++ error.cause.text

namespace Sockets

/-- Nothing keeps them from anything. -/
def available : Sockets := ⟨none, fun _ => none, none⟩

/-- One fault keeps them from everything. -/
def refused (cause : TransportError) : Sockets := ⟨some cause, fun _ => some cause, some cause⟩

/-- Opens a socket for others to connect to. -/
def bind (sockets : Sockets) : Except StartError Unit :=
  match sockets.bindFault? with
  | none => .ok ()
  | some cause => .error ⟨cause⟩

/-- Connects to another end. -/
def reach (sockets : Sockets) (endpoint : String) : Except ConnectError Unit :=
  match sockets.connectFault? endpoint with
  | none => .ok ()
  | some cause => .error (.unreached endpoint cause)

/-- Subscribes to all that the other end publishes. -/
def subscribe (sockets : Sockets) : Except ConnectError Unit :=
  match sockets.subscribeFault? with
  | none => .ok ()
  | some cause => .error (.unsubscribed cause)

end Sockets

end RobotSoccer
