import RobotSoccer.Session.Intake

/-!
# Waiting until everything was seen

A session is acquired when the ball and every robot have been seen. Whoever waits for that looks at
one part after the other, and when one is missing it waits for a packet behind those that it knows
of. Meanwhile packets are applied part by part.
-/

namespace RobotSoccer

/-- The news for somebody who knows of so many packets. -/
def Client.newsBehind {σ : Type} (client : Client σ) (known : Nat) : Client.News :=
  if known < client.updates then .fresh else if client.closed then .ended else .pending

/-- Somebody who waits until everything was seen. -/
inductive Waiter where
  /-- It looks at these parts in turn, and knows of so many packets. -/
  | looking (known : Nat) (parts : List Part)
  /-- It missed a part, and waits for a packet behind those that it knows of. -/
  | waiting (known : Nat)
  /-- Its wait is over. -/
  | done (result : Except SessionError Unit)

/-- The waiter goes on, when it can. -/
def Waiter.go {σ : Type} (client : Client σ) : Waiter → Option Waiter
  | .looking _ [] => some (.done (.ok ()))
  | .looking known (part :: more) =>
    some (if client.world.hasSeen part then .looking known more else .waiting known)
  | .waiting known =>
    match client.newsBehind known with
    | .fresh => some (.looking client.updates Part.needed)
    | .ended => some (.done (.error .disconnected))
    | .pending => none
  | .done _ => none

/-- A session that is being acquired. -/
structure Acquisition (σ : Type) where
  /-- The client. -/
  client : Client σ
  /-- The task that takes frames in. -/
  intake : Intake
  /-- The one who waits until everything was seen. -/
  waiter : Waiter

namespace Acquisition

variable {σ : Type}

/-- What happens while a session is acquired. -/
inductive Act where
  /-- The task that takes frames in does something. -/
  | intake (act : Intake.Act)
  /-- The waiter goes on. -/
  | go

/-- A wait that is about to begin, by somebody who was not told of the last so many packets. The
task that takes frames in may be ahead of the first look. -/
def start (client : Client σ) (untold : Nat) : Acquisition σ :=
  ⟨client, .waiting, .looking (client.updates - untold) Part.needed⟩

/-- Something happens, when it can. -/
def happen (acquisition : Acquisition σ) : Act → Option (Acquisition σ)
  | .intake act =>
    (acquisition.intake.happen acquisition.client act).map fun next =>
      ⟨next.1, next.2, acquisition.waiter⟩
  | .go => (acquisition.waiter.go acquisition.client).map fun next =>
      { acquisition with waiter := next }

/-- Things happen one after the other. -/
def run : Acquisition σ → List Act → Option (Acquisition σ)
  | acquisition, [] => some acquisition
  | acquisition, act :: more => (acquisition.happen act).bind fun next => next.run more

/-- A run may be cut in two anywhere. -/
theorem run_append (acquisition : Acquisition σ) (before after : List Act) :
    acquisition.run (before ++ after) = (acquisition.run before).bind fun next => next.run after := by
  induction before generalizing acquisition with
  | nil => rfl
  | cons act more ih => simp only [List.cons_append, run, ih, Option.bind_assoc]

/-- What every act keeps, a run keeps. -/
theorem run_keeps (kept : Acquisition σ → Prop)
    (hstep : ∀ acquisition act next, acquisition.happen act = some next → kept acquisition → kept next)
    {acquisition later : Acquisition σ} {acts : List Act} (hrun : acquisition.run acts = some later)
    (hstart : kept acquisition) : kept later := by
  induction acts generalizing acquisition with
  | nil => exact Option.some.inj hrun ▸ hstart
  | cons act more ih =>
    obtain ⟨next, hnext, hmore⟩ := Option.bind_eq_some_iff.1 hrun
    exact ih hmore (hstep acquisition act next hnext hstart)

end Acquisition

end RobotSoccer
