import RobotSoccer.Session.Client

/-!
# Bringing a robot to a target

A robot is brought to a target by one step after the other and stopped when it is there. Between two
steps anything may come to the client: frames, the end of their stream, and events of the world that
others tell it. The wait for the robot of a client to which at most one frame comes in each period is
a special case.
-/

namespace RobotSoccer

/-- Something that comes to a client while it waits. -/
inductive Occurrence where
  /-- A frame is published. -/
  | frame (bytes : Bytes)
  /-- The stream of frames ends. -/
  | lose
  /-- Something happens to the world. -/
  | world (event : World.Event) (now : Instant)

/-- What comes to a client between two steps of a robot. -/
abbrev Interlude := List Occurrence

/-- A period in which at most one frame comes in. -/
def Interlude.ofArrival : Option Bytes → Interlude
  | none => []
  | some frame => [.frame frame]

namespace Client

variable {σ : Type}

/-- Something comes to a client. -/
def meet (client : Client σ) : Occurrence → Client σ
  | .frame bytes => client.receive bytes
  | .lose => { client with closed := true }
  | .world event now => { client with world := client.world.happen event now }

/-- What comes to a client between two steps comes one after the other. -/
def meetAll (client : Client σ) (interlude : Interlude) : Client σ := interlude.foldl meet client

/-- Brings a robot to a target through these interludes, and then stops it and says that it is there.
The robot is given up when no further interlude is granted. Also gives the interludes left. -/
def bring (server : Server σ) (robot : RobotName) (target : Pose Float)
    (interludes : List Interlude) (client : Client σ) :
    Except Halt Bool × Client σ × List Interlude :=
  approach server meetAll robot target interludes client

/-- What comes in during a period is met. -/
theorem meetAll_ofArrival (client : Client σ) (arrival : Option Bytes) :
    client.meetAll (.ofArrival arrival) = client.arrive arrival := by
  cases arrival with
  | none => rfl
  | some frame => rfl

/-- An approach in which what is granted is met in the same way is the same approach. -/
theorem approach_map {ι κ : Type} (server : Server σ) {meet : Client σ → ι → Client σ}
    {other : Client σ → κ → Client σ} {f : ι → κ} (h : ∀ client next, other client (f next) = meet client next)
    (robot : RobotName) (target : Pose Float) (granted : List ι) (client : Client σ) :
    approach server other robot target (granted.map f) client =
      ((approach server meet robot target granted client).1,
        (approach server meet robot target granted client).2.1,
        (approach server meet robot target granted client).2.2.map f) := by
  fun_induction approach server meet robot target granted client with
  | case1 granted client halt stepped hstep => rw [approach, hstep]
  | case2 granted client stepped hstep cause stopped hstop =>
    rw [approach, hstep]
    dsimp only
    rw [hstop]
  | case3 granted client stepped hstep outcome stopped hstop =>
    rw [approach, hstep]
    dsimp only
    rw [hstop]
  | case4 client stepped hstep => rw [List.map_nil, approach, hstep]
  | case5 client stepped hstep next more ih => rw [List.map_cons, approach, hstep, ← ih, ← h]

/-- Waiting for a robot is bringing it to its target through periods in which at most one frame comes
in. -/
theorem bring_ofArrival (server : Server σ) (robot : RobotName) (target : Pose Float)
    (arrivals : Arrivals) (client : Client σ) :
    let brought := bring server robot target (arrivals.map .ofArrival) client
    let waited := gotoWait server robot target arrivals client
    waited.1 = (brought.1.map fun _ => ()) ∧ waited.2.1 = brought.2.1 ∧
      brought.2.2 = waited.2.2.map .ofArrival := by
  rw [bring, approach_map server meetAll_ofArrival, gotoWait]
  exact ⟨rfl, rfl, rfl⟩

end Client

end RobotSoccer
