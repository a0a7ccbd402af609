import Mathlib.Data.List.DropRight
import Mathlib.Data.List.Induction
import RobotSoccer.Proofs.Controller.Published
import RobotSoccer.Proofs.Packet.Truncated

/-!
# The stream of frames

What a run publishes, tick by tick: first the frames that were pushed since the tick before, as they
are and in their order, then one packet, of the pitch as everything before left it and a period has
moved it. A client that receives all of it cannot tell whether frames that are no packets were pushed.
-/

namespace RobotSoccer.Controller

/-- Whether an event is the end of a period. -/
def Event.isTick : Event → Bool
  | .tick => true
  | .setBall _ | .setRobot _ _ | .setPreempted _ _ | .pushRaw _ | .clearReceived | .request _ => false

/-- The frame that an event pushes. -/
def Event.pushed? : Event → Option Bytes
  | .pushRaw frame => some frame
  | .setBall _ | .setRobot _ _ | .setPreempted _ _ | .clearReceived | .request _ | .tick => none

/-- The frames that are pushed in a run, in order. -/
def pushed (events : List Event) : List Bytes := events.filterMap Event.pushed?

/-- The frames that were pushed since the last tick of a run, in order. -/
def pushedSinceTick (events : List Event) : List Bytes :=
  pushed (events.rtakeWhile fun event => !event.isTick)

/-- What happened before each tick of a run, tick by tick. -/
def beforeTicks : List Event → List (List Event)
  | [] => []
  | event :: more => (if event.isTick then [[]] else []) ++ (beforeTicks more).map (event :: ·)

/-- What happened before the ticks of a run, when one more event has happened. -/
theorem beforeTicks_concat (events : List Event) (event : Event) :
    beforeTicks (events ++ [event]) =
      beforeTicks events ++ if event.isTick then [events] else [] := by
  induction events with
  | nil => simp only [List.nil_append, beforeTicks, List.map_nil, List.append_nil]
  | cons first more ih =>
    have hlast : (if event.isTick then [more] else []).map (first :: ·) =
        if event.isTick then [first :: more] else [] := by
      cases event.isTick <;> rfl
    rw [List.cons_append, beforeTicks, ih, List.map_append, hlast, beforeTicks, List.append_assoc]

/-- An event adds what it pushes to the frames that are pushed in a run. -/
theorem pushed_concat (events : List Event) (event : Event) :
    pushed (events ++ [event]) = pushed events ++ event.pushed?.toList := by
  have hone : pushed [event] = event.pushed?.toList := by
    cases event <;> rfl
  rw [pushed, List.filterMap_append, ← hone]
  rfl

/-- A tick pushes nothing. -/
theorem Event.pushed?_of_isTick {event : Event} (h : event.isTick = true) : event.pushed? = none := by
  cases event with
  | tick => rfl
  | pushRaw frame => cases h
  | setBall ball => rfl
  | setRobot name pose => rfl
  | setPreempted name reason => rfl
  | clearReceived => rfl
  | request bytes => rfl

/-- A tick begins the frames pushed since the last tick anew, and any other event adds what it
pushes. -/
theorem pushedSinceTick_concat (events : List Event) (event : Event) :
    pushedSinceTick (events ++ [event]) =
      if event.isTick then [] else pushedSinceTick events ++ event.pushed?.toList := by
  cases htick : event.isTick with
  | true =>
    have hstop : ¬(!event.isTick) = true := by rw [htick]; decide
    rw [pushedSinceTick,
      List.rtakeWhile_concat_neg (fun event : Event => !event.isTick) events event hstop]
    rfl
  | false =>
    have hgo : (!event.isTick) = true := by rw [htick]; rfl
    rw [pushedSinceTick,
      List.rtakeWhile_concat_pos (fun event : Event => !event.isTick) events event hgo]
    exact pushed_concat _ event

/-- What an event does to the frames that wait: a tick publishes them, and they are followed by what
any other event pushes. -/
theorem rawFrames_happen (controller : Controller) (event : Event) :
    (controller.happen event).2.pitch.rawFrames =
      if event.isTick then [] else controller.pitch.rawFrames ++ event.pushed?.toList := by
  cases event with
  | pushRaw frame => rfl
  | request bytes => exact (controller.answer_frame bytes).2.trans (List.append_nil _).symm
  | tick => rfl
  | setBall ball => exact (List.append_nil _).symm
  | setRobot name pose => exact (List.append_nil _).symm
  | setPreempted name reason => exact (List.append_nil _).symm
  | clearReceived => exact (List.append_nil _).symm

/-- The frames that wait after a run from the start are those pushed since its last tick. -/
theorem rawFrames_run (keys : TeamKeys) (events : List Event) :
    (run (fresh keys) events).2.pitch.rawFrames = pushedSinceTick events := by
  induction events using List.reverseRecOn with
  | nil => rfl
  | append_singleton events event ih =>
    rw [run_concat, rawFrames_happen, pushedSinceTick_concat, ih]

/-- Only a tick publishes anything: the frames that wait, and a packet of the pitch after a period. -/
theorem frames_happen (controller : Controller) (event : Event) :
    (controller.happen event).1.frames =
      if event.isTick then
        controller.pitch.rawFrames ++ [(controller.pitch.advance publishPeriod).packet.encode]
      else [] := by
  cases event <;> rfl

/-- A run from the start publishes, tick by tick, the frames that were pushed since the tick before and
one packet. -/
theorem published_fresh (keys : TeamKeys) (events : List Event) :
    (fresh keys).published events =
      (beforeTicks events).flatMap fun before => pushedSinceTick before ++
        [((run (fresh keys) before).2.pitch.advance publishPeriod).packet.encode] := by
  induction events using List.reverseRecOn with
  | nil => rfl
  | append_singleton events event ih =>
    have hlast : (run (fresh keys) events).2.published [event] =
        ((run (fresh keys) events).2.happen event).1.frames := List.append_nil _
    rw [published_append, ih, hlast, frames_happen, beforeTicks_concat, List.flatMap_append,
      rawFrames_run]
    cases event.isTick with
    | true => simp only [if_true, List.flatMap_singleton]
    | false => simp only [Bool.false_eq_true, if_false, List.flatMap_nil]

/-- Every frame that was pushed in a run was pushed before one of its ticks and after the tick before,
or after its last tick. -/
theorem pushed_eq (events : List Event) :
    pushed events = (beforeTicks events).flatMap pushedSinceTick ++ pushedSinceTick events := by
  induction events using List.reverseRecOn with
  | nil => rfl
  | append_singleton events event ih =>
    rw [pushed_concat, ih, beforeTicks_concat, pushedSinceTick_concat, List.flatMap_append]
    cases htick : event.isTick with
    | true =>
      have hnone := Event.pushed?_of_isTick htick
      simp only [hnone, if_true, List.flatMap_singleton, Option.toList_none, List.append_nil]
    | false =>
      simp only [Bool.false_eq_true, if_false, List.flatMap_nil, List.append_nil, List.append_assoc]

/-- Whether an event pushes a frame that is no packet. -/
def Event.isNoise : Event → Bool
  | .pushRaw frame => !(Packet.decode frame).isOk
  | .setBall _ | .setRobot _ _ | .setPreempted _ _ | .clearReceived | .request _ | .tick => false

/-- A run without the frames in it that are no packets. -/
def quiet (events : List Event) : List Event := events.filter fun event => !event.isNoise

/-- The frames that are packets. -/
def readable (frames : List Bytes) : List Bytes := frames.filter fun frame => (Packet.decode frame).isOk

/-- Only a frame that is no packet is noise. -/
theorem Event.exists_frame_of_isNoise {event : Event} (h : event.isNoise = true) :
    ∃ frame, event = .pushRaw frame ∧ readable [frame] = [] := by
  cases event with
  | pushRaw frame =>
    have hbad : ¬(Packet.decode frame).isOk = true := by
      intro hok
      rw [isNoise, hok] at h
      cases h
    exact ⟨frame, rfl, List.filter_cons_of_neg hbad⟩
  | setBall ball => cases h
  | setRobot name pose => cases h
  | setPreempted name reason => cases h
  | clearReceived => cases h
  | request bytes => cases h
  | tick => cases h

/-- The packets among frames are those among their parts. -/
theorem readable_append (before after : List Bytes) :
    readable (before ++ after) = readable before ++ readable after := List.filter_append ..

/-- A run is quiet when its parts are. -/
theorem quiet_append (before after : List Event) :
    quiet (before ++ after) = quiet before ++ quiet after := List.filter_append ..

/-- Noise is left out. -/
theorem quiet_cons_of_isNoise {event : Event} (h : event.isNoise = true) (more : List Event) :
    quiet (event :: more) = quiet more := List.filter_cons_of_neg (by rw [h]; decide)

/-- Everything else stays. -/
theorem quiet_cons {event : Event} (h : event.isNoise = false) (more : List Event) :
    quiet (event :: more) = event :: quiet more := List.filter_cons_of_pos (by rw [h]; rfl)

/-- A controller for which these frames wait instead. -/
def withFrames (controller : Controller) (frames : List Bytes) : Controller :=
  controller.onPitch fun pitch => { pitch with rawFrames := frames }

/-- A controller without the frames that wait and are no packets. -/
def hushed (controller : Controller) : Controller :=
  controller.withFrames (readable controller.pitch.rawFrames)

/-- A request is answered whatever frames wait. -/
theorem answer_withFrames (controller : Controller) (frames : List Bytes) (bytes : Bytes) :
    (controller.withFrames frames).answer bytes =
      ((controller.answer bytes).1, (controller.answer bytes).2.withFrames frames) := by
  unfold answer
  cases Reader.whole readOrder bytes with
  | error fault => rfl
  | ok order =>
    have hstatus : preempting? (controller.withFrames frames).pitch order =
        preempting? controller.pitch order := rfl
    have hkeys : (controller.withFrames frames).keys = controller.keys := rfl
    dsimp only
    unfold obey
    rw [hstatus, hkeys]
    cases RobotName.ofText? order.robotText with
    | none => rfl
    | some robot =>
      dsimp only
      by_cases hkey : controller.keys.of robot.team ≠ order.key
      · rw [if_pos hkey, if_pos hkey]
      · rw [if_neg hkey, if_neg hkey, carryOut?_eq, carryOut?_eq]
        cases preempting? controller.pitch order with
        | some status => rfl
        | none =>
          cases ordered? order.command with
          | none => rfl
          | some velocity => cases velocity <;> rfl

/-- A frame that is no packet is all that is added when it is pushed. -/
theorem hushed_happen_of_isNoise {controller : Controller} {event : Event}
    (h : event.isNoise = true) : (controller.happen event).2.hushed = controller.hushed := by
  obtain ⟨frame, rfl, hnone⟩ := Event.exists_frame_of_isNoise h
  have hraw : readable (controller.pitch.rawFrames ++ [frame]) =
      readable controller.pitch.rawFrames := by
    rw [readable_append, hnone, List.append_nil]
  exact congrArg controller.withFrames hraw

/-- Any other event does the same whether frames that are no packets wait or not. -/
theorem hushed_happen {controller : Controller} {event : Event} (h : event.isNoise = false) :
    (controller.happen event).2.hushed = (controller.hushed.happen event).2 := by
  cases event with
  | pushRaw frame =>
    have hok : (Packet.decode frame).isOk = true := by
      simpa only [Event.isNoise, Bool.not_eq_false'] using h
    have hone : readable [frame] = [frame] := List.filter_cons_of_pos hok
    have hraw : readable (controller.pitch.rawFrames ++ [frame]) =
        readable controller.pitch.rawFrames ++ [frame] := by
      rw [readable_append, hone]
    exact congrArg controller.withFrames hraw
  | request bytes =>
    have hraw := (controller.answer_frame bytes).2
    have hanswer := controller.answer_withFrames (readable controller.pitch.rawFrames) bytes
    change (controller.answer bytes).2.hushed = (controller.hushed.answer bytes).2
    rw [hushed, hushed, hraw, hanswer]
  | setBall ball => rfl
  | setRobot name pose => rfl
  | setPreempted name reason => rfl
  | clearReceived => rfl
  | tick => rfl

/-- An event publishes the same packets whether frames that are no packets wait or not. -/
theorem readable_frames_hushed (controller : Controller) (event : Event) :
    readable (controller.hushed.happen event).1.frames =
      readable (controller.happen event).1.frames := by
  have hpacket : (controller.hushed.pitch.advance publishPeriod).packet =
      (controller.pitch.advance publishPeriod).packet := rfl
  have hraw : controller.hushed.pitch.rawFrames = readable controller.pitch.rawFrames := rfl
  rw [frames_happen, frames_happen, hpacket, hraw]
  cases event.isTick with
  | true => simp only [if_true, readable, List.filter_append, List.filter_filter, Bool.and_self]
  | false => rfl

/-- A run publishes what its first event publishes and then what the others publish. -/
theorem published_cons (controller : Controller) (event : Event) (more : List Event) :
    controller.published (event :: more) =
      (controller.happen event).1.frames ++ (controller.happen event).2.published more := rfl

/-- A run publishes the same packets without the frames in it that are no packets. -/
theorem readable_published_quiet (controller : Controller) (events : List Event) :
    readable (controller.hushed.published (quiet events)) =
      readable (controller.published events) := by
  induction events generalizing controller with
  | nil => rfl
  | cons event more ih =>
    have hrest := ih (controller.happen event).2
    cases hnoise : event.isNoise with
    | true =>
      obtain ⟨frame, rfl, -⟩ := Event.exists_frame_of_isNoise hnoise
      rw [hushed_happen_of_isNoise hnoise] at hrest
      rw [quiet_cons_of_isNoise hnoise, hrest]
      rfl
    | false =>
      have hfirst := controller.readable_frames_hushed event
      rw [hushed_happen hnoise] at hrest
      rw [quiet_cons hnoise, published_cons, published_cons, readable_append, readable_append, hrest,
        hfirst]

/-- Leaving out frames that are no packets leaves the ticks where they are. -/
theorem beforeTicks_quiet (events : List Event) :
    beforeTicks (quiet events) = (beforeTicks events).map quiet := by
  induction events using List.reverseRecOn with
  | nil => rfl
  | append_singleton events event ih =>
    rw [quiet_append, beforeTicks_concat, List.map_append, ← ih]
    cases hnoise : event.isNoise with
    | true =>
      obtain ⟨frame, rfl, -⟩ := Event.exists_frame_of_isNoise hnoise
      have hskip : quiet [.pushRaw frame] = [] := quiet_cons_of_isNoise hnoise []
      rw [hskip, List.append_nil]
      exact (List.append_nil _).symm
    | false =>
      have hkeep : quiet [event] = [event] := quiet_cons hnoise []
      rw [hkeep, beforeTicks_concat]
      cases event.isTick <;> rfl

end RobotSoccer.Controller

namespace RobotSoccer.Client

variable {σ : Type}

/-- A client that receives frames takes in those that are packets. -/
theorem receiveAll_readable (client : Client σ) (frames : List Bytes) :
    client.receiveAll (Controller.readable frames) = client.receiveAll frames := by
  induction frames generalizing client with
  | nil => rfl
  | cons frame more ih =>
    have hrest := ih (client.receive frame)
    have hfirst : client.receiveAll (frame :: more) = (client.receive frame).receiveAll more := rfl
    rw [hfirst, ← hrest, Controller.readable, List.filter_cons]
    cases hdecode : Packet.decode frame with
    | ok packet => rfl
    | error fault =>
      rw [Packet.receive_of_error client hdecode]
      rfl

/-- A client whose stream goes on counts the packets among the frames that it receives. -/
theorem updates_receiveAll {client : Client σ} (hopen : client.closed = false) (frames : List Bytes) :
    (client.receiveAll frames).updates =
      client.updates + frames.countP fun frame => (Packet.decode frame).isOk := by
  induction frames generalizing client with
  | nil => rfl
  | cons frame more ih =>
    have hfirst : client.receiveAll (frame :: more) = (client.receive frame).receiveAll more := rfl
    rw [hfirst, List.countP_cons]
    cases hdecode : Packet.decode frame with
    | ok packet =>
      have hreceive : client.receive frame = { client with
          world := client.world.receive packet client.updates
          updates := client.updates + 1
          unseen := true } := by
        rw [receive, hopen, World.receiveFrame, hdecode]
        rfl
      have hgoes : (client.receive frame).closed = false := hreceive ▸ hopen
      have hcount := ih hgoes
      rw [hcount, hreceive, Except.isOk, Except.toBool]
      simp only [if_true]
      omega
    | error fault =>
      have hcount := ih hopen
      rw [Packet.receive_of_error client hdecode, hcount]
      rfl

end RobotSoccer.Client

namespace RobotSoccer.Controller

/-- A client after each tick of a run from the start, all frames of which it receives. -/
def listening {σ : Type} (keys : TeamKeys) (client : Client σ) (events : List Event) :
    List (Client σ) :=
  (beforeTicks events).map fun before =>
    client.receiveAll ((fresh keys).published (before ++ [.tick]))

/-- Frames that are no packets are nothing to a client that receives all frames. -/
theorem listening_quiet {σ : Type} (keys : TeamKeys) (client : Client σ) (events : List Event) :
    listening keys client (quiet events) = listening keys client events := by
  have heach (before : List Event) :
      client.receiveAll ((fresh keys).published (quiet before ++ [.tick])) =
        client.receiveAll ((fresh keys).published (before ++ [.tick])) := by
    have hquiet : quiet before ++ [.tick] = quiet (before ++ [.tick]) :=
      (quiet_append before [.tick]).symm
    have hfresh : (fresh keys).hushed = fresh keys := rfl
    have hpackets := (fresh keys).readable_published_quiet (before ++ [.tick])
    rw [hfresh] at hpackets
    rw [hquiet, ← client.receiveAll_readable, hpackets, client.receiveAll_readable]
  rw [listening, beforeTicks_quiet, List.map_map]
  exact List.map_congr_left fun before _ => heach before

/-- The law of the published stream. A run from the start publishes, tick by tick, the frames pushed
since the tick before and then the packet of the pitch as all before left it and one period has moved
it; so every pushed frame is published once, in its place, or still waits. Two runs that differ in
frames that are no packets bring a client that receives everything to the same state after each tick,
and it counts the packets among the frames that were published. -/
theorem stream_law (keys : TeamKeys) (events : List Event) :
    (fresh keys).published events =
        ((beforeTicks events).flatMap fun before => pushedSinceTick before ++
          [((run (fresh keys) before).2.pitch.advance publishPeriod).packet.encode]) ∧
      pushed events = (beforeTicks events).flatMap pushedSinceTick ++ pushedSinceTick events ∧
      ∀ {σ : Type} (key : String) (far : σ),
        (∀ other, quiet other = quiet events →
          listening keys (Client.fresh key far) other =
            listening keys (Client.fresh key far) events) ∧
        ((Client.fresh key far).receiveAll ((fresh keys).published events)).updates =
          ((fresh keys).published events).countP fun frame => (Packet.decode frame).isOk := by
  refine ⟨published_fresh keys events, pushed_eq events, fun key far => ⟨fun other hsame => ?_, ?_⟩⟩
  · have hother := listening_quiet keys (Client.fresh key far) other
    have hevents := listening_quiet keys (Client.fresh key far) events
    rw [← hother, hsame, hevents]
  · have hopen : (Client.fresh key far).closed = false := rfl
    have hcount := Client.updates_receiveAll hopen ((fresh keys).published events)
    exact hcount.trans (Nat.zero_add _)

/-- A run with frames that are no packets before each of its ticks. -/
def noisyRun : List Event :=
  [.pushRaw [], .setRobot .blue1 (.of 0.0 0.0 0.0), .tick, .pushRaw [0x5B], .tick]

/-- The frames that are no packets are published before the packets of their ticks, and a client that
receives everything is after both ticks as if they had not been pushed. -/
theorem stream_law_noisy :
    ∃ first second,
      (fresh ⟨"b", "g"⟩).published noisyRun = [[], first, [0x5B], second] ∧
        (fresh ⟨"b", "g"⟩).published [.setRobot .blue1 (.of 0.0 0.0 0.0), .tick, .tick] =
          [first, second] ∧
        listening ⟨"b", "g"⟩ (Client.fresh "b" ()) noisyRun =
          listening ⟨"b", "g"⟩ (Client.fresh "b" ())
            [.setRobot .blue1 (.of 0.0 0.0 0.0), .tick, .tick] ∧
        (listening ⟨"b", "g"⟩ (Client.fresh "b" ()) noisyRun).length = 2 := by
  obtain ⟨-, -, hclients⟩ :=
    stream_law ⟨"b", "g"⟩ [.setRobot .blue1 (.of 0.0 0.0 0.0), .tick, .tick]
  obtain ⟨hsame, -⟩ := hclients "b" ()
  have hquiet : quiet noisyRun = quiet [.setRobot .blue1 (.of 0.0 0.0 0.0), .tick, .tick] := rfl
  exact ⟨_, _, rfl, rfl, hsame noisyRun hquiet, rfl⟩

end RobotSoccer.Controller
