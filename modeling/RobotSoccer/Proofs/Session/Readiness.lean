import RobotSoccer.Proofs.Packet.RoundTrip
import RobotSoccer.Proofs.Session.Intake
import RobotSoccer.Session.Acquisition

/-!
# Readiness is never missed

Somebody who waits until everything was seen looks at one part after the other while packets are
applied part by part, and then waits for news. No wake-up is lost: between two packets nobody waits
for news behind the last of them in a world that is ready.
-/

namespace RobotSoccer

variable {σ : Type} {client next : Client σ} {intake : Intake}

/-- What a waiter may rely on, whatever happens meanwhile. -/
def Waiter.Sound (client : Client σ) (intake : Intake) : Waiter → Prop
  | .looking known parts =>
    known ≤ client.updates ∧
      ∃ before, before ++ parts = Part.needed ∧ ∀ part ∈ before, client.world.hasSeen part = true
  | .waiting known =>
    known ≤ client.updates ∧
      (known = client.updates → intake = .waiting → client.world.isReady = false)
  | .done (.ok ()) => client.world.isReady = true
  | .done (.error cause) =>
    cause = .disconnected ∧ client.closed = true ∧ intake = .waiting ∧ client.world.isReady = false

namespace Waiter

variable {waiter later : Waiter}

/-- A look at every part finds that the world is ready, whatever came in between two parts. -/
theorem Sound.isReady {known : Nat} (h : Sound client intake (.looking known [])) :
    client.world.isReady = true := by
  obtain ⟨-, before, hbefore, hseen⟩ := h
  rw [List.append_nil] at hbefore
  exact (World.isReady_iff_needed _).2 (hbefore ▸ hseen)

/-- What a waiter relies on is not changed by what it does itself. -/
theorem Sound.of_go (h : Sound client intake waiter) (hend : client.closed = true → intake = .waiting)
    (hgo : waiter.go client = some later) : Sound client intake later := by
  cases waiter with
  | looking known parts =>
    cases parts with
    | nil => cases hgo; exact h.isReady
    | cons part more =>
      obtain ⟨hknown, before, hbefore, hseen⟩ := h
      dsimp only [go] at hgo
      cases hpart : client.world.hasSeen part with
      | true =>
        rw [hpart, if_pos rfl] at hgo
        cases hgo
        refine ⟨hknown, before ++ [part], by rw [List.append_assoc]; exact hbefore, ?_⟩
        exact List.forall_mem_append.2 ⟨hseen, List.forall_mem_singleton.2 hpart⟩
      | false =>
        rw [hpart, if_neg Bool.false_ne_true] at hgo
        cases hgo
        refine ⟨hknown, fun _ _ => Bool.eq_false_iff.2 fun hready => ?_⟩
        -- the part that is missing is one of those that are needed
        have hneeded : part ∈ Part.needed :=
          hbefore ▸ List.mem_append_right before List.mem_cons_self
        exact Bool.false_ne_true (hpart.symm.trans ((World.isReady_iff_needed _).1 hready part hneeded))
  | waiting known =>
    obtain ⟨hknown, hmissing⟩ := h
    dsimp only [go, Client.newsBehind] at hgo
    by_cases hnews : known < client.updates
    · rw [if_pos hnews] at hgo
      cases hgo
      exact ⟨Nat.le_refl _, [], rfl, List.forall_mem_nil _⟩
    · rw [if_neg hnews] at hgo
      cases hclosed : client.closed with
      | false => rw [hclosed] at hgo; cases hgo
      | true =>
        rw [hclosed] at hgo
        cases hgo
        have hlast : known = client.updates := Nat.le_antisymm hknown (Nat.not_lt.1 hnews)
        exact ⟨rfl, hclosed, hend hclosed, hmissing hlast (hend hclosed)⟩
  | done result => cases hgo

/-- What a waiter relies on is not changed by the task that takes frames in. -/
theorem Sound.of_move {act : Intake.Act} {moved : Intake} (h : Sound client intake waiter)
    (hmove : Intake.Move client act intake (next, moved)) : Sound next moved waiter := by
  cases hmove with
  | begin now hopen =>
    cases waiter with
    | looking known parts => exact h
    | waiting known => exact ⟨h.1, fun _ happlying => nomatch happlying⟩
    | done result =>
      cases result with
      | ok => exact h
      | error cause => exact absurd (h.2.1.symm.trans hopen) Bool.false_ne_true.symm
  | skip now hopen => exact h
  | apply packet now part more =>
    have hstays {other : Part} (hseen : client.world.hasSeen other = true) :
        (client.world.receivePart packet now part).hasSeen other = true :=
      World.hasSeen_receivePart hseen packet now part
    cases waiter with
    | looking known parts =>
      obtain ⟨hknown, before, hbefore, hseen⟩ := h
      exact ⟨hknown, before, hbefore, fun other hother => hstays (hseen other hother)⟩
    | waiting known => exact ⟨h.1, fun _ happlying => nomatch happlying⟩
    | done result =>
      cases result with
      | ok =>
        have hseen := (World.isReady_iff_needed _).1 h
        exact (World.isReady_iff_needed _).2 fun other hother => hstays (hseen other hother)
      | error cause => exact nomatch h.2.2.1
  | announce packet now =>
    cases waiter with
    | looking known parts => exact ⟨Nat.le_succ_of_le h.1, h.2⟩
    | waiting known =>
      -- whoever waited before the announcement is behind it now
      refine ⟨Nat.le_succ_of_le h.1, fun hlast => absurd h.1 (Nat.not_le.2 ?_)⟩
      exact hlast ▸ Nat.lt_succ_self _
    | done result =>
      cases result with
      | ok => exact h
      | error cause => exact nomatch h.2.2.1
  | lose =>
    cases waiter with
    | looking known parts => exact h
    | waiting known => exact h
    | done result =>
      cases result with
      | ok => exact h
      | error cause => exact ⟨h.1, rfl, h.2.2⟩

end Waiter

/-- After the end of the stream no packet is being applied. -/
theorem Intake.Move.waiting_of_closed {act : Intake.Act} {moved : Intake}
    (hmove : Move client act intake (next, moved)) (h : client.closed = true → intake = .waiting)
    (hclosed : next.closed = true) : moved = .waiting := by
  cases hmove with
  | begin now hopen => exact absurd (hclosed.symm.trans hopen) Bool.false_ne_true.symm
  | skip now hopen => rfl
  | apply packet now part more => exact nomatch h hclosed
  | announce packet now => rfl
  | lose => rfl

namespace Acquisition

variable {acquisition later : Acquisition σ} {acts : List Act}

/-- A session in which the waiter may rely on what it found out. -/
structure Sound (acquisition : Acquisition σ) : Prop where
  /-- What the waiter found out holds. -/
  waiter : acquisition.waiter.Sound acquisition.client acquisition.intake
  /-- After the end of the stream no packet is being applied. -/
  ended : acquisition.client.closed = true → acquisition.intake = .waiting

/-- Whatever happens, the waiter may go on to rely on what it found out. -/
theorem Sound.of_happen (h : acquisition.Sound) {act : Act} (hact : acquisition.happen act = some later) :
    later.Sound := by
  cases act with
  | intake act =>
    obtain ⟨⟨next, moved⟩, hnext, rfl⟩ := Option.map_eq_some_iff.1 hact
    have hmove := Intake.move_of_happen hnext
    exact ⟨h.waiter.of_move hmove, hmove.waiting_of_closed h.ended⟩
  | go =>
    obtain ⟨next, hnext, rfl⟩ := Option.map_eq_some_iff.1 hact
    exact ⟨h.waiter.of_go h.ended hnext, h.ended⟩

/-- Nothing was found out yet when a wait begins. -/
theorem sound_start (client : Client σ) (untold : Nat) : (start client untold).Sound :=
  ⟨⟨Nat.sub_le _ _, [], rfl, List.forall_mem_nil _⟩, fun _ => rfl⟩

/-- Whatever happened since a wait began, the waiter may rely on what it found out. -/
theorem sound_run {untold : Nat} (hrun : (start client untold).run acts = some later) : later.Sound :=
  run_keeps Sound (fun _ _ _ hnext h => h.of_happen hnext) hrun (sound_start client untold)

/-- A waiter that looks at parts all of which were seen comes to the end of its wait. -/
theorem run_looking {known : Nat} {parts : List Part} (intake : Intake)
    (hseen : ∀ part ∈ parts, client.world.hasSeen part = true) :
    run ⟨client, intake, .looking known parts⟩ (List.replicate (parts.length + 1) .go) =
      some ⟨client, intake, .done (.ok ())⟩ := by
  induction parts with
  | nil => rfl
  | cons part more ih =>
    obtain ⟨hpart, hmore⟩ := List.forall_mem_cons.1 hseen
    rw [List.length_cons, List.replicate_succ, run, happen, Waiter.go, hpart, if_pos rfl]
    exact ih hmore

/-- In a world that is ready, between two packets, a waiter that goes on comes to the end of its
wait. -/
theorem Sound.done_of_ready (h : acquisition.Sound) (hbetween : acquisition.intake = .waiting)
    (hready : acquisition.client.world.isReady = true) :
    ∃ count, acquisition.run (List.replicate count .go) =
      some { acquisition with waiter := .done (.ok ()) } := by
  obtain ⟨client, intake, waiter⟩ := acquisition
  have hneeded := (World.isReady_iff_needed client.world).1 hready
  cases waiter with
  | looking known parts =>
    obtain ⟨-, before, hbefore, -⟩ := h.waiter
    refine ⟨_, run_looking intake fun part hpart => hneeded part ?_⟩
    exact hbefore ▸ List.mem_append_right before hpart
  | waiting known =>
    obtain ⟨hknown, hmissing⟩ := h.waiter
    have hbehind : known < client.updates := by
      refine Nat.lt_of_le_of_ne hknown fun hlast => ?_
      exact Bool.false_ne_true ((hmissing hlast hbetween).symm.trans hready)
    refine ⟨Part.needed.length + 1 + 1, ?_⟩
    rw [List.replicate_succ, run, happen, Waiter.go, Client.newsBehind, if_pos hbehind]
    exact run_looking intake hneeded
  | done result =>
    cases result with
    | ok => exact ⟨0, rfl⟩
    | error cause => exact absurd (h.waiter.2.2.2.symm.trans hready) Bool.false_ne_true

/-- What the task that takes frames in does, while the waiter does nothing, happens in a session. -/
theorem run_intake {next : Client σ} {intake moved : Intake} {acts : List Intake.Act} (waiter : Waiter)
    (hrun : intake.run client acts = some (next, moved)) :
    run ⟨client, intake, waiter⟩ (acts.map .intake) = some ⟨next, moved, waiter⟩ := by
  induction acts generalizing client intake with
  | nil => cases hrun; rfl
  | cons act more ih =>
    obtain ⟨⟨between, turned⟩, hact, hmore⟩ := Option.bind_eq_some_iff.1 hrun
    rw [List.map_cons, run, happen, hact]
    exact ih hmore

/-- Frames that come in one after the other while the waiter does nothing. -/
theorem exists_run_receiveAll (client : Client σ) (frames : List Bytes) (waiter : Waiter) :
    ∃ acts, run ⟨client, .waiting, waiter⟩ acts =
      some ⟨client.receiveAll frames, .waiting, waiter⟩ := by
  induction frames generalizing client with
  | nil => exact ⟨[], rfl⟩
  | cons frame more ih =>
    obtain ⟨acts, hacts⟩ := ih (client.receive frame)
    cases hclosed : client.closed with
    | true =>
      refine ⟨acts, ?_⟩
      rw [Client.receiveAll, List.foldl_cons, Client.receive_of_closed hclosed]
      rwa [Client.receive_of_closed hclosed] at hacts
    | false =>
      refine ⟨(Intake.Act.whole frame client.updates).map .intake ++ acts, ?_⟩
      rw [run_append, run_intake waiter (Intake.run_whole hclosed frame)]
      exact hacts

/-- A session does not begin when the controller is not reached. -/
theorem connect_of_unreached {config : Config} {sockets : Sockets} {cause : ConnectError}
    (h : config.reach sockets = .error cause) (far : σ) (frames : List Bytes) :
    Client.connect config far frames sockets = .failed (.connect cause) := by
  rw [Client.connect, h]

/-- A session in which everything must have been seen, with a controller that is reached, begins with
its first frames exactly when one who waits for it may come to the end of the wait behind them. -/
theorem begun_iff {config : Config} {sockets : Sockets} (hwait : config.waitReady = true)
    (hreached : config.reach sockets = .ok ()) (far : σ) (frames : List Bytes) :
    (∃ begun, Client.connect config far frames sockets = .begun begun) ↔
      ∃ acts, (start (Client.fresh config.key far) 0).run acts =
        some ⟨(Client.fresh config.key far).receiveAll frames, .waiting, .done (.ok ())⟩ := by
  constructor
  · rintro ⟨begun, hbegun⟩
    have hready : ((Client.fresh config.key far).receiveAll frames).world.isReady = true := by
      cases hmissing : ((Client.fresh config.key far).receiveAll frames).world.isReady with
      | true => rfl
      | false =>
        dsimp only [Client.connect] at hbegun
        rw [hreached, hwait, hmissing] at hbegun
        cases htimeout : config.readyTimeout <;> rw [htimeout] at hbegun <;> cases hbegun
    obtain ⟨acts, hacts⟩ := exists_run_receiveAll (Client.fresh config.key far) frames
      (.looking 0 Part.needed)
    have hrun : (start (Client.fresh config.key far) 0).run acts = _ := hacts
    obtain ⟨count, hcount⟩ := (sound_run hrun).done_of_ready rfl hready
    exact ⟨acts ++ List.replicate count .go, by rw [run_append, hrun]; exact hcount⟩
  · rintro ⟨acts, hacts⟩
    have hready : ((Client.fresh config.key far).receiveAll frames).world.isReady = true :=
      (sound_run hacts).waiter
    exact ⟨_, by simp only [Client.connect, hreached, hwait, hready]; rfl⟩

/-- However packets are applied part by part while somebody waits until everything was seen: between
two packets of a world that is ready the waiter does not wait for news behind the last of them, and
comes to the end of its wait when it goes on. A wait that ends well ends in a world that is ready;
otherwise the stream came to its end in a world that is not. -/
theorem readiness_law {untold : Nat} (hrun : (start client untold).run acts = some later) :
    (∀ known, later.waiter = .waiting known → later.intake = .waiting →
      later.client.world.isReady = true → known < later.client.updates) ∧
    (later.waiter = .done (.ok ()) → later.client.world.isReady = true) ∧
    (∀ cause, later.waiter = .done (.error cause) → cause = .disconnected ∧
      later.client.closed = true ∧ later.client.world.isReady = false) ∧
    (later.intake = .waiting → later.client.world.isReady = true →
      ∃ count, later.run (List.replicate count .go) = some { later with waiter := .done (.ok ()) }) := by
  have hsound := sound_run hrun
  refine ⟨fun known hwaiter hbetween hready => ?_, fun hwaiter => ?_, fun cause hwaiter => ?_,
    hsound.done_of_ready⟩
  · have hknown := hsound.waiter
    rw [hwaiter] at hknown
    refine Nat.lt_of_le_of_ne hknown.1 fun hlast => ?_
    exact Bool.false_ne_true ((hknown.2 hlast hbetween).symm.trans hready)
  · have hdone := hsound.waiter
    rwa [hwaiter] at hdone
  · have hdone := hsound.waiter
    rw [hwaiter] at hdone
    exact ⟨hdone.1, hdone.2.1, hdone.2.2.2⟩

/-- A client that has seen everything but the ball. -/
def ballMissing : Client Unit :=
  { Client.fresh "" () with
    world := { World.blank with robots := .fill ⟨some (.of 0.0 0.0 0.0), some 0, .blank⟩ } }

/-- A packet that shows nothing but the ball. -/
def ballShown : Packet := { Packet.blank with ball := some ⟨0.5, -0.25⟩ }

/-- Its parts are applied behind the look at the ball and before the wait for news. -/
def missedActs : List Act :=
  .intake (.frame ballShown.encode 1) :: .go :: List.replicate 7 (.intake .proceed)

/-- A waiter that missed a ball that was about to be applied is told of its packet. -/
theorem readiness_missed : ∃ later, (start ballMissing 0).run missedActs = some later ∧
    later.waiter = .waiting 0 ∧ later.client.world.isReady = true ∧ 0 < later.client.updates ∧
      ∃ count, later.run (List.replicate count .go) = some { later with waiter := .done (.ok ()) } := by
  have hfinite : ballShown.Finite := by
    refine ⟨⟨fun entry hentry => (List.not_mem_nil hentry).elim, fun p hp => ?_⟩, by decide⟩
    obtain rfl := Option.some.inj hp
    exact ⟨by decide, by decide⟩
  have hbegun := Intake.happen_of_decode (show ballMissing.closed = false from rfl)
    (Packet.decode_encode hfinite) 1
  obtain ⟨later, hrun, hwaiter, hbetween, hready⟩ : ∃ later,
      (start ballMissing 0).run missedActs = some later ∧ later.waiter = .waiting 0 ∧
        later.intake = .waiting ∧ later.client.world.isReady = true := by
    rw [missedActs, run, happen, start, hbegun]
    exact ⟨_, rfl, rfl, rfl, rfl⟩
  obtain ⟨hbehind, -, -, hdone⟩ := readiness_law hrun
  exact ⟨later, hrun, hwaiter, hready, hbehind 0 hwaiter hbetween hready, hdone hbetween hready⟩

end Acquisition

end RobotSoccer
