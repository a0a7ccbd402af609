import Mathlib.Algebra.GroupWithZero.Nat
import RobotSoccer.Proofs.Session.Turns

/-!
# Links settle

What is left to be done over a link is counted: each thing that an exchange, the far end or a caller
who is told an outcome does takes one away, and while something is left one of them can go on. So
whatever the schedule, every exchange comes to its end and every caller who stays is told.
-/

namespace RobotSoccer

/-- How many things are left to be done before an exchange is done, from its request on also by the
far end. -/
def Phase.left : Phase → Nat
  | .begun => 5
  | .queued => 4
  | .sent => 2
  | .received _ => 1
  | .done _ => 0

/-- Whether a caller is left to be told an outcome. -/
def Caller.left : Caller → Nat
  | .waiting => 1
  | .gone => 0
  | .told _ => 0

/-- How many things are left to be done for a call, but for the answer to a request on its way. -/
def Call.left (call : Call) : Nat := call.phase.left + call.caller.left

/-- Nothing is left to be done for a call when its exchange is done and its caller does not wait. -/
theorem Call.left_eq_zero {call : Call} (h : call.left = 0) :
    (∃ outcome, call.phase = .done outcome) ∧ call.caller ≠ .waiting := by
  obtain ⟨hphase, hcaller⟩ := Nat.add_eq_zero_iff.1 h
  refine ⟨?_, fun hwaiting => ?_⟩
  · cases hfound : call.phase with
    | done outcome => exact ⟨outcome, rfl⟩
    | begun => rw [hfound] at hphase; cases hphase
    | queued => rw [hfound] at hphase; cases hphase
    | sent => rw [hfound] at hphase; cases hphase
    | received => rw [hfound] at hphase; cases hphase
  · rw [hwaiting] at hcaller
    cases hcaller

namespace Link

variable {σ : Type} {peer : Peer σ} {link next : Link σ} {turns : List Turn}
  {current : Option (Nat × Bytes)} {id : Nat} {call : Call}

/-- How many things are left to be done over a link. -/
def left (link : Link σ) : Nat := (link.calls.map Call.left).sum + link.requests.length

/-- Whether an act is one of those that bring what was called for to its end. -/
def Act.Settles : Act σ → Prop
  | .call _ _ => False
  | .leave _ => False
  | .take _ => True
  | .work (.proceed _) => True
  | .work .answer => True
  | .work (.change _) => False

/-- What is left changes with the call that is set. -/
theorem sum_left_set {calls : List Call} (h : calls[id]? = some call) (other : Call) :
    ((calls.set id other).map Call.left).sum + call.left =
      (calls.map Call.left).sum + other.left := by
  induction calls generalizing id with
  | nil => cases h
  | cons first more ih =>
    cases id with
    | zero =>
      obtain rfl : first = call := Option.some.inj h
      simp only [List.set_cons_zero, List.map_cons, List.sum_cons]
      omega
    | succ id =>
      have hmore := ih h
      simp only [List.set_cons_succ, List.map_cons, List.sum_cons]
      omega

/-- An exchange that goes on has one thing less to do. -/
theorem left_of_proceed (h : link.proceed id = some next) : next.left + 1 = link.left := by
  obtain ⟨call, hcall, hcases⟩ := proceed_cases h
  have hset (phase : Phase) := sum_left_set hcall { call with phase := phase }
  rcases hcases with ⟨hphase, rfl⟩ | ⟨hphase, hsend⟩ | ⟨hphase, hreceive⟩ | ⟨message, hphase, rfl⟩
  · have hsum := hset .queued
    simp only [Call.left, hphase, Phase.left] at hsum
    simp only [left, ask, setCall]
    omega
  · obtain ⟨-, rfl⟩ := send_cases hsend
    have hsum := hset .sent
    simp only [Call.left, hphase, Phase.left] at hsum
    simp only [left, setCall, List.length_append, List.length_singleton]
    omega
  · obtain ⟨message, more, -, rfl⟩ := receive_cases hreceive
    have hsum := hset (.received message)
    simp only [Call.left, hphase, Phase.left] at hsum
    simp only [left, setCall]
    omega
  · have hsum := hset (.done (Reply.decodeMessage message))
    simp only [Call.left, hphase, Phase.left] at hsum
    simp only [left, giveBack, setCall]
    omega

/-- Every act that settles something leaves one thing less to be done. -/
theorem left_of_happen {act : Act σ} (hsettles : act.Settles) (h : link.happen peer act = some next) :
    next.left + 1 = link.left := by
  cases act with
  | call => exact hsettles.elim
  | leave => exact hsettles.elim
  | take id =>
    obtain ⟨⟨outcome, later⟩, htake, rfl⟩ := Option.map_eq_some_iff.1 h
    obtain ⟨call, hcall, -, hwaiting, rfl⟩ := take_cases htake
    have hsum := sum_left_set hcall { call with caller := .told outcome }
    simp only [Call.left, hwaiting, Caller.left] at hsum
    simp only [left, setCall]
    omega
  | work work =>
    cases work with
    | proceed id => exact left_of_proceed h
    | answer =>
      obtain ⟨request, more, hrequests, rfl⟩ := answer_cases h
      simp only [left, hrequests, List.length_cons]
      omega
    | change => exact hsettles.elim

/-- An exchange that has not come to its end goes on, unless it waits for the link or for a reply. -/
theorem proceed_of_phase (hcall : link.calls[id]? = some call) :
    link.proceed id = match call.phase with
      | .begun => some (link.ask id call)
      | .queued => link.send id call
      | .sent => link.receive id call
      | .received message => some (link.giveBack id call message)
      | .done _ => none := by
  cases hphase : call.phase <;> simp only [proceed, hcall, hphase]

/-- The exchange that has the link goes on, or else the far end can answer. -/
theorem Orderly.exists_of_head (h : Orderly link turns current) (hhead : link.line.head? = some id)
    (hrequests : link.requests = []) : ∃ next, link.proceed id = some next := by
  have hin := List.mem_of_head? hhead
  obtain ⟨call, hcall⟩ : ∃ call, link.calls[id]? = some call :=
    ⟨_, List.getElem?_eq_getElem (h.inLine id hin)⟩
  have hfits := h.fits id call hcall
  rw [proceed_of_phase hcall]
  cases hphase : call.phase with
  | begun => rw [hphase] at hfits; exact absurd hin hfits.1
  | done => rw [hphase] at hfits; exact absurd hin hfits.1
  | queued => exact ⟨_, if_pos hhead⟩
  | received message => exact ⟨_, rfl⟩
  | sent =>
    rw [hphase] at hfits
    obtain ⟨-, rfl, -⟩ := hfits
    cases h.wire with
    | asked hone => rw [hone] at hrequests; cases hrequests
    | answered _ hreplies =>
      dsimp only [receive]
      rw [hreplies]
      exact ⟨_, rfl⟩

/-- Something can be done over an orderly link while something is left. -/
theorem Orderly.exists_happen (peer : Peer σ) (h : Orderly link turns current)
    (hleft : link.left ≠ 0) : ∃ act : Act σ, act.Settles ∧ ∃ next, link.happen peer act = some next := by
  cases hrequests : link.requests with
  | cons request more =>
    refine ⟨.work .answer, trivial, Option.isSome_iff_exists.1 ?_⟩
    dsimp only [happen, perform, answer]
    rw [hrequests]
    rfl
  | nil =>
    have hproceed {id : Nat} (hhead : link.line.head? = some id) :
        ∃ act : Act σ, act.Settles ∧ ∃ next, link.happen peer act = some next :=
      ⟨.work (.proceed id), trivial, h.exists_of_head hhead hrequests⟩
    have hsum : (link.calls.map Call.left).sum ≠ 0 := by
      rw [left, hrequests] at hleft
      exact hleft
    have hexists : ∃ call ∈ link.calls, call.left ≠ 0 := by
      by_contra hnone
      push Not at hnone
      exact hsum (List.sum_eq_zero_iff_forall_eq_nat.2 (List.forall_mem_map.2 hnone))
    obtain ⟨call, hmem, hcallLeft⟩ := hexists
    obtain ⟨id, hcall⟩ := List.mem_iff_getElem?.1 hmem
    have hfits := h.fits id call hcall
    cases hphase : call.phase with
    | begun =>
      refine ⟨.work (.proceed id), trivial, link.ask id call, ?_⟩
      dsimp only [happen, perform]
      rw [proceed_of_phase hcall, hphase]
    | queued =>
      rw [hphase] at hfits
      exact hproceed (List.head?_eq_some_head (List.ne_nil_of_mem hfits.1))
    | sent => rw [hphase] at hfits; exact hproceed hfits.1
    | received => rw [hphase] at hfits; exact hproceed hfits.1
    | done outcome =>
      have hwaiting : call.caller = .waiting := by
        cases hcaller : call.caller with
        | waiting => rfl
        | gone => exact absurd (by rw [Call.left, hphase, hcaller]; rfl) hcallLeft
        | told => exact absurd (by rw [Call.left, hphase, hcaller]; rfl) hcallLeft
      refine ⟨.take id, trivial, link.setCall id { call with caller := .told outcome }, ?_⟩
      dsimp only [happen, take]
      rw [hcall]
      dsimp only
      rw [hphase, hwaiting]
      rfl

/-- A run of acts that settle something is as long as what it leaves is less. -/
theorem left_of_run {acts : List (Act σ)} {later : Link σ} (hsettles : ∀ act ∈ acts, act.Settles)
    (hrun : link.run peer acts = some later) : later.left + acts.length = link.left := by
  induction acts generalizing link with
  | nil =>
    obtain rfl := Option.some.inj hrun
    rfl
  | cons act more ih =>
    obtain ⟨hact, hmore⟩ := List.forall_mem_cons.1 hsettles
    obtain ⟨next, hnext, hrest⟩ := Option.bind_eq_some_iff.1 hrun
    have hfirst := left_of_happen hact hnext
    have hlater := ih hmore hrest
    rw [List.length_cons]
    omega

end Link

end RobotSoccer
