import RobotSoccer.Proofs.Session.Alternation
import RobotSoccer.Session.Mission

/-!
# Missions wait for what they call for

During a mission every command has its outcome before the next one is called for, but for the one
whose outcome was waited for when the loop was told to stop. That one is left to itself, as are the
exchanges that were under way when the mission began.
-/

namespace RobotSoccer

variable {σ μ : Type}

namespace Link

variable {peer : Peer σ} {link next : Link σ} {turns : List Turn} {current : Option (Nat × Bytes)}
  {origin : Link σ} {dropped awaited : Option Nat} {id : Nat} {call : Call}

/-- The exchange of a call is under way. -/
def Pending (link : Link σ) (id : Nat) : Prop :=
  ∃ call, link.calls[id]? = some call ∧ ∀ outcome, call.phase ≠ .done outcome

/-- A call that a mission does not wait for: its exchange was under way when the mission began at
`origin`, or it was dropped since. -/
def Stray (origin : Link σ) (dropped : Option Nat) (id : Nat) : Prop :=
  origin.Pending id ∨ dropped = some id

/-- Two turns, one of them of a call since `origin`, come in the order of the calls unless a stray
call has one of them. -/
def InOrder (origin : Link σ) (dropped : Option Nat) (before after : Turn) : Prop :=
  origin.calls.length ≤ before.call ∨ origin.calls.length ≤ after.call →
    ¬ Stray origin dropped before.call → ¬ Stray origin dropped after.call →
    before.call < after.call

/-- Every exchange is done but for stray ones and one, the last, that is waited for. Since `origin`,
and but for the stray ones, the turns came in the order of the calls. -/
structure Attended (link : Link σ) (turns : List Turn) (origin : Link σ) (dropped awaited : Option Nat) :
    Prop where
  /-- Requests carry the key that they carried. -/
  key : link.key = origin.key
  /-- The other exchanges are done. -/
  done : ∀ (id : Nat) (call : Call), link.calls[id]? = some call → ¬ Stray origin dropped id →
    awaited ≠ some id → ∃ outcome, call.phase = .done outcome
  /-- No call is taken back. -/
  origin_le : origin.calls.length ≤ link.calls.length
  /-- The one that is waited for is the last. -/
  last : ∀ id, awaited = some id → id + 1 = link.calls.length
  /-- The caller of the dropped one has left. -/
  gone : ∀ id, dropped = some id → ∃ call, link.calls[id]? = some call ∧ call.caller = .gone
  /-- The turns of the others came in order. -/
  sorted : turns.Pairwise (InOrder origin dropped)

/-- A new call is waited for when none was. -/
theorem Attended.of_call (h : Attended link turns origin dropped none) (robot : RobotName)
    (command : Command) :
    Attended (link.call robot command) turns origin dropped (some link.calls.length) where
  key := h.key
  done := by
    refine forall_append (fun _ hne => absurd rfl hne) fun id call hcall hkept _ => ?_
    exact h.done id call hcall hkept nofun
  origin_le := by
    rw [Link.call, List.length_append]
    exact Nat.le_add_right_of_le h.origin_le
  last id hid := by
    obtain rfl := Option.some.inj hid
    rw [Link.call, List.length_append]
    rfl
  gone id hid := by
    obtain ⟨call, hcall, hgone⟩ := h.gone id hid
    have hlt := (List.getElem?_eq_some_iff.1 hcall).1
    exact ⟨call, (List.getElem?_append_left hlt).trans hcall, hgone⟩
  sorted := h.sorted

/-- What was waited for is done when its outcome is told. -/
theorem Attended.of_take (h : Attended link turns origin dropped (some id))
    {outcome : Except CommandError Outcome} (htake : link.take id = some (outcome, next)) :
    Attended next turns origin dropped none := by
  obtain ⟨call, hcall, hdone, hwaiting, rfl⟩ := take_cases htake
  have hfirst (other : Call) : origin.calls.length ≤ (link.calls.set id other).length := by
    rw [List.length_set]
    exact h.origin_le
  refine ⟨h.key, forall_set (fun _ _ => ⟨outcome, hdone⟩) ?_, hfirst _, nofun, fun j hj => ?_, h.sorted⟩
  · intro j other hne hother hkept _
    exact h.done j other hother hkept fun heq => hne (Option.some.inj heq).symm
  · obtain ⟨other, hother, hgone⟩ := h.gone j hj
    have hne : id ≠ j := by
      rintro rfl
      obtain rfl := Option.some.inj (hcall.symm.trans hother)
      rw [hwaiting] at hgone
      cases hgone
    exact ⟨other, (List.getElem?_set_ne hne).trans hother, hgone⟩

/-- What was waited for is dropped when its caller leaves, if nothing was dropped before. -/
theorem Attended.of_leave (h : Attended link turns origin none (some id))
    (hleave : link.leave id = some next) : Attended next turns origin (some id) none := by
  obtain ⟨call, hcall, -, rfl⟩ := leave_cases hleave
  have hlt := (List.getElem?_eq_some_iff.1 hcall).1
  have hfirst (other : Call) : origin.calls.length ≤ (link.calls.set id other).length := by
    rw [List.length_set]
    exact h.origin_le
  have hstray {j : Nat} (hkept : ¬ Stray origin (some id) j) : ¬ Stray origin none j :=
    fun hstray => hkept (hstray.imp_right nofun)
  refine ⟨h.key, forall_set (fun hkept => absurd (.inr rfl) hkept) ?_, hfirst _, nofun, fun j hj => ?_, ?_⟩
  · intro j other hne hother hkept _
    exact h.done j other hother (hstray hkept) fun heq => hne (Option.some.inj heq).symm
  · obtain rfl := Option.some.inj hj
    exact ⟨_, List.getElem?_set_self hlt, rfl⟩
  · exact h.sorted.imp fun hsorted hfirst hbefore hafter =>
      hsorted hfirst (hstray hbefore) (hstray hafter)

/-- What work does to the calls: one that was not done goes into another phase, or none does. -/
theorem calls_of_perform {work : Work σ} (h : link.perform peer work = some next) :
    next.calls = link.calls ∨ ∃ id call phase, link.calls[id]? = some call ∧
      (∀ outcome, call.phase ≠ .done outcome) ∧
      next.calls = link.calls.set id { call with phase := phase } := by
  cases work with
  | proceed id => exact .inr ⟨id, calls_of_proceed h⟩
  | answer =>
    obtain ⟨request, more, -, rfl⟩ := answer_cases h
    exact .inl rfl
  | change far =>
    obtain rfl := Option.some.inj h
    exact .inl rfl

/-- The current exchange is the one that is waited for or a stray one. -/
theorem Attended.eq_of_current (h : Attended link turns origin dropped awaited)
    (horderly : Orderly link turns current) {request : Bytes} (hcurrent : current = some (id, request))
    (hkept : ¬ Stray origin dropped id) : awaited = some id := by
  obtain ⟨sender, hsender, hsent⟩ := horderly.sender id request hcurrent
  by_contra hne
  obtain ⟨outcome, hdone⟩ := h.done id sender hsender hkept hne
  rw [hsent] at hdone
  cases hdone

/-- A turn that ends is the last so far, but for the stray ones. -/
theorem Attended.sorted_append (h : Attended link turns origin dropped awaited)
    (horderly : Orderly link turns current) {turn : Turn}
    (hcurrent : current = some (turn.call, turn.request)) :
    (turns ++ [turn]).Pairwise (InOrder origin dropped) := by
  refine List.pairwise_append.2 ⟨h.sorted, List.pairwise_singleton _ _, ?_⟩
  intro before hbefore last hlast _ _ hkept
  obtain rfl := List.mem_singleton.1 hlast
  have hlt := horderly.known before hbefore
  have hlast := h.last _ (h.eq_of_current horderly hcurrent hkept)
  have hne : before.call ≠ last.call := fun heq =>
    List.filter_eq_nil_iff.1 (horderly.own_current hcurrent).1 before hbefore (by simpa using heq)
  omega

/-- Work keeps all but the stray exchanges attended. -/
theorem Attended.of_perform (h : Attended link turns origin dropped awaited)
    (horderly : Orderly link turns current) {work : Work σ}
    (hwork : link.perform peer work = some next) :
    ∃ turns current, Orderly next turns current ∧ Attended next turns origin dropped awaited := by
  obtain ⟨ended, current', hnext, hended⟩ := horderly.of_perform hwork
  have hsorted : (turns ++ ended.toList).Pairwise (InOrder origin dropped) := by
    cases ended with
    | none => rw [Option.toList_none, List.append_nil]; exact h.sorted
    | some turn => exact h.sorted_append horderly (hended turn rfl)
  have hrun : link.run peer [.work work] = some next := by
    rw [run, happen, hwork]
    rfl
  have hkey := (key_of_run hrun).trans h.key
  refine ⟨_, _, hnext, ?_⟩
  rcases calls_of_perform hwork with hcalls | ⟨id, call, phase, hcall, hfresh, hcalls⟩
  · exact ⟨hkey, hcalls ▸ h.done, hcalls ▸ h.origin_le, hcalls ▸ h.last, hcalls ▸ h.gone, hsorted⟩
  · refine ⟨hkey, ?_, ?_, ?_, ?_, hsorted⟩
    · rw [hcalls]
      refine forall_set (fun hkept hawaited => ?_) fun j other _ => h.done j other
      obtain ⟨outcome, hdone⟩ := h.done id call hcall hkept hawaited
      exact absurd hdone (hfresh outcome)
    · rw [hcalls, List.length_set]
      exact h.origin_le
    · rw [hcalls, List.length_set]
      exact h.last
    · intro j hj
      obtain ⟨other, hother, hgone⟩ := h.gone j hj
      rw [hcalls]
      by_cases hid : id = j
      · subst hid
        obtain rfl := Option.some.inj (hcall.symm.trans hother)
        exact ⟨_, List.getElem?_set_self (List.getElem?_eq_some_iff.1 hcall).1, hgone⟩
      · exact ⟨other, (List.getElem?_set_ne hid).trans hother, hgone⟩

end Link

end RobotSoccer
