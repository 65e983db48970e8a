import DwnServer.Connection.Machine

/-!
# The heartbeat

A tick closes the connection when the flag `isAlive`, which a pong sets and every tick clears, is
still clear from the tick before. The runs here are closed by nothing but the heartbeat; frames,
replies of the DWN and events of subscriptions may come between its ticks and the pongs.
-/
namespace DwnServer

open Transition

/-- What closes a connection other than its heartbeat. -/
def Action.closesConnection : Action → Bool
  | .socketClose | .socketError | .close => true
  | _ => false

/-- Neither a tick nor a pong. -/
def Idle (actions : List Action) : Prop := .heartbeat ∉ actions ∧ .pong ∉ actions

/-- There was a tick, and no pong came since the last one. -/
def Unanswered (past : List Action) : Prop :=
  ∃ before between, past = before ++ .heartbeat :: between ∧ Idle between

/-- A pong came between any two ticks. -/
def PeerAnswers (actions : List Action) : Prop :=
  ∀ before between rest, actions = before ++ .heartbeat :: (between ++ .heartbeat :: rest) →
    .pong ∈ between

theorem idle_append_singleton {actions : List Action} {a : Action} :
    Idle (actions ++ [a]) ↔ Idle actions ∧ a ≠ .heartbeat ∧ a ≠ .pong := by
  simp only [Idle, List.mem_append, List.mem_singleton, not_or, ne_eq, eq_comm (a := a)]
  tauto

theorem not_unanswered_nil : ¬Unanswered [] := by
  rintro ⟨before, between, h, -⟩
  simp at h

theorem unanswered_append_heartbeat (past : List Action) : Unanswered (past ++ [.heartbeat]) :=
  ⟨past, [], rfl, by simp [Idle]⟩

/-- The last action of an unanswered past is a tick or comes after an unanswered past. -/
theorem unanswered_append_singleton {past : List Action} {a : Action} :
    Unanswered (past ++ [a]) ↔ a = .heartbeat ∨ a ≠ .pong ∧ Unanswered past := by
  constructor
  · rintro ⟨before, between, h, hidle⟩
    induction between using List.reverseRecOn with
    | nil => exact Or.inl (List.singleton_inj.mp (List.append_inj' h rfl).2)
    | append_singleton between b _ =>
      obtain ⟨hbetween, -, hpong⟩ := idle_append_singleton.mp hidle
      rw [← List.cons_append, ← List.append_assoc] at h
      obtain ⟨hpast, hlast⟩ := List.append_inj' h rfl
      obtain rfl := List.singleton_inj.mp hlast
      exact Or.inr ⟨hpong, before, between, hpast, hbetween⟩
  · by_cases hheartbeat : a = .heartbeat
    · exact fun _ => hheartbeat ▸ unanswered_append_heartbeat past
    · rintro (rfl | ⟨hpong, before, between, rfl, hidle⟩)
      · exact unanswered_append_heartbeat past
      · exact ⟨before, between ++ [a], by simp,
          idle_append_singleton.mpr ⟨hidle, hheartbeat, hpong⟩⟩

theorem PeerAnswers.of_append {actions rest : List Action} (h : PeerAnswers (actions ++ rest)) :
    PeerAnswers actions := by
  intro before between rest' hactions
  exact h before between (rest' ++ rest) (by simp [hactions])

theorem PeerAnswers.not_unanswered {past : List Action} (h : PeerAnswers (past ++ [.heartbeat])) :
    ¬Unanswered past := by
  rintro ⟨before, between, rfl, -, hpong⟩
  exact hpong (h before between [] (by simp))

namespace Connection

variable {w t : Connection} {a : Action}

/-- The flag, the timer, the listeners and the number of calls of `close`. -/
def pulse (w : Connection) : Bool × Bool × Bool × ℕ :=
  (w.state.isAlive, w.state.heartbeatInterval, w.listening, w.closes.length)

theorem exists_finishProcessMessage_eq (host : Host) (requestId : Json) (context : RequestContext)
    (c : SocketConnection) (subscription : ℕ) (outcome : DwnOutcome) :
    ∃ subscriptions, ((finishProcessMessage host requestId context (some c) subscription
      outcome).2).getD c = { c with subscriptions } := by
  cases outcome with
  | error message => exact ⟨c.subscriptions, rfl⟩
  | ok reply =>
    cases hid : context.subscriptionRequest with
    | none => exact ⟨c.subscriptions, by simp [finishProcessMessage, claimSubscription, hid]⟩
    | some id =>
      cases hopened : reply.subscription with
      | false =>
        exact ⟨c.subscriptions, by simp [finishProcessMessage, claimSubscription, hid, hopened]⟩
      | true =>
        cases hhas : c.hasSubscription id with
        | false =>
          refine ⟨c.subscriptions.set id.key subscription, ?_⟩
          simp [finishProcessMessage, claimSubscription, hid, hopened,
            SocketConnection.addSubscription_of_absent hhas, Except.map]
        | true =>
          obtain ⟨e, he⟩ := SocketConnection.addSubscription_of_present hhas subscription
          refine ⟨c.subscriptions, ?_⟩
          simp [finishProcessMessage, claimSubscription, hid, hopened, he, Except.map]

/-- Only ticks and pongs touch the flag, the timer, the listeners and the calls of `close`. -/
theorem step_pulse (hother : a.closesConnection = false) (hheartbeat : a ≠ .heartbeat)
    (hpong : a ≠ .pong) (h : w.step a = some t) : t.pulse = w.pulse := by
  cases a with
  | message data host =>
    obtain ⟨-, rfl⟩ := step_message.mp h
    rcases w.message_cases data host with ⟨text, hm⟩ | hm | ⟨request, context, -, hm⟩ <;>
      rw [hm] <;> rfl
  | handle i host =>
    obtain ⟨request, context, -, rfl⟩ := step_handle.mp h
    rfl
  | dwnSettles i outcome host =>
    obtain ⟨request, context, requestId, call, -, -, rfl⟩ := step_dwnSettles.mp h
    obtain ⟨subscriptions, hstate⟩ :=
      exists_finishProcessMessage_eq host requestId context w.state i outcome
    simp only [pulse, dwnSettles, hstate, setStage]
  | closeSettles i outcome host =>
    obtain ⟨request, requestId, id, subscription, -, rfl⟩ := step_closeSettles.mp h
    cases outcome <;> rfl
  | respond i =>
    obtain ⟨request, response, -, rfl⟩ := step_respond.mp h
    unfold respond
    split <;> rfl
  | event s e =>
    obtain ⟨id, -, -, rfl⟩ := step_event h
    rfl
  | heartbeat => exact absurd rfl hheartbeat
  | pong => exact absurd rfl hpong
  | closeAllSettles k resolved =>
    obtain ⟨closed, -, -, -, rfl⟩ := step_closeAllSettles.mp h
    cases resolved <;> simp [pulse, closeAllSettles]
  | _ => cases hother

/-- What runs that only the heartbeat closes keep: the flag is clear while a tick is unanswered,
and the timer and the listeners are there until the one call of `close`. -/
structure Beating (past : List Action) (w : Connection) : Prop where
  flag : w.state.isAlive = false ↔ Unanswered past
  timer : w.state.heartbeatInterval = true ↔ w.closes = []
  listeners : w.listening = true ↔ w.closes = []
  once : w.closes.length ≤ 1
  answers : PeerAnswers past → w.closes = []

theorem beating_new : new.Beating [] where
  flag := by simp [not_unanswered_nil, new, SocketConnection.new]
  timer := by simp [new, SocketConnection.new]
  listeners := by simp [new]
  once := by simp [new]
  answers _ := rfl

variable {past : List Action}

/-- A step that neither calls `close` nor touches the timer and the listeners. -/
theorem Beating.of_closes_eq (hw : w.Beating past)
    (hflag : t.state.isAlive = false ↔ Unanswered (past ++ [a]))
    (htimer : t.state.heartbeatInterval = w.state.heartbeatInterval)
    (hlisteners : t.listening = w.listening) (hcloses : t.closes.length = w.closes.length) :
    t.Beating (past ++ [a]) where
  flag := hflag
  timer := by rw [htimer, hw.timer, ← List.length_eq_zero_iff, ← hcloses, List.length_eq_zero_iff]
  listeners := by
    rw [hlisteners, hw.listeners, ← List.length_eq_zero_iff, ← hcloses, List.length_eq_zero_iff]
  once := hcloses ▸ hw.once
  answers h := by
    rw [← List.length_eq_zero_iff, hcloses, hw.answers h.of_append]
    rfl

theorem Beating.step_heartbeat (hw : w.Beating past) (h : w.step .heartbeat = some t) :
    t.Beating (past ++ [.heartbeat]) := by
  obtain ⟨hticks, rfl⟩ := Connection.step_heartbeat.mp h
  have hunanswered := unanswered_append_heartbeat past
  cases halive : w.state.isAlive with
  | true =>
    have hbeat : w.heartbeat = { w with state := { w.state with isAlive := false } } := by
      simp [heartbeat, halive]
    rw [hbeat]
    exact hw.of_closes_eq (by simp [hunanswered]) rfl rfl rfl
  | false =>
    -- the tick that closes goes on to clear the flag, but its timer is off
    have hbeat : w.heartbeat =
        { w.beginClose with state := { w.beginClose.state with isAlive := false } } := by
      simp [heartbeat, halive]
    have hnone := hw.timer.mp hticks
    rw [hbeat]
    exact
      { flag := by simp [hunanswered]
        timer := by simp [beginClose, SocketConnection.close_eq]
        listeners := by simp [beginClose]
        once := by simp [beginClose, hnone]
        answers := fun h => absurd (hw.flag.mp halive) h.not_unanswered }

theorem Beating.step (hw : w.Beating past) (hother : a.closesConnection = false)
    (h : w.step a = some t) : t.Beating (past ++ [a]) := by
  by_cases hheartbeat : a = .heartbeat
  · subst hheartbeat
    exact hw.step_heartbeat h
  by_cases hpong : a = .pong
  · subst hpong
    obtain ⟨-, rfl⟩ := step_pong.mp h
    exact hw.of_closes_eq (by simp [SocketConnection.pong, unanswered_append_singleton]) rfl rfl rfl
  · have hpulse := step_pulse hother hheartbeat hpong h
    simp only [pulse, Prod.mk.injEq] at hpulse
    obtain ⟨hflag, htimer, hlisteners, hcloses⟩ := hpulse
    refine hw.of_closes_eq ?_ htimer hlisteners hcloses
    rw [hflag, hw.flag, unanswered_append_singleton]
    simp [hheartbeat, hpong]

theorem beating_of_run {actions : List Action} (hrun : run step new actions = some w)
    (hother : ∀ a ∈ actions, a.closesConnection = false) : w.Beating actions :=
  run_invariant_of_past (I := fun past w => w.Beating past)
    (fun _ _ _ _ hw ha h => hw.step ha h) hother beating_new hrun

/-- `close` is called by the ticks for which the tick before is unanswered, and only by them. -/
theorem Beating.closes_step (hw : w.Beating past) (hother : a.closesConnection = false)
    (h : w.step a = some t) :
    w.closes.length < t.closes.length ↔ a = .heartbeat ∧ Unanswered past := by
  by_cases hheartbeat : a = .heartbeat
  · subst hheartbeat
    obtain ⟨-, rfl⟩ := Connection.step_heartbeat.mp h
    rw [← hw.flag]
    cases halive : w.state.isAlive <;> simp [heartbeat, halive, beginClose]
  · have hcloses : t.closes.length = w.closes.length := by
      by_cases hpong : a = .pong
      · subst hpong
        obtain ⟨-, rfl⟩ := step_pong.mp h
        rfl
      · exact congrArg (fun p => p.2.2.2) (step_pulse hother hheartbeat hpong h)
    simp [hcloses, hheartbeat]

/-- In a run that nothing else closes, the heartbeat calls `close` at the ticks for which the tick
before is unanswered, and at most once: never if a pong comes between any two ticks, and at the
second tick after the last pong. Until then ticks and pongs get through. -/
theorem heartbeat_closes {actions : List Action} (hrun : run step new actions = some w)
    (hother : ∀ a ∈ actions, a.closesConnection = false) :
    (∀ past a rest s t, actions = past ++ a :: rest → run step new past = some s →
      s.step a = some t →
      (s.closes.length < t.closes.length ↔ a = .heartbeat ∧ Unanswered past)) ∧
    w.closes.length ≤ 1 ∧
    ((w.step .heartbeat).isSome ↔ w.closes = []) ∧ ((w.step .pong).isSome ↔ w.closes = []) ∧
    (PeerAnswers actions → w.closes = []) ∧
    ∀ before idle idle' s,
      actions = before ++ .pong :: (idle ++ .heartbeat :: (idle' ++ [.heartbeat])) →
      Idle idle → Idle idle' →
      run step new (before ++ .pong :: (idle ++ .heartbeat :: idle')) = some s →
      s.closes = [] ∧ w.closes.length = 1 := by
  have hw := beating_of_run hrun hother
  have hcalls : ∀ past a rest s t, actions = past ++ a :: rest → run step new past = some s →
      s.step a = some t →
      (s.closes.length < t.closes.length ↔ a = .heartbeat ∧ Unanswered past) := by
    rintro past a rest s t rfl hpast h
    have hs := beating_of_run hpast fun b hb => hother b (List.mem_append_left _ hb)
    exact hs.closes_step (hother a (by simp)) h
  refine ⟨hcalls, hw.once, ?_, ?_, hw.answers, ?_⟩
  · rw [← hw.timer]
    simp [Connection.step]
  · rw [← hw.listeners]
    simp [Connection.step]
  · intro before idle idle' s hactions hidle hidle' hs
    have hsplit : actions = (before ++ .pong :: (idle ++ .heartbeat :: idle')) ++ [.heartbeat] := by
      simp [hactions]
    -- the second tick came, so the first did not close
    have hstep : s.step .heartbeat = some w := by
      rw [hsplit, run_append, hs] at hrun
      simpa using hrun
    have hbeating := beating_of_run hs fun b hb => hother b (by
      rw [hsplit]
      exact List.mem_append_left _ hb)
    have hnone := hbeating.timer.mp (Connection.step_heartbeat.mp hstep).1
    have hunanswered : Unanswered (before ++ .pong :: (idle ++ .heartbeat :: idle')) :=
      ⟨before ++ .pong :: idle, idle', by simp, hidle'⟩
    have hcall := (hcalls _ _ [] s w hsplit hs hstep).mpr ⟨rfl, hunanswered⟩
    have honce := hw.once
    exact ⟨hnone, by omega⟩

/-- The pong after the first tick saves the peer once. -/
theorem heartbeat_closes_silent : ∃ s w,
    run step new [.heartbeat, .pong, .heartbeat] = some s ∧
    run step new [.heartbeat, .pong, .heartbeat, .heartbeat] = some w ∧
    s.closes = [] ∧ w.closes.length = 1 := by
  have hs : run step new [.heartbeat, .pong, .heartbeat] =
      some (({ new.heartbeat with state := new.heartbeat.state.pong } : Connection).heartbeat) :=
    rfl
  obtain ⟨w, hw, -⟩ : ∃ w, run step new [.heartbeat, .pong, .heartbeat, .heartbeat] = some w ∧
      True := exists_of_run (by decide)
  refine ⟨_, w, hs, hw, ?_⟩
  exact (heartbeat_closes hw (by simp [Action.closesConnection])).2.2.2.2.2 [.heartbeat] [] [] _ rfl
    (by simp [Idle]) (by simp [Idle]) hs

end Connection

end DwnServer
