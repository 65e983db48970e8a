import DwnServer.Connection.Cleanup

/-!
# One live subscription for an id

The id of a subscribe request is checked before the DWN is called and claimed after it
has replied. When the claim fails, the request is answered with an error, but the
subscription the DWN opened for it stays open and its events go on being sent.
-/
namespace DwnServer

open Transition

/-- A subscription id as the client knows it: its JSON value. -/
def SubscriptionId.name (id : SubscriptionId) : JsValue := id.value.normalizeZero

namespace Connection

/-- Request `s` has succeeded: its answer is a success response, sent or about to be. -/
def Succeeded (w : Connection) (s : ℕ) : Prop :=
  ∃ requestId reply,
    (∃ request data, w.requests[s]? =
      some (.handled request ⟨some (processedResponse requestId reply), data⟩)) ∨
    .response s (processedResponse requestId reply) ∈ w.sent

/-- At most one live subscription exists for an id, and it is the one held in the map; an
event sent under an id comes from a subscription opened under it by a request that
succeeded. -/
def SoleSubscriptions (w : Connection) : Prop :=
  w.registry.Sole SubscriptionId.key SubscriptionId.name ∧
    ∀ s message, .event s message ∈ w.sent →
      ∃ id, (id, s) ∈ w.opened ∧ message.own (js "id") = id.value ∧ w.Succeeded s

/-- When the DWN returns a subscription, its id is free and no live subscription has an
equal one; when a close request deletes an entry, its `close` function was called. -/
def ClaimsFree (w : Connection) (a : Action) : Prop :=
  w.registry.OpensFree SubscriptionId.key (w.op a) ∧
    w.registry.OpensUnnamed SubscriptionId.name (w.op a) ∧
    w.registry.RemovesClosed SubscriptionId.key (w.op a)

/-- What claims of free ids preserve. -/
structure Claimed (w : Connection) : Prop where
  wellFormed : w.WellFormed
  sole : w.registry.Sole SubscriptionId.key SubscriptionId.name
  succeeded : ∀ o ∈ w.opened, w.Succeeded o.2
  events : ∀ s message, .event s message ∈ w.sent →
    ∃ id, (id, s) ∈ w.opened ∧ message.own (js "id") = id.value

theorem claimed_new : new.Claimed where
  wellFormed := wellFormed_new
  sole := by simp [Registry.Sole, Registry.Held, Registry.Live, registry, new]
  succeeded := by simp [new]
  events := by simp [new]

variable {w t : Connection} {a : Action}

theorem Succeeded.step {s : ℕ} (hs : w.Succeeded s) (hw : w.Sound) (h : w.step a = some t) :
    t.Succeeded s := by
  obtain ⟨requestId, reply, ⟨request, data, hstage⟩ | hsent⟩ := hs
  · rcases handled_step hstage h with hstays | ⟨-, rfl⟩
    · exact ⟨requestId, reply, Or.inl ⟨request, data, hstays⟩⟩
    · have hcount := countRequest_processed (hw.requests s _ hstage) requestId reply
      exact ⟨requestId, reply, Or.inr (by simp [respond, hcount, send])⟩
  · obtain ⟨frames, hframes⟩ := sent_step h
    exact ⟨requestId, reply, Or.inr (hframes ▸ List.mem_append_left _ hsent)⟩

/-- A reply whose subscription finds its id free is answered with success. -/
theorem succeeded_of_free {i : ℕ} {request : Json} {context : RequestContext} {requestId : Json}
    {call : DwnCall} {outcome : DwnOutcome} {host : Host} {id : SubscriptionId}
    (hi : w.requests[i]? = some (.processing request context requestId call))
    (hopened : openedSubscription context outcome = some id)
    (hfree : w.state.hasSubscription id = false) :
    (w.dwnSettles i request context requestId outcome host).Succeeded i := by
  cases outcome with
  | error message => cases hopened
  | ok reply =>
    simp only [openedSubscription, Option.ite_none_right_eq_some] at hopened
    have hresponse : (finishProcessMessage host requestId context (some w.state) i (.ok reply)).1 =
        ⟨some (processedResponse requestId reply),
          if reply.entryData then .stream else .absent⟩ := by
      simp [finishProcessMessage, claimSubscription, hopened.1, hopened.2,
        SocketConnection.addSubscription_of_absent hfree, Except.map]
    refine ⟨requestId, reply, Or.inl ⟨request, if reply.entryData then .stream else .absent, ?_⟩⟩
    rw [← hresponse]
    simp only [dwnSettles, setStage]
    rw [getElem?_advance hi, if_pos rfl]

theorem Claimed.step (hw : w.Claimed) (hguard : w.ClaimsFree a) (h : w.step a = some t) :
    t.Claimed := by
  have hop := step_registry hw.wellFormed.openers h
  obtain ⟨hfree, hname, hremove⟩ := hguard
  refine ⟨hw.wellFormed.step h, hw.sole.step hfree hname hremove hop, fun o ho => ?_,
    fun s message hsent => ?_⟩
  · rcases opened_step h with hsame | ⟨i, outcome, host, request, context, requestId, call, id, rfl,
      hi, hopened, rfl, hnew⟩
    · exact (hw.succeeded o (hsame ▸ ho)).step hw.wellFormed.sound h
    · rcases List.mem_append.mp (hnew ▸ ho) with hold | hlast
      · exact (hw.succeeded o hold).step hw.wellFormed.sound h
      · obtain rfl := List.mem_singleton.mp hlast
        simp only [op, hi, hopened] at hfree
        exact succeeded_of_free hi hopened hfree
  · rcases event_step hsent h with hold | ⟨id, hid, e, rfl⟩
    · obtain ⟨id, hid, hmessage⟩ := hw.events s message hold
      exact ⟨id, opened_mono h hid, hmessage⟩
    · exact ⟨id, opened_mono h hid, own_id_success _ _⟩

theorem Claimed.soleSubscriptions (hw : w.Claimed) : w.SoleSubscriptions := by
  refine ⟨hw.sole, fun s message hsent => ?_⟩
  obtain ⟨id, hid, hmessage⟩ := hw.events s message hsent
  exact ⟨id, hid, hmessage, hw.succeeded _ hid⟩

/-- A run has at most one live subscription for an id, the one held under it, exactly if
every subscription of the run is opened under an id that is free by then and no close
request deletes the entry of a live one. -/
theorem soleSubscriptions_iff_claimsFree (as : List Action) :
    Throughout step SoleSubscriptions new as ↔ Along step (fun w a _ => w.ClaimsFree a) new as :=
  throughout_iff_along (fun _ => Claimed.soleSubscriptions) (fun _ _ _ hw hguard => hw.step hguard)
    (fun _ _ _ hw h ht =>
      have hop := step_registry hw.wellFormed.openers h
      have hwell := hw.wellFormed.registry
      ⟨ht.1.opensFree hwell hop, ht.1.opensUnnamed hwell hop, ht.1.removesClosed hwell hop⟩)
    claimed_new

/-! ## Two requests for one id -/

/-- The DWN replies to both requests only after both found the id free. The second claim
fails, and the subscription behind it is live without being held. -/
theorem not_soleSubscriptions : ¬∀ as, Throughout step SoleSubscriptions new as := by
  intro h
  obtain ⟨t, hrun, o, ho, hlive, hheld⟩ : ∃ t, run step new
      [.message subscribeFrame host, .message subscribeFrame host, .handle 0 host, .handle 1 host,
        .dwnSettles 0 opens host, .dwnSettles 1 opens host, .respond 0, .respond 1,
        .event 1 .null] = some t ∧
      ∃ o ∈ t.opened, o.2 ∉ t.closeCalls ∧ t.state.subscriptions.get? o.1.key ≠ some o.2 := by
    apply exists_of_run
    simp only [subscribeFrame, js_append]
    decide +kernel
  exact hheld ((throughout_iff.mp (h _) _ t List.prefix_rfl hrun).1.1 o.1 o.2 ⟨ho, hlive⟩)

end Connection

end DwnServer
