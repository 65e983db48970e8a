import DwnServer.Session.Routing

/-!
# From the client to the server and back

What the promises and the listeners of a client come to, in terms of what its connection did at the
server.
-/
namespace DwnServer

open Transition
open Json (reparsed)
open Connection (host opens)

namespace JsValue

variable {v w : JsValue}

theorem normalizeZero_reparsed (v : JsValue) :
    normalizeZero (v.map reparsed) = normalizeZero ((normalizeZero v).map reparsed) := by
  rcases v with _ | ⟨_ | _ | n | _ | _ | _⟩
  case some.number =>
    cases n with
    | negativeZero => decide +kernel
    | _ => rfl
  all_goals rfl

/-- Equal values are still equal when they come back. -/
theorem normalizeZero_reparsed_eq (h : v.strictEquals w = true) :
    normalizeZero (v.map reparsed) = normalizeZero (w.map reparsed) := by
  rw [normalizeZero_reparsed, (strictEquals_iff.mp h).1, ← normalizeZero_reparsed]

end JsValue

/-- The key of a value that is no reference. -/
theorem SubscriptionKey.normalizeZero_eq {i j : ℕ} {v w : JsValue} (hv : v.Returns)
    (h : SubscriptionKey.ofId i (v.map reparsed) = .ofId j (w.map reparsed)) :
    JsValue.normalizeZero (w.map reparsed) = JsValue.normalizeZero (v.map reparsed) := by
  obtain ⟨-, harray, hobject⟩ := JsValue.strictEquals_iff.mp hv
  unfold ofId at h
  split at h
  · rename_i elements helements
    exact absurd helements (harray elements)
  · rename_i members hmembers
    exact absurd hmembers (hobject members)
  · split at h
    · cases h
    · cases h
    · exact (SubscriptionKey.value.inj h).symm

/-- The response says nothing of an error. -/
def RequestSettlement.succeeded : RequestSettlement → Bool
  | .resolved response => (response.own (js "error")).isNone
  | .timedOut | .threw => false

/-- A request to close a subscription that has succeeded. -/
structure ClientRequest.Closes (r : ClientRequest) (sub : ClientSubscription) : Prop where
  method : r.request.method = closeMethod
  id : (r.request.subscription.readOptional "id").strictEquals sub.id = true
  succeeded : r.settlement.any (·.succeeded) = true

instance (r : ClientRequest) (sub : ClientSubscription) : Decidable (r.Closes sub) :=
  decidable_of_iff
    (r.request.method = closeMethod ∧
      (r.request.subscription.readOptional "id").strictEquals sub.id = true ∧
      r.settlement.any (·.succeeded) = true)
    ⟨fun ⟨method, id, succeeded⟩ => ⟨method, id, succeeded⟩,
      fun h => ⟨h.method, h.id, h.succeeded⟩⟩

theorem response_of_succeeded {r : ClientRequest} (h : r.settlement.any (·.succeeded) = true) :
    ∃ response, r.settlement = some (.resolved response) ∧ response.own (js "error") = none := by
  obtain ⟨settlement, hsettlement, hsucceeded⟩ := (Option.any_eq_true _ _).mp h
  cases settlement with
  | resolved response => exact ⟨response, hsettlement, Option.isNone_iff_eq_none.mp hsucceeded⟩
  | timedOut | threw => cases hsucceeded

namespace Session

variable {s : Session} {as : List SessionAction}

/-- An error in a response is there when it has arrived. -/
theorem Linked.own_error (hs : s.Linked) {i : ℕ} {m : Json} (h : .response i m ∈ s.server.sent) :
    m.reparsed.own (js "error") = (m.own (js "error")).map reparsed := by
  refine Json.own_reparsed_of_nodup ?_ _
  obtain ⟨-, -, -, -, host, ⟨code, text, rfl⟩ | ⟨result, rfl⟩⟩ := hs.response h
  · exact names_error _ _ _
  · exact names_success _ _

/-- A promise of `request` is resolved with the response that a handler of the server made for the
message of that very call, as it reads at the client, and with nothing else; the response settles
it when it arrives, unless its timer has fired by then. -/
theorem requests_answered (h : run step new as = some s) (hids : s.client.TellsApart) {n : ℕ}
    {r : ClientRequest} (hr : s.client.requests[n]? = some r) :
    (∀ response, r.settlement = some (.resolved response) → ∃ i m, s.SentAs i n ∧
      .response i m ∈ s.arrivedFrames ∧ Connection.MadeFor r.request.received m ∧
      response = m.reparsed) ∧
    ∀ i m, s.SentAs i n → .response i m ∈ s.arrivedFrames →
      r.settlement = some .timedOut ∨ r.settlement = some (.resolved m.reparsed) := by
  have hs := linked_run h
  have hroutes := routes_run h hids
  refine ⟨fun response hresolved => ?_, fun i m hsent hmem => ?_⟩
  · obtain ⟨i, m, hsent, hmem, hm⟩ := hroutes.resolved n r response hr hresolved
    obtain ⟨o, request, ho, hrequest, hmade⟩ := hs.response (mem_sent_of_arrived hmem)
    obtain ⟨o', ho', rfl⟩ := sentAs_iff.mp hsent
    obtain rfl := Option.some.inj (ho.symm.trans ho')
    rw [JsonRpcSocket.getElem?_made, hr] at hrequest
    obtain rfl := Option.some.inj hrequest
    exact ⟨i, m, hsent, hmem, hmade, hm⟩
  · cases hsettlement : r.settlement with
    | none => exact absurd hsettlement (hroutes.settled i n m r hsent hmem hr)
    | some settlement =>
      cases settlement with
      | timedOut => exact Or.inl rfl
      | threw =>
        obtain ⟨o, ho, rfl⟩ := sentAs_iff.mp hsent
        exact absurd hsettlement (hroutes.sent o (List.mem_of_getElem? ho) r hr)
      | resolved response =>
        obtain ⟨j, m', hsent', hmem', rfl⟩ := hroutes.resolved n r response hr hsettlement
        obtain rfl := hs.sentAs_inj hsent hsent'
        rw [hs.once.eq_of_mem hs.responds (mem_sent_of_arrived hmem)
          (mem_sent_of_arrived hmem')]
        exact Or.inr rfl

theorem attached_run (h : run step new as = some s) (hids : s.client.TellsApart) :
    Attached as s :=
  run_history (I := fun past s => s.client.TellsApart → Attached past s)
    (fun _ _ _ _ hpast hs hstep ht =>
      (hs (tellsApart_of_step hstep ht)).step (linked_run hpast) hstep ht)
    (fun _ => by simp [Attached, new, JsonRpcSocket.new]) h hids

/-- The listener of a call of `subscribe` is called with events of the subscription that the server
opened for the message of that call, in the order in which they were sent, and with nothing else.
As long as the subscription is neither closed nor refused, it is called with each that arrives. -/
theorem events_heard (h : run step new as = some s) (hids : s.client.TellsApart) {k : ℕ}
    {sub : ClientSubscription} (hk : s.client.subscriptions[k]? = some sub) :
    sub.delivered <+: s.eventsIn sub.request s.arrivedFrames ∧
    ((∀ response, sub.outcome ≠ some (.refused response)) →
      (∀ sending, .client (.close k sending) ∉ as) →
      sub.delivered = s.eventsIn sub.request s.arrivedFrames) := by
  have hroutes := routes_run h hids
  exact ⟨hroutes.delivered k sub hk, fun hrefused hclosed =>
    hroutes.complete k sub hk (attached_run h hids k sub hk hrefused hclosed)⟩

/-- Once a close request of a subscription has resolved with success, the server has called the
`close` function of the subscription that it opened for that call of `subscribe`, and no event of
it is left on the way. -/
theorem closed_at_server (h : run step new as = some s) (hids : s.client.TellsApart) {k n : ℕ}
    {sub : ClientSubscription} {r : ClientRequest} (hk : s.client.subscriptions[k]? = some sub)
    (hr : s.client.requests[n]? = some r) (hcloses : r.Closes sub) :
    ∃ i, s.SentAs i sub.request ∧ i ∈ s.server.closeCalls ∧ ∀ m, .event i m ∉ s.incoming := by
  have hs := linked_run h
  obtain ⟨response, hresolved, herror⟩ := response_of_succeeded hcloses.succeeded
  have hmade : s.client.made[n]? = some r.request := by
    rw [JsonRpcSocket.getElem?_made, hr]
    rfl
  have hlistener : s.client.listenerId (.socketEventListener k) = some sub.id := by
    rw [JsonRpcSocket.listenerId, hk]
    rfl
  obtain ⟨i, m, hsent, hmem, rfl⟩ := (routes_run h hids).resolved n r response hr hresolved
  obtain ⟨front, back, harrived⟩ := List.append_of_mem hmem
  have hsplit : s.server.sent = front ++ .response i m :: (back ++ s.incoming) := by
    rw [← List.cons_append, ← List.append_assoc, ← harrived, arrivedFrames, incoming,
      List.take_append_drop]
  obtain ⟨o, ho, rfl⟩ := sentAs_iff.mp hsent
  obtain ⟨data, hdata, hanswer⟩ := hs.stems.responses front i m _ hsplit
  obtain ⟨o', r', ho', hr', rfl⟩ := hs.exists_request hdata
  obtain rfl := Option.some.inj (ho.symm.trans ho')
  obtain rfl := Option.some.inj (hmade.symm.trans hr')
  have hclose : MethodIn [closeMethod] r.request.received := by
    refine ⟨closeMethod, List.mem_singleton_self _, ?_⟩
    rw [JsonRpcRequest.own_method_received, hcloses.method]
    rfl
  obtain ⟨j, ⟨id, hopened, hkey⟩, hcalled, hlater⟩ := (hanswer _ r.request.parse_text).closed
    hclose (Option.map_eq_none_iff.mp (hs.own_error (mem_sent_of_arrived hmem) ▸ herror))
  -- The subscription that was opened under the id is the one of the call.
  obtain ⟨k', c, hk', hsent', hlistener', rfl⟩ := hs.opened_call hids hopened
  have hreturns := hids.returns_of_listenerId hlistener'
  have hsame : c.1.strictEquals sub.id = true := by
    refine JsValue.strictEquals_of_returns hreturns (hids.returns_of_listenerId hlistener) ?_
    rw [subscriptionIdOf, JsonRpcRequest.own_subscription_received,
      JsValue.readOptional_reparsed (hids.names _ (List.mem_of_getElem? hmade))] at hkey
    rw [← SubscriptionKey.normalizeZero_eq hreturns hkey]
    exact JsValue.normalizeZero_reparsed_eq hcloses.id
  obtain rfl := MessageListener.socketEventListener.inj
    (hids.listener_eq hlistener' hlistener hsame)
  rw [JsonRpcSocket.calls, List.getElem?_map, hk] at hk'
  obtain rfl := Option.some.inj hk'
  exact ⟨j, hsent', hcalled, fun m hm => hlater m (List.mem_append_right _ hm)⟩

/-! ## A subscription is opened and closed -/

/-- A message to subscribe, with request id "a" and subscription id "s". -/
def toSubscribe : JsonRpcRequest :=
  createJsonRpcSubscriptionRequest (some (.string (js "a")))
    (js "rpc.subscribe.dwn.processMessage")
    (some (.object [(js "target", .string (js "did:a")), (js "message", .object
      [(js "descriptor", .object [(js "interface", .string (js "Records")),
        (js "method", .string (js "Subscribe"))])])])) (some (.string (js "s")))

/-- The client subscribes, gets an event and closes the subscription. -/
def subscribedAndClosed : List SessionAction :=
  [.client (.subscribe toSubscribe [] true), .receive host, .server (.handle 0 host),
    .server (.dwnSettles 0 opens host), .server (.respond 0),
    .deliver (fun _ => false) fun _ => ⟨[], true⟩, .client (.subscribed 0),
    .server (.event 0 .null), .deliver (fun _ => false) fun _ => ⟨[], true⟩,
    .client (.close 0 ⟨js "c", true⟩), .receive host, .server (.handle 1 host),
    .server (.closeSettles 1 (.ok ()) host), .server (.respond 1),
    .deliver (fun _ => false) fun _ => ⟨[], true⟩]

/-- What that run comes to. -/
theorem exists_subscribedAndClosed : ∃ s r sub, run step new subscribedAndClosed = some s ∧
    s.client.TellsApart ∧ s.client.requests[1]? = some r ∧
    s.client.subscriptions[0]? = some sub ∧ r.Closes sub ∧ sub.delivered.length = 1 := by
  obtain ⟨s, hrun, hids, hrest⟩ : ∃ s, run step new subscribedAndClosed = some s ∧
      s.client.TellsApart ∧ (s.client.requests[1]?.any fun (r : ClientRequest) =>
        s.client.subscriptions[0]?.any fun (sub : ClientSubscription) =>
          decide (r.Closes sub ∧ sub.delivered.length = 1)) = true := by
    apply exists_of_run
    decide +kernel
  obtain ⟨r, hr, hrest⟩ := (Option.any_eq_true _ _).mp hrest
  obtain ⟨sub, hsub, hrest⟩ := (Option.any_eq_true _ _).mp hrest
  obtain ⟨hcloses, hlength⟩ := of_decide_eq_true hrest
  exact ⟨s, r, sub, hrun, hids, hr, hsub, hcloses, hlength⟩

theorem requests_answered_closed : ∃ s r, run step new subscribedAndClosed = some s ∧
    s.client.requests[1]? = some r ∧ ∃ i m, s.SentAs i 1 ∧ .response i m ∈ s.arrivedFrames ∧
      Connection.MadeFor r.request.received m ∧ r.settlement = some (.resolved m.reparsed) := by
  obtain ⟨s, r, sub, hrun, hids, hr, -, hcloses, -⟩ := exists_subscribedAndClosed
  obtain ⟨response, hresolved, -⟩ := response_of_succeeded hcloses.succeeded
  obtain ⟨i, m, hsent, hmem, hmade, rfl⟩ :=
    (requests_answered hrun hids hr).1 response hresolved
  exact ⟨s, r, hrun, hr, i, m, hsent, hmem, hmade, hresolved⟩

theorem events_heard_closed : ∃ s sub, run step new subscribedAndClosed = some s ∧
    s.client.subscriptions[0]? = some sub ∧ sub.delivered.length = 1 ∧
      sub.delivered <+: s.eventsIn sub.request s.arrivedFrames := by
  obtain ⟨s, -, sub, hrun, hids, -, hsub, -, hlength⟩ := exists_subscribedAndClosed
  exact ⟨s, sub, hrun, hsub, hlength, (events_heard hrun hids hsub).1⟩

theorem closed_at_server_closed : ∃ s, run step new subscribedAndClosed = some s ∧
    ∃ i ∈ s.server.closeCalls, ∀ m, .event i m ∉ s.incoming := by
  obtain ⟨s, r, sub, hrun, hids, hr, hsub, hcloses, -⟩ := exists_subscribedAndClosed
  obtain ⟨i, -, hcalled, hnone⟩ := closed_at_server hrun hids hsub hr hcloses
  exact ⟨s, hrun, i, hcalled, hnone⟩

end Session

end DwnServer
