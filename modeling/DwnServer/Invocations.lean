import DwnServer.Connection.ConnectionManager
import DwnServer.Connection.Exchanges
import DwnServer.Http.PostRoot

/-!
# What the DWN is called with

The conditions on a call of `dwn.processMessage` are spread over the context that a connection
builds, the router and the guards of the handler, all of which read the same unchecked JSON.
Over HTTP a message goes to the DWN within one call of the route; over a WebSocket it does when
its handler is called, and the subscription handler it takes along sends its frames later.
-/
namespace DwnServer

open Transition

/-- The request asks for messages as they come. -/
def AsksToSubscribe (request : Json) : Prop :=
  (∃ method, request.own (js "method") = some (.string method) ∧
    (js "rpc.subscribe.").isPrefixOf method = true) ∧
  (request.own (js "subscription")).truthy = true

/-- What the DWN is called with: no RecordsWrite but over HTTP, a Subscribe message only over a
WebSocket for a request that asks for it, and a subscription handler exactly with such a one. -/
structure Allowed (transport : Transport) (request : Json) (call : DwnCall) : Prop where
  write : isRecordsWrite (call.message.readOptional "descriptor") = true → transport = .http
  subscribe : isSubscribe (call.message.readOptional "descriptor") = true →
    transport = .ws ∧ AsksToSubscribe request
  handler : call.subscriptionHandler.isSome = true ↔
    isSubscribe (call.message.readOptional "descriptor") = true

/-! ## Over HTTP -/

/-- The route calls the DWN for this request. -/
def HttpInvokes (host : Host) (headers : PostHeaders) (request : Json) (call : DwnCall) : Prop :=
  Json.parse (headers.dwnRequest.getD []) = some request ∧
    jsonRpcRouter.route request = .ok (.inl .handleDwnProcessMessage) ∧
    ∃ requestId, handleDwnProcessMessage host request ⟨.http, headers.dataStream, none⟩ none =
      .ok (.processMessage requestId call)

theorem allowed_http {host : Host} {headers : PostHeaders} {request : Json} {call : DwnCall}
    (h : HttpInvokes host headers request call) : Allowed .http request call := by
  obtain ⟨-, -, requestId, hcall⟩ := h
  rw [handleDwnProcessMessage_eq] at hcall
  dsimp only at hcall
  rw [guardedProcessMessage_http] at hcall
  split_ifs at hcall with hparams hdescriptor hsubscribe
  · cases hcall
  · cases hcall
  · cases hcall
    exact ⟨fun _ => rfl, fun h => absurd h hsubscribe, by simp [isSubscribe, hsubscribe]⟩

/-- What the DWN would say to other calls makes no difference to the route. -/
theorem post_congr {host : Host} {headers : PostHeaders} {dwn dwn' : DwnCall → DwnOutcome}
    (h : ∀ request call, HttpInvokes host headers request call → dwn call = dwn' call) :
    post host headers dwn = post host headers dwn' := by
  unfold post
  dsimp only
  split_ifs with hempty
  · rfl
  cases hparse : Json.parse (headers.dwnRequest.getD []) with
  | none => rfl
  | some request =>
    suffices hhandle : handleHttp host request ⟨.http, headers.dataStream, none⟩ dwn =
        handleHttp host request ⟨.http, headers.dataStream, none⟩ dwn' by
      simp only [hhandle]
    unfold handleHttp
    cases hroute : jsonRpcRouter.route request with
    | error e => rfl
    | ok handler =>
      rcases handler with (_ | _) | response
      · simp only [bind, Except.bind]
        cases hstart :
          handleDwnProcessMessage host request ⟨.http, headers.dataStream, none⟩ none with
        | error e => rfl
        | ok start =>
          cases start with
          | responded response => rfl
          | processMessage requestId call =>
            simp only
            rw [h request call ⟨hparse, hroute, requestId, hstart⟩]
      · rfl
      · rfl

/-! ## Over a WebSocket -/

/-- A subscription request is made for a Subscribe message, when the request asks for it. -/
theorem context_ws {i : ℕ} {request : Json} {context : RequestContext}
    (h : buildRequestContext i request = .ok context) :
    context.transport = .ws ∧ ∀ id ∈ context.subscriptionRequest,
      id = subscriptionIdOf i request ∧ AsksToSubscribe request ∧
        isSubscribe (messageDescriptor request) = true := by
  obtain ⟨method, hmethod⟩ := exists_method_of_buildRequestContext h
  rw [buildRequestContext_eq hmethod] at h
  dsimp only at h
  split_ifs at h with hasks hparams
  · obtain ⟨hstarts, htruthy⟩ := Bool.and_eq_true_iff.mp hasks
    rw [descriptorMethod_eq] at h
    split_ifs at h with hmessage hdescriptor
    · cases h
      exact ⟨rfl, nofun⟩
    · cases h
    · simp only [Except.bind] at h
      split_ifs at h with hsubscribe
      · cases h
        refine ⟨rfl, fun id hid => ?_⟩
        obtain rfl := Option.some.inj hid
        exact ⟨rfl, ⟨⟨method, hmethod, hstarts⟩, htruthy⟩, hsubscribe⟩
      · cases h
        exact ⟨rfl, nofun⟩
  · cases h
    exact ⟨rfl, nofun⟩

/-- The guards let a message through that is no RecordsWrite, with a subscription request if it is
a Subscribe message, and then under a free id. -/
theorem through_ws {requestId id : Json} {dataStream : Bool} {subscription : Option SubscriptionId}
    {c : SocketConnection} {target message : JsValue} {call : DwnCall}
    (h : guardedProcessMessage requestId ⟨.ws, dataStream, subscription⟩ (some c) target message =
      .ok (.processMessage id call)) :
    call = ⟨target, message, dataStream, subscription⟩ ∧
      isRecordsWrite (message.readOptional "descriptor") = false ∧
      (isSubscribe (message.readOptional "descriptor") = true → subscription.isSome = true) ∧
      ∀ id ∈ subscription, c.hasSubscription id = false := by
  rcases guardedProcessMessage_ok h with ⟨code, text, hrefused⟩ | ⟨hdescriptor, hcall⟩
  · cases hrefused
  obtain ⟨-, rfl⟩ := ProcessMessageStart.processMessage.inj hcall
  rw [guardedProcessMessage_ws hdescriptor] at h
  dsimp only at h
  split_ifs at h with hwrite hsubscribe
  · cases h
  · cases h
  refine ⟨rfl, Bool.eq_false_iff.mpr hwrite, fun hmethod => ?_, ?_⟩
  · cases subscription with
    | some id => rfl
    | none => exact absurd (Bool.and_eq_true_iff.mpr ⟨hmethod, rfl⟩) hsubscribe
  · rintro id' rfl
    cases hheld : c.hasSubscription id' with
    | false => rfl
    | true =>
      simp only [Option.filter, hheld, if_true] at h
      cases htext : id'.value.toText (C := DwnServerErrorCode) <;> simp [htext, Except.map] at h

theorem allowed_ws {host : Host} {i : ℕ} {request requestId : Json} {context : RequestContext}
    {c : SocketConnection} {call : DwnCall} (hcontext : buildRequestContext i request = .ok context)
    (h : handleDwnProcessMessage host request context (some c) =
      .ok (.processMessage requestId call)) :
    Allowed .ws request call ∧ call.subscriptionHandler = context.subscriptionRequest ∧
      ∀ id ∈ call.subscriptionHandler, id = subscriptionIdOf i request ∧
        c.hasSubscription id = false := by
  obtain ⟨htransport, hid⟩ := context_ws hcontext
  obtain ⟨transport, dataStream, subscription⟩ := context
  obtain rfl : transport = .ws := htransport
  rw [handleDwnProcessMessage_eq] at h
  dsimp only at h
  split_ifs at h with hparams
  cases hguard : guardedProcessMessage (DwnServer.requestId host request)
      ⟨.ws, dataStream, subscription⟩ (some c) ((request.own (js "params")).readOptional "target")
      ((request.own (js "params")).readOptional "message") with
  | error e =>
    rw [hguard] at h
    cases h
  | ok start =>
    rw [hguard] at h
    obtain rfl := Except.ok.inj h
    obtain ⟨rfl, hwrite, hsome, hfree⟩ := through_ws hguard
    refine ⟨⟨fun hrecords => ?_, fun hsubscribe => ⟨rfl, ?_⟩, fun hhandler => ?_, hsome⟩, rfl,
      fun id hmem => ⟨(hid id hmem).1, hfree id hmem⟩⟩
    · exact absurd hrecords (Bool.eq_false_iff.mp hwrite)
    · obtain ⟨id, hmem⟩ := Option.isSome_iff_exists.mp (hsome hsubscribe)
      exact (hid id hmem).2.1
    · obtain ⟨id, hmem⟩ := Option.isSome_iff_exists.mp hhandler
      exact (hid id hmem).2.2

namespace Connection

variable {w t : Connection} {a : Action} {i : ℕ}

/-- A request comes to a stage when its text arrives, when it is routed, or with the return of
its handler. -/
theorem stage_step {stage : Stage} (h : w.step a = some t) (hi : t.requests[i]? = some stage) :
    w.requests[i]? = some stage ∨
      (∃ data host, a = .message data host ∧ i = w.requests.length ∧ w.message data host = t) ∨
      (∃ host request context, a = .handle i host ∧
        w.requests[i]? = some (.contextBuilt request context) ∧
        w.route i request context host = stage) ∨
      stage.hasReturned = true := by
  have hset : ∀ {j : ℕ} {old new : Stage}, w.requests[j]? = some old →
      t.requests = w.requests.set j new → w.requests[i]? = some stage ∨ i = j ∧ new = stage := by
    intro j old new hold hrequests
    rw [hrequests, getElem?_advance hold] at hi
    split_ifs at hi with hj
    · exact Or.inr ⟨hj, Option.some.inj hi⟩
    · exact Or.inl hi
  have hreturns : ∀ {j : ℕ} {old new : Stage}, w.requests[j]? = some old →
      t.requests = w.requests.set j new → new.hasReturned = true →
      w.requests[i]? = some stage ∨ stage.hasReturned = true := by
    intro j old new hold hrequests hnew
    rcases hset hold hrequests with hsame | ⟨-, rfl⟩
    · exact Or.inl hsame
    · exact Or.inr hnew
  cases a with
  | message data host =>
    obtain ⟨-, hmessage⟩ := step_message.mp h
    obtain ⟨new, hrequests⟩ : ∃ new, t.requests = w.requests ++ [new] := by
      rw [← hmessage]
      rcases message_cases w data host with ⟨text, hm⟩ | hm | ⟨request, context, -, hm⟩ <;>
        exact hm ▸ ⟨_, rfl⟩
    rw [hrequests] at hi
    rcases Numbered.getElem?_append_singleton hi with hold | ⟨hnew, -⟩
    · exact Or.inl hold
    · exact Or.inr (Or.inl ⟨data, host, rfl, hnew, hmessage⟩)
  | handle j host =>
    obtain ⟨request, context, hj, rfl⟩ := step_handle.mp h
    rcases hset hj rfl with hold | ⟨rfl, hstage⟩
    · exact Or.inl hold
    · exact Or.inr (Or.inr (Or.inl ⟨host, request, context, rfl, hj, hstage⟩))
  | dwnSettles j outcome host =>
    obtain ⟨request, context, requestId, call, hj, -, rfl⟩ := step_dwnSettles.mp h
    exact (hreturns hj rfl rfl).imp_right fun hstage => Or.inr (Or.inr hstage)
  | closeSettles j outcome host =>
    obtain ⟨request, requestId, id, subscription, hj, rfl⟩ := step_closeSettles.mp h
    have hreturned : ∀ response, (Stage.ofResponse request response).hasReturned = true := by
      intro response
      cases response <;> rfl
    exact (hreturns hj rfl (hreturned _)).imp_right fun hstage => Or.inr (Or.inr hstage)
  | respond j =>
    obtain ⟨request, response, hj, rfl⟩ := step_respond.mp h
    unfold respond at hreturns
    split at hreturns <;>
      exact (hreturns hj rfl rfl).imp_right fun hstage => Or.inr (Or.inr hstage)
  | event s e =>
    obtain ⟨id, -, -, rfl⟩ := step_event h
    exact Or.inl hi
  | heartbeat =>
    obtain ⟨-, rfl⟩ := step_heartbeat.mp h
    unfold heartbeat at hi
    split at hi <;> exact Or.inl hi
  | pong =>
    obtain ⟨-, rfl⟩ := step_pong.mp h
    exact Or.inl hi
  | socketClose =>
    obtain ⟨-, rfl⟩ := step_socketClose.mp h
    exact Or.inl hi
  | socketError =>
    obtain ⟨-, rfl⟩ := step_socketError.mp h
    exact Or.inl hi
  | close =>
    obtain rfl := Option.some.inj h
    exact Or.inl hi
  | closeAllSettles k resolved =>
    obtain ⟨closed, -, -, -, rfl⟩ := step_closeAllSettles.mp h
    unfold closeAllSettles at hi
    split at hi <;> exact Or.inl hi

/-- A context is built when the text of its request arrives. -/
theorem contextBuilt_step {request : Json} {context : RequestContext} (h : w.step a = some t)
    (hi : t.requests[i]? = some (.contextBuilt request context)) :
    w.requests[i]? = some (.contextBuilt request context) ∨
      ∃ data host, a = .message data host ∧ i = w.requests.length ∧
        Json.parse data = some request ∧ buildRequestContext i request = .ok context := by
  rcases stage_step h hi with
    hold | ⟨data, host, rfl, rfl, rfl⟩ | ⟨host, request', context', -, -, hroute⟩ | hreturned
  · exact Or.inl hold
  · refine Or.inr ⟨data, host, rfl, rfl, ?_⟩
    unfold message at hi
    split_ifs at hi with hdata
    · simp [refuse, receive, send] at hi
    · cases hparse : Json.parse data with
      | none => simp [hparse, refuse, receive, send] at hi
      | some r =>
        cases hcontext : buildRequestContext w.requests.length r with
        | error e => simp [hparse, hcontext, receive] at hi
        | ok c =>
          obtain ⟨rfl, rfl⟩ : r = request ∧ c = context := by
            simpa [hparse, hcontext, receive] using hi
          exact ⟨rfl, hcontext⟩
  · unfold route at hroute
    repeat' split at hroute
    all_goals cases hroute
  · cases hreturned

/-- The DWN is called when a request is routed. -/
theorem processing_step {request requestId : Json} {context : RequestContext} {call : DwnCall}
    (h : w.step a = some t)
    (hi : t.requests[i]? = some (.processing request context requestId call)) :
    w.requests[i]? = some (.processing request context requestId call) ∨
      ∃ host, a = .handle i host ∧ w.requests[i]? = some (.contextBuilt request context) ∧
        handleDwnProcessMessage host request context (some w.state) =
          .ok (.processMessage requestId call) := by
  rcases stage_step h hi with
    hold | ⟨data, host, rfl, rfl, rfl⟩ | ⟨host, request', context', rfl, hbuilt, hroute⟩ | hreturned
  · exact Or.inl hold
  · rcases message_cases w data host with ⟨text, hm⟩ | hm | ⟨request, context, -, hm⟩ <;>
      simp [hm, refuse, receive, send] at hi
  · refine Or.inr ⟨host, rfl, ?_⟩
    unfold route at hroute
    split at hroute
    · cases hroute
    · cases hroute
    · split at hroute
      · cases hroute
      · cases hroute
      · rename_i hcall
        cases hroute
        exact ⟨hbuilt, hcall⟩
    · split at hroute <;> cases hroute
  · cases hreturned

/-! ### The frames that the handler sends -/

/-- Request `i` opens no subscription but under the id of its context: it waits for the DWN, or
has returned. -/
structure OpensUnder (i : ℕ) (context : RequestContext) (w : Connection) : Prop where
  stage : (∃ request requestId call,
    w.requests[i]? = some (.processing request context requestId call)) ∨ w.Returned i
  opened : ∀ id, (id, i) ∈ w.opened → id ∈ context.subscriptionRequest

theorem not_returned {request requestId : Json} {context : RequestContext} {call : DwnCall}
    (hi : w.requests[i]? = some (.processing request context requestId call)) :
    ¬w.Returned i := by
  rintro ⟨stage, hstage, hreturned⟩
  obtain rfl := Option.some.inj (hi.symm.trans hstage)
  cases hreturned

theorem OpensUnder.step {context : RequestContext} (hw : w.OpensUnder i context)
    (h : w.step a = some t) : t.OpensUnder i context := by
  constructor
  · rcases hw.stage with ⟨request, requestId, call, hi⟩ | hreturned
    · by_cases ha : a.request? = some i
      · refine Or.inr ?_
        cases a <;> simp only [Action.request?, Option.some.injEq, reduceCtorEq] at ha <;> subst ha
        case handle => obtain ⟨_, _, hi', -⟩ := step_handle.mp h; simp [hi] at hi'
        case dwnSettles =>
          obtain ⟨_, _, _, _, hi', -, rfl⟩ := step_dwnSettles.mp h
          exact ⟨_, requests_setStage_self hi' _, rfl⟩
        case closeSettles => obtain ⟨_, _, _, _, hi', -⟩ := step_closeSettles.mp h; simp [hi] at hi'
        case respond => obtain ⟨_, _, hi', -⟩ := step_respond.mp h; simp [hi] at hi'
      · exact Or.inl ⟨request, requestId, call, (unmoved hi ha h).1⟩
    · exact Or.inr (hreturned.step h)
  · intro id hid
    rcases opened_step h with hsame | ⟨j, outcome, host, request, context', requestId, call, id', -,
      hi, hopened, -, happend⟩
    · exact hw.opened id (hsame ▸ hid)
    · rw [happend] at hid
      rcases List.mem_append.mp hid with hold | hnew
      · exact hw.opened id hold
      · obtain ⟨rfl, rfl⟩ := Prod.mk.inj (List.mem_singleton.mp hnew)
        rcases hw.stage with ⟨_, _, _, hstage⟩ | hreturned
        · cases Option.some.inj (hi.symm.trans hstage)
          exact mem_of_openedSubscription hopened
        · exact absurd hreturned (not_returned hi)

/-- The handler that is called for an event of request `i` is the one for the id of the request's
context. -/
theorem OpensUnder.event {context : RequestContext} (hw : w.OpensUnder i context) {e : Json}
    (h : w.step (.event i e) = some t) :
    ∃ id ∈ context.subscriptionRequest, w.event i id e = t := by
  obtain ⟨id, hid, -, rfl⟩ := step_event h
  exact ⟨id, hw.opened id hid, rfl⟩

/-- When the DWN is called, nothing has been opened for the request. -/
theorem opensUnder_called {request requestId : Json} {context : RequestContext} {call : DwnCall}
    (hw : w.OpenersReturned)
    (hi : w.requests[i]? = some (.processing request context requestId call)) :
    w.OpensUnder i context :=
  ⟨Or.inl ⟨request, requestId, call, hi⟩, fun _ hid => absurd (hw _ hid) (not_returned hi)⟩

/-! ### From the text to the call -/

/-- The context of request `i`, once it is built, is that of the text. -/
structure BuiltFrom (data : JsString) (i : ℕ) (w : Connection) : Prop where
  received : i < w.requests.length
  built : ∀ request context, w.requests[i]? = some (.contextBuilt request context) →
    Json.parse data = some request ∧ buildRequestContext i request = .ok context

theorem length_step (h : w.step a = some t) : w.requests.length ≤ t.requests.length := by
  cases progress h with
  | received stage frames hrequests => simp [hrequests]
  | advanced j old new id frames _ _ _ hrequests => simp [hrequests]
  | kept _ hrequests => simp [hrequests]

theorem builtFrom_message {data : JsString} {host : Host}
    (h : w.step (.message data host) = some t) : t.BuiltFrom data w.requests.length := by
  constructor
  · obtain ⟨-, rfl⟩ := step_message.mp h
    rcases message_cases w data host with ⟨text, hm⟩ | hm | ⟨request, context, -, hm⟩ <;>
      simp [hm, refuse, receive, send]
  · intro request context hi
    rcases contextBuilt_step h hi with hold | ⟨data', host', heq, -, hparse, hcontext⟩
    · simp at hold
    · cases heq
      exact ⟨hparse, hcontext⟩

theorem BuiltFrom.step {data : JsString} (hw : w.BuiltFrom data i) (h : w.step a = some t) :
    t.BuiltFrom data i := by
  refine ⟨lt_of_lt_of_le hw.received (length_step h), fun request context hi => ?_⟩
  rcases contextBuilt_step h hi with hold | ⟨data', host, -, hnew, -⟩
  · exact hw.built request context hold
  · exact absurd hw.received (by omega)

end Connection

/-! ### In a run of the server's connections -/

namespace ConnectionManager

/-- The DWN was called for request `i` of connection `c`, and has not replied yet. -/
def Calls (w : ConnectionManager) (c i : ℕ) (request : Json) (call : DwnCall) : Prop :=
  ∃ d ∈ w.all[c]?, ∃ context requestId,
    d.requests[i]? = some (.processing request context requestId call)

/-- A step calls the DWN for the text that connection `c` received as its request `i`. -/
structure Invokes (w : ConnectionManager) (a : ManagerAction) (t : ConnectionManager) (c i : ℕ)
    (data : JsString) (request : Json) (call : DwnCall) : Prop where
  received : ∃ as bs host u v, run step new as = some u ∧ (∃ d ∈ u.all[c]?, d.requests.length = i) ∧
    u.step (.connection c (.message data host)) = some v ∧ run step v bs = some w
  steps : w.step a = some t
  before : ¬w.Calls c i request call
  after : t.Calls c i request call

variable {w t : ConnectionManager} {a : ManagerAction} {c i : ℕ} {data : JsString} {request : Json}
  {call : DwnCall}

/-- The connection has built the context of the text, and its handler calls the DWN. -/
theorem Invokes.calls (h : Invokes w a t c i data request call) :
    ∃ d d' context host requestId, w.all[c]? = some d ∧ t.all[c]? = some d' ∧
      Json.parse data = some request ∧ buildRequestContext i request = .ok context ∧
      handleDwnProcessMessage host request context (some d.state) =
        .ok (.processMessage requestId call) ∧
      d'.OpensUnder i context := by
  obtain ⟨⟨as, bs, host, u, v, hbefore, ⟨d₀, hd₀, hi⟩, hmessage, hafter⟩, hsteps, hnot, hcalls⟩ := h
  obtain ⟨d₀', d₁, hd₀', hreceives, hall, -, -⟩ := step_connection hmessage
  obtain rfl : d₀' = d₀ := Option.some.inj (hd₀'.symm.trans hd₀)
  have hd₁ : v.all[c]? = some d₁ := by
    rw [hall]
    exact List.getElem?_set_self (List.getElem?_eq_some_iff.mp hd₀').1
  obtain ⟨bs', d, hd, hrun⟩ := exists_run_of_run hd₁ hafter
  have hbuilt : d.BuiltFrom data i :=
    run_invariant (fun _ _ _ hs hstep => hs.step hstep)
      (hi ▸ Connection.builtFrom_message hreceives) hrun
  obtain ⟨d', hd', context, requestId, hprocessing⟩ := hcalls
  have hreachable : t.Reachable :=
    (run_invariant (fun _ _ _ hs hstep => hs.step hstep)
      ((reachable_of_run hbefore).step hmessage) hafter).step hsteps
  obtain ⟨as', hfrom⟩ := hreachable c d' hd'
  have hopens := Connection.opensUnder_called (Connection.wellFormed_run hfrom).openers hprocessing
  obtain ⟨d₂, hd₂, hstep⟩ := step_all hd hsteps
  obtain rfl : d₂ = d' := Option.some.inj (hd₂.symm.trans hd')
  rcases hstep with rfl | ⟨a', hstep⟩
  · exact absurd ⟨d₂, hd, context, requestId, hprocessing⟩ hnot
  rcases Connection.processing_step hstep hprocessing with hold | ⟨host', -, hcontext, hcall⟩
  · exact absurd ⟨d, hd, context, requestId, hold⟩ hnot
  obtain ⟨hparse, hbuild⟩ := hbuilt.built request context hcontext
  exact ⟨d, d₂, context, host', requestId, hd, hd', hparse, hbuild, hcall, hopens⟩

/-- An event of the subscription is a call of its handler, on connection `c` and no other one. -/
theorem event_of_opensUnder {context : RequestContext} {d : Connection} {as : List ManagerAction}
    {u v : ConnectionManager} {e : Json} (hd : t.all[c]? = some d) (hopens : d.OpensUnder i context)
    (hrun : run step t as = some u) (h : u.step (.connection c (.event i e)) = some v) :
    ∃ id ∈ context.subscriptionRequest, ∃ d' ∈ u.all[c]?,
      v.all = u.all.set c (d'.event i id e) := by
  obtain ⟨bs, d', hd', hrun'⟩ := exists_run_of_run hd hrun
  obtain ⟨d₂, d₃, hd₂, hevent, hall, -, -⟩ := step_connection h
  obtain rfl : d₂ = d' := Option.some.inj (hd₂.symm.trans hd')
  have hlater : d₂.OpensUnder i context :=
    run_invariant (fun _ _ _ hs hstep => hs.step hstep) hopens hrun'
  obtain ⟨id, hid, rfl⟩ := hlater.event hevent
  exact ⟨id, hid, d₂, hd₂, hall⟩

end ConnectionManager

/-- The route calls the DWN, if it does, with what is allowed over HTTP. A connection calls it with
what is allowed over a WebSocket for the text it received; a handler goes along under the id in
the request's `subscription`, which the connection does not hold then. Whenever the handler is
called it sends one frame under that id, and the events of the subscription are calls of it on
this connection. -/
theorem invocations :
    (∀ host headers,
      (∀ request call, HttpInvokes host headers request call → Allowed .http request call) ∧
      ∀ dwn dwn', (∀ request call, HttpInvokes host headers request call → dwn call = dwn' call) →
        post host headers dwn = post host headers dwn') ∧
    ∀ w a t c i data request call, ConnectionManager.Invokes w a t c i data request call →
      Json.parse data = some request ∧ Allowed .ws request call ∧
      ∀ id ∈ call.subscriptionHandler, id = subscriptionIdOf i request ∧
        (∃ d ∈ w.all[c]?, d.state.hasSubscription id = false) ∧
        (∀ (d : Connection) e, d.event i id e = d.send (.event i
          (createJsonRpcSuccessResponse id.value (some (.object [(js "event", e)]))))) ∧
        ∀ as u v e, run ConnectionManager.step t as = some u →
          u.step (.connection c (.event i e)) = some v →
          ∃ d ∈ u.all[c]?, v.all = u.all.set c (d.event i id e) := by
  refine ⟨fun host headers => ⟨fun request call => allowed_http, fun dwn dwn' => post_congr⟩,
    fun w a t c i data request call h => ?_⟩
  obtain ⟨d, d', context, host, requestId, hd, hd', hparse, hbuild, hcall, hopens⟩ := h.calls
  obtain ⟨hallowed, hhandler, hid⟩ := allowed_ws hbuild hcall
  refine ⟨hparse, hallowed, fun id hmem =>
    ⟨(hid id hmem).1, ⟨d, hd, (hid id hmem).2⟩, fun _ _ => rfl, ?_⟩⟩
  intro as u v e hrun hevent
  obtain ⟨id', hid', hsent⟩ := ConnectionManager.event_of_opensUnder hd' hopens hrun hevent
  rw [hhandler] at hmem
  obtain rfl : id' = id := Option.some.inj (hid'.symm.trans hmem)
  exact hsent

/-- The DWN is called for a Subscribe message, with a handler. -/
theorem invocations_subscribe : ∃ w a t call,
    ConnectionManager.Invokes w a t 0 0 Connection.subscribeFrame Connection.subscribeRequest call ∧
      Allowed .ws Connection.subscribeRequest call ∧
      call.subscriptionHandler = some (subscriptionIdOf 0 Connection.subscribeRequest) := by
  have hparse : Json.parse Connection.subscribeFrame = some Connection.subscribeRequest := by
    simpa only [Connection.opening] using Connection.parse_opening
  have hmessage : Connection.new.step (.message Connection.subscribeFrame Connection.host) =
      some (Connection.new.receive (.contextBuilt Connection.subscribeRequest
        ⟨.ws, false, some (subscriptionIdOf 0 Connection.subscribeRequest)⟩)) :=
    Connection.step_message.mpr ⟨rfl, Connection.message_of_context hparse rfl⟩
  have hreceives : ConnectionManager.step ⟨[Connection.new], [0], []⟩
      (.connection 0 (.message Connection.subscribeFrame Connection.host)) =
        some ⟨[Connection.new.receive (.contextBuilt Connection.subscribeRequest
          ⟨.ws, false, some (subscriptionIdOf 0 Connection.subscribeRequest)⟩)], [0], []⟩ := by
    simp [ConnectionManager.step, hmessage, Connection.receive]
  have hinvokes : ConnectionManager.Invokes _ (.connection 0 (.handle 0 Connection.host)) _ 0 0
      Connection.subscribeFrame Connection.subscribeRequest _ :=
    { received := ⟨[.connect], [], Connection.host, _, _, rfl, ⟨_, rfl, rfl⟩, hreceives, rfl⟩
      steps := rfl
      before := by
        rintro ⟨d, hd, context, requestId, hstage⟩
        cases hd
        cases hstage
      after := ⟨_, rfl, _, _, rfl⟩ }
  obtain ⟨-, hallowed, -⟩ := invocations.2 _ _ _ _ _ _ _ _ hinvokes
  exact ⟨_, _, _, _, hinvokes, hallowed, rfl⟩

end DwnServer
