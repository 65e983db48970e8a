import DwnServer.Js.JsonText
import DwnServer.JsonRpc.Handlers
import DwnServer.Library.Transition

/-!
# A WebSocket connection with its requests in flight

The system of one `SocketConnection`: its socket, its fields, and every frame it ever
received, each with the point its handling has reached. One action is one uninterrupted
piece of source code, from a resumption to the next await, so runs of the system are the
interleavings of the frames' handlers with the heartbeat, the socket's events and the
callers of `close`. The DWN replies to a call at any later time with any outcome, and
delivers events of a subscription it returned until the `close` function is called.
-/
namespace DwnServer

/-- How far the handling of a frame has come. -/
inductive Stage where
  /-- `buildRequestContext` has returned -/
  | contextBuilt (request : Json) (context : RequestContext)
  /-- waiting for `dwn.processMessage` -/
  | processing (request : Json) (context : RequestContext) (requestId : Json) (call : DwnCall)
  /-- waiting for the `close` function of a subscription -/
  | closing (request : Json) (requestId : Json) (id : SubscriptionId) (subscription : ℕ)
  /-- the handler has returned -/
  | handled (request : Json) (response : HandlerResponse)
  /-- a response was sent -/
  | answered
  /-- an exception ended the handling -/
  | threw

def Stage.isFinished : Stage → Bool
  | .answered | .threw => true
  | _ => false

/-- The subscription whose `close` function the request waits for. -/
def Stage.closing? : Stage → Option (SubscriptionId × ℕ)
  | .closing _ _ id subscription => some (id, subscription)
  | _ => none

/-- The stage after a handler that returned a response or threw. -/
def Stage.ofResponse (request : Json) : Eval Json → Stage
  | .ok response => .handled request (respond response)
  | .error _ => .threw

@[simp] theorem Stage.closing?_ofResponse (request : Json) (response : Eval Json) :
    (Stage.ofResponse request response).closing? = none := by
  cases response <;> rfl

theorem Stage.ofResponse_ne_answered (request : Json) (response : Eval Json) :
    Stage.ofResponse request response ≠ .answered := by
  cases response <;> simp [ofResponse]

/-- A frame sent to the client: the response to a numbered request, or an event of the
subscription it opened. -/
inductive Frame where
  | response (request : ℕ) (message : Json)
  | event (subscription : ℕ) (message : Json)

/-- An entry that left the map: its subscription, and the subscription whose `close`
function was called by the code that removed the entry. -/
structure Removal where
  removed : ℕ
  closed : ℕ
  deriving DecidableEq

inductive Settlement where
  | pending
  | resolved
  | rejected
  deriving DecidableEq

/-- A call of the connection's `close`: what it waits for, and whether it has settled. -/
structure CloseCall where
  subscriptions : List ℕ
  settlement : Settlement
  deriving DecidableEq

/-- The connection, its socket and its requests, with the history of what happened to the
subscriptions of the DWN: which were opened and under which id, the calls of their
`close` functions in order, and the entries that left the map. A request's number is its
place in `requests`. -/
structure Connection where
  state : SocketConnection
  listening : Bool
  terminated : Bool
  socketClosed : Bool
  onCloseCalls : ℕ
  requests : List Stage
  sent : List Frame
  opened : List (SubscriptionId × ℕ)
  closeCalls : List ℕ
  removals : List Removal
  closes : List CloseCall

inductive Action where
  | message (data : JsString) (host : Host)
  | handle (request : ℕ) (host : Host)
  | dwnSettles (request : ℕ) (outcome : DwnOutcome) (host : Host)
  | closeSettles (request : ℕ) (outcome : Except JsString Unit) (host : Host)
  | respond (request : ℕ)
  | event (subscription : ℕ) (event : Json)
  | heartbeat
  | pong
  | socketClose
  | socketError
  | close
  | closeAllSettles (call : ℕ) (resolved : Bool)

/-- `v.startsWith(text)`, which only a string has. -/
def JsValue.startsWith (v : JsValue) (text : JsString) : Eval Bool :=
  match v with
  | some (.string s) => .ok (text.isPrefixOf s)
  | _ => .error .engine

/-- `message?.descriptor.method`. -/
def descriptorMethod (message : JsValue) : Eval JsValue :=
  if message.isNullish then .ok none
  else do (← message.read "descriptor").read "method"

/-- `buildRequestContext`; `i` is the number of the request. -/
def buildRequestContext (i : ℕ) (request : Json) : Eval RequestContext := do
  let params ← JsValue.read (some request) "params"
  let method ← JsValue.read (some request) "method"
  let subscription ← JsValue.read (some request) "subscription"
  if (← method.startsWith (js "rpc.subscribe.")) && subscription.truthy then
    let message ← params.read "message"
    if (← descriptorMethod message).isText (js "Subscribe") then
      return ⟨.ws, false, some (.of i (← subscription.read "id"))⟩
  return ⟨.ws, false, none⟩

/-- `buildRequestContext` gets through: the method is a string, and when it asks for a
subscription, the params can be read and a message has a descriptor. -/
structure ContextBuilds (request : Json) (method : JsString) : Prop where
  isMethod : request.own (js "method") = some (.string method)
  subscribe : (js "rpc.subscribe.").isPrefixOf method = true →
    (request.own (js "subscription")).truthy = true →
    (request.own (js "params")).isNullish = false ∧
      (((request.own (js "params")).readOptional "message").isNullish = true ∨
        (((request.own (js "params")).readOptional "message").readOptional
          "descriptor").isNullish = false)

theorem descriptorMethod_eq (message : JsValue) :
    descriptorMethod message =
      if message.isNullish then .ok none
      else if (message.readOptional "descriptor").isNullish then .error .engine
      else .ok ((message.readOptional "descriptor").readOptional "method") := by
  unfold descriptorMethod
  by_cases hmessage : message.isNullish = true
  · rw [if_pos hmessage, if_pos hmessage]
  · rw [if_neg hmessage, if_neg hmessage]
    by_cases hdescriptor : (message.readOptional "descriptor").isNullish = true <;>
      simp [JsValue.read_eq, hmessage, hdescriptor, bind, Except.bind]

/-- A method that is no string has no `startsWith`. -/
theorem exists_method_of_buildRequestContext {i : ℕ} {request : Json} {context : RequestContext}
    (h : buildRequestContext i request = .ok context) :
    ∃ method, request.own (js "method") = some (.string method) := by
  have hthrows (hm : (request.own (js "method")).startsWith (js "rpc.subscribe.") =
      .error .engine) : False := by
    by_cases hnull : JsValue.isNullish (some request) = true <;>
      simp [buildRequestContext, JsValue.read_eq, hnull, JsValue.readOptional, hm, bind,
        Except.bind] at h
  rcases hmethod : request.own (js "method") with _ | ⟨_ | _ | _ | method | _ | _⟩
  case some.string => exact ⟨method, rfl⟩
  all_goals exact (hthrows (by rw [hmethod]; rfl)).elim

theorem buildRequestContext_eq {request : Json} {method : JsString}
    (hmethod : request.own (js "method") = some (.string method)) (i : ℕ) :
    buildRequestContext i request =
      let subscription := request.own (js "subscription")
      let message := (request.own (js "params")).readOptional "message"
      if (js "rpc.subscribe.").isPrefixOf method && subscription.truthy then
        if (request.own (js "params")).isNullish then .error .engine
        else (descriptorMethod message).bind fun m =>
          if m.isText (js "Subscribe") then
            .ok ⟨.ws, false, some (.of i (subscription.readOptional "id"))⟩
          else .ok ⟨.ws, false, none⟩
      else .ok ⟨.ws, false, none⟩ := by
  have hnull := JsValue.isNullish_of_own hmethod
  by_cases hsubscribe : ((js "rpc.subscribe.").isPrefixOf method &&
      (request.own (js "subscription")).truthy) = true
  · have htruthy := JsValue.isNullish_of_truthy (Bool.and_eq_true_iff.mp hsubscribe).2
    by_cases hparams : (request.own (js "params")).isNullish = true
    · simp [buildRequestContext, JsValue.read_eq, hnull, JsValue.readOptional, hmethod,
        JsValue.startsWith, bind, Except.bind, hsubscribe, hparams]
    · simp [buildRequestContext, JsValue.read_eq, hnull, JsValue.readOptional, hmethod,
        JsValue.startsWith, bind, Except.bind, hsubscribe, hparams, htruthy]
      rfl
  · simp [buildRequestContext, JsValue.read_eq, hnull, JsValue.readOptional, hmethod,
      JsValue.startsWith, bind, Except.bind, hsubscribe]
    rfl

theorem buildRequestContext_isOk (i : ℕ) (request : Json) :
    (∃ context, buildRequestContext i request = .ok context) ↔
      ∃ method, ContextBuilds request method := by
  constructor
  · rintro ⟨context, h⟩
    obtain ⟨method, hmethod⟩ := exists_method_of_buildRequestContext h
    refine ⟨method, hmethod, fun hstarts htruthy => ?_⟩
    rw [buildRequestContext_eq hmethod] at h
    simp only [hstarts, htruthy, Bool.and_self, if_true, descriptorMethod_eq] at h
    split_ifs at h with hparams hmessage hdescriptor
    · exact ⟨by simpa using hparams, Or.inl hmessage⟩
    · cases h
    · exact ⟨by simpa using hparams, Or.inr (by simpa using hdescriptor)⟩
  · rintro ⟨method, hmethod, hsubscribe⟩
    rw [buildRequestContext_eq hmethod]
    dsimp only
    split_ifs with hboth hparams
    · obtain ⟨hstarts, htruthy⟩ := Bool.and_eq_true_iff.mp hboth
      simp [(hsubscribe hstarts htruthy).1] at hparams
    · obtain ⟨hstarts, htruthy⟩ := Bool.and_eq_true_iff.mp hboth
      rw [descriptorMethod_eq]
      have hbuilds : ∀ m : JsValue, ∃ context, (if m.isText (js "Subscribe") then
          (.ok ⟨.ws, false, some (.of i ((request.own (js "subscription")).readOptional "id"))⟩ :
            Eval RequestContext)
          else .ok ⟨.ws, false, none⟩) = .ok context := by
        intro m
        split_ifs <;> exact ⟨_, rfl⟩
      split_ifs with hmessage hdescriptor
      · exact hbuilds none
      · rcases (hsubscribe hstarts htruthy).2 with h | h
        · exact absurd h hmessage
        · exact absurd hdescriptor (by simp [h])
      · exact hbuilds ((((request.own (js "params")).readOptional "message").readOptional
          "descriptor").readOptional "method")
    · exact ⟨_, rfl⟩

/-- The DWN opens subscriptions for Subscribe messages only, and a request that carries one
has a subscription handler by the time it reaches the DWN. -/
def canReply (context : RequestContext) : DwnOutcome → Bool
  | .ok reply => !reply.subscription || context.subscriptionRequest.isSome
  | .error _ => true

namespace Connection

def new : Connection :=
  { state := .new, listening := true, terminated := false, socketClosed := false,
    onCloseCalls := 0, requests := [], sent := [], opened := [], closeCalls := [],
    removals := [], closes := [] }

/-- `this.send`. -/
def send (w : Connection) (frame : Frame) : Connection := { w with sent := w.sent ++ [frame] }

/-- A new request; its number is the number of requests before it. -/
def receive (w : Connection) (stage : Stage) : Connection :=
  { w with requests := w.requests ++ [stage] }

def setStage (w : Connection) (i : ℕ) (stage : Stage) : Connection :=
  { w with requests := w.requests.set i stage }

/-- `close` up to `Promise.all`. -/
def beginClose (w : Connection) : Connection :=
  { w with
    state := w.state.close.2
    listening := false
    closeCalls := w.closeCalls ++ w.state.close.1
    removals := w.removals ++ w.state.close.1.map fun s => ⟨s, s⟩
    closes := w.closes ++ [⟨w.state.close.1, .pending⟩] }

/-- The rest of `close`, which a rejected `close` function skips. -/
def closeAllSettles (w : Connection) (call : ℕ) (closed : CloseCall) (resolved : Bool) :
    Connection :=
  if resolved then
    { w with
      closes := w.closes.set call { closed with settlement := .resolved }
      socketClosed := true
      onCloseCalls := w.onCloseCalls + 1 }
  else { w with closes := w.closes.set call { closed with settlement := .rejected } }

/-- The callback of the heartbeat timer. -/
def heartbeat (w : Connection) : Connection :=
  let w := if w.state.isAlive then w else w.beginClose
  { w with state := { w.state with isAlive := false } }

/-- A frame that is no JSON text is answered at once. -/
def refuse (w : Connection) (host : Host) (text : JsString) : Connection :=
  (w.receive .answered).send (.response w.requests.length
    (createJsonRpcErrorResponse (some (.string host.uuid)) .badRequest text))

/-- `message` up to the return of `buildRequestContext`. -/
def message (w : Connection) (data : JsString) (host : Host) : Connection :=
  if data = [] then w.refuse host (js "request payload required.")
  else
    match Json.parse data with
    | none => w.refuse host host.engineText
    | some request =>
      match buildRequestContext w.requests.length request with
      | .error _ => w.receive .threw
      | .ok context => w.receive (.contextBuilt request context)

/-- Where the router's call of a handler gets before its first await. -/
def route (w : Connection) (i : ℕ) (request : Json) (context : RequestContext) (host : Host) :
    Stage :=
  match jsonRpcRouter.route request with
  | .error _ => .threw
  | .ok (.inr response) => .handled request response
  | .ok (.inl .handleDwnProcessMessage) =>
    match handleDwnProcessMessage host request context (some w.state) with
    | .error _ => .threw
    | .ok (.responded response) => .handled request (DwnServer.respond response)
    | .ok (.processMessage requestId call) => .processing request context requestId call
  | .ok (.inl .handleSubscriptionsClose) =>
    match handleSubscriptionsClose host i request (some w.state) with
    | .error _ => .threw
    | .ok (.responded response) => .handled request (DwnServer.respond response)
    | .ok (.close requestId id subscription) => .closing request requestId id subscription

/-- `jsonRpcRouter.handle`, which calls the `close` function that the handler waits for. -/
def handle (w : Connection) (i : ℕ) (request : Json) (context : RequestContext) (host : Host) :
    Connection :=
  let stage := w.route i request context host
  { w.setStage i stage with
    closeCalls := w.closeCalls ++ stage.closing?.toList.map Prod.snd }

/-- `handleDwnProcessMessage` from the outcome of the DWN on. -/
def dwnSettles (w : Connection) (i : ℕ) (request : Json) (context : RequestContext)
    (requestId : Json) (outcome : DwnOutcome) (host : Host) : Connection :=
  let (response, state) :=
    finishProcessMessage host requestId context (some w.state) i outcome
  { w.setStage i (.handled request response) with
    state := state.getD w.state
    opened := w.opened ++ (openedSubscription context outcome).toList.map fun id => (id, i) }

/-- `handleSubscriptionsClose` from the outcome of the `close` function on. -/
def closeSettles (w : Connection) (i : ℕ) (request requestId : Json) (id : SubscriptionId)
    (subscription : ℕ) (outcome : Except JsString Unit) (host : Host) : Connection :=
  let (response, state) := finishSubscriptionsClose host requestId id w.state outcome
  let removed := if outcome.isOk then w.state.subscriptions.get? id.key else none
  { w.setStage i (.ofResponse request response) with
    state := state
    removals := w.removals ++ removed.toList.map fun s => ⟨s, subscription⟩ }

/-- The end of `message`: the response is counted and sent. -/
def respond (w : Connection) (i : ℕ) (request : Json) (response : HandlerResponse) : Connection :=
  match response.jsonRpcResponse, countRequest request response.jsonRpcResponse with
  | some message, .ok _ => (w.setStage i .answered).send (.response i message)
  | _, _ => w.setStage i .threw

/-- The handler of `createSubscriptionHandler`. -/
def event (w : Connection) (subscription : ℕ) (id : SubscriptionId) (event : Json) : Connection :=
  w.send (.event subscription
    (createJsonRpcSuccessResponse id.value (some (.object [(js "event", event)]))))

def step (w : Connection) : Action → Option Connection
  | .message data host => if w.listening then some (w.message data host) else none
  | .handle i host =>
    match w.requests[i]? with
    | some (.contextBuilt request context) => some (w.handle i request context host)
    | _ => none
  | .dwnSettles i outcome host =>
    match w.requests[i]? with
    | some (.processing request context requestId _) =>
      if canReply context outcome then
        some (w.dwnSettles i request context requestId outcome host)
      else none
    | _ => none
  | .closeSettles i outcome host =>
    match w.requests[i]? with
    | some (.closing request requestId id subscription) =>
      some (w.closeSettles i request requestId id subscription outcome host)
    | _ => none
  | .respond i =>
    match w.requests[i]? with
    | some (.handled request response) => some (w.respond i request response)
    | _ => none
  | .event subscription e =>
    match w.opened.find? fun o => o.2 = subscription with
    | some (id, _) =>
      if subscription ∈ w.closeCalls then none else some (w.event subscription id e)
    | none => none
  | .heartbeat => if w.state.heartbeatInterval then some w.heartbeat else none
  | .pong => if w.listening then some { w with state := w.state.pong } else none
  | .socketClose => if w.listening then some w.beginClose else none
  | .socketError => if w.listening then some { w with terminated := true }.beginClose else none
  | .close => some w.beginClose
  | .closeAllSettles call resolved =>
    match w.closes[call]? with
    | some closed =>
      if closed.settlement = .pending ∧ (resolved = true ∨ closed.subscriptions ≠ []) then
        some (w.closeAllSettles call closed resolved)
      else none
    | none => none

/-! ## Which steps are enabled -/

variable {w t : Connection} {i : ℕ} {host : Host}

theorem step_message {data : JsString} : w.step (.message data host) = some t ↔
    w.listening = true ∧ w.message data host = t := by
  simp [step]

theorem message_cases (w : Connection) (data : JsString) (host : Host) :
    (∃ text, w.message data host = w.refuse host text) ∨ w.message data host = w.receive .threw ∨
      ∃ request context, buildRequestContext w.requests.length request = .ok context ∧
        w.message data host = w.receive (.contextBuilt request context) := by
  unfold message
  split_ifs with hdata
  · exact Or.inl ⟨_, rfl⟩
  · cases Json.parse data with
    | none => exact Or.inl ⟨_, rfl⟩
    | some request =>
      cases hcontext : buildRequestContext w.requests.length request with
      | error e => exact Or.inr (Or.inl (by simp [hcontext]))
      | ok context => exact Or.inr (Or.inr ⟨request, context, hcontext, by simp [hcontext]⟩)

theorem step_handle : w.step (.handle i host) = some t ↔ ∃ request context,
    w.requests[i]? = some (.contextBuilt request context) ∧
      w.handle i request context host = t := by
  simp only [step]
  split <;> simp_all

theorem step_dwnSettles {outcome : DwnOutcome} : w.step (.dwnSettles i outcome host) = some t ↔
    ∃ request context requestId call,
      w.requests[i]? = some (.processing request context requestId call) ∧
      canReply context outcome = true ∧
      w.dwnSettles i request context requestId outcome host = t := by
  simp only [step]
  split <;> simp_all

theorem step_closeSettles {outcome : Except JsString Unit} :
    w.step (.closeSettles i outcome host) = some t ↔ ∃ request requestId id subscription,
      w.requests[i]? = some (.closing request requestId id subscription) ∧
      w.closeSettles i request requestId id subscription outcome host = t := by
  simp only [step]
  split <;> simp_all

theorem step_respond : w.step (.respond i) = some t ↔ ∃ request response,
    w.requests[i]? = some (.handled request response) ∧ w.respond i request response = t := by
  simp only [step]
  split <;> simp_all

theorem step_heartbeat : w.step .heartbeat = some t ↔
    w.state.heartbeatInterval = true ∧ w.heartbeat = t := by
  simp [step]

theorem step_pong : w.step .pong = some t ↔
    w.listening = true ∧ { w with state := w.state.pong } = t := by
  simp [step]

theorem step_socketClose : w.step .socketClose = some t ↔
    w.listening = true ∧ w.beginClose = t := by
  simp [step]

theorem step_socketError : w.step .socketError = some t ↔
    w.listening = true ∧ ({ w with terminated := true } : Connection).beginClose = t := by
  simp [step]

theorem step_closeAllSettles {call : ℕ} {resolved : Bool} :
    w.step (.closeAllSettles call resolved) = some t ↔ ∃ closed, w.closes[call]? = some closed ∧
      closed.settlement = .pending ∧ (resolved = true ∨ closed.subscriptions ≠ []) ∧
      w.closeAllSettles call closed resolved = t := by
  simp only [step]
  split <;> simp_all [and_assoc]

theorem step_event {subscription : ℕ} {e : Json} (h : w.step (.event subscription e) = some t) :
    ∃ id, (id, subscription) ∈ w.opened ∧ subscription ∉ w.closeCalls ∧
      w.event subscription id e = t := by
  simp only [step] at h
  split at h
  · rename_i id j hfind
    split_ifs at h with hclosed
    have hsame : j = subscription := by simpa using List.find?_some hfind
    exact ⟨id, hsame ▸ List.mem_of_find?_eq_some hfind, hclosed, Option.some.inj h⟩
  · cases h

end Connection

end DwnServer
