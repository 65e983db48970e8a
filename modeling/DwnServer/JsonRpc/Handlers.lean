import DwnServer.Connection.SocketConnection
import DwnServer.JsonRpc.Router

/-!
# The two JSON-RPC handlers

Each handler is cut where it awaits: `handleDwnProcessMessage` at its call of the DWN,
`handleSubscriptionsClose` at its call of a subscription's `close` function. The part
before the await is a function of the request, its context and the connection as it
stands, and yields the response or the call; the part after takes the outcome.
-/
namespace DwnServer

/-- What the host adds to an evaluation: the next UUID, and the message of the exception
the engine raises, should it raise one. -/
structure Host where
  uuid : JsString
  engineText : JsString

inductive Transport where
  | http
  | ws
  deriving DecidableEq

def Transport.text : Transport → JsString
  | .http => js "http"
  | .ws => js "ws"

/-- A `RequestContext` without the connection, whose state changes while a request waits;
`dataStream` is whether the request came with a body. -/
structure RequestContext where
  transport : Transport
  dataStream : Bool
  subscriptionRequest : Option SubscriptionId
  deriving DecidableEq

/-- The arguments of `dwn.processMessage`. -/
structure DwnCall where
  target : JsValue
  message : JsValue
  dataStream : Bool
  subscriptionHandler : Option SubscriptionId

/-- The reply of the DWN. `entryData` is whether the entry came with its data as a stream,
`subscription` whether a subscription was opened; `members` is the rest of the reply as it
serialises once the stream and the `close` function are taken out of it. -/
structure DwnReply where
  statusCode : JsNumber
  statusDetail : JsString
  entryData : Bool
  subscription : Bool
  members : List (JsString × Json)

def DwnReply.toJson (reply : DwnReply) : Json :=
  .object ((js "status", .object [(js "code", .number reply.statusCode),
    (js "detail", .string reply.statusDetail)]) :: reply.members)

/-- `dwn.processMessage` throws an error with a message, or replies. -/
abbrev DwnOutcome := Except JsString DwnReply

/-- `dwnRequest.id ?? uuidv4()`. -/
def requestId (host : Host) (request : Json) : Json :=
  match request.own (js "id") with
  | none | some .null => .string host.uuid
  | some id => id

def respond (response : Json) : HandlerResponse := ⟨some response, .absent⟩

/-! ## `handleDwnProcessMessage` -/

/-- How far the handler gets before its first await. -/
inductive ProcessMessageStart where
  | responded (response : Json)
  | processMessage (requestId : Json) (call : DwnCall)

/-- The guards inside the `try` block, in the order of the source. -/
def guardedProcessMessage (requestId : Json) (context : RequestContext)
    (socketConnection : Option SocketConnection) (target message : JsValue) :
    Eval ProcessMessageStart := do
  if context.transport ≠ .http then
    let descriptor ← message.read "descriptor"
    if (← descriptor.read "interface").isText (js "Records") &&
        (← descriptor.read "method").isText (js "Write") then
      return .responded (createJsonRpcErrorResponse requestId .invalidParams
        (js "RecordsWrite is not supported via " ++ context.transport.text))
  let descriptor ← message.read "descriptor"
  if (← descriptor.read "method").isText (js "Subscribe") &&
      context.subscriptionRequest.isNone then
    return .responded (createJsonRpcErrorResponse requestId .invalidRequest
      (js "subscribe methods must contain a subscriptionRequest context"))
  if context.transport ≠ .ws && context.subscriptionRequest.isSome then
    return .responded (createJsonRpcErrorResponse requestId .invalidParams
      (js "subscriptions are not supported via " ++ context.transport.text))
  if let some id := context.subscriptionRequest then
    if socketConnection.elim false fun c => c.hasSubscription id then
      let text ← id.value.toText
      return .responded (createJsonRpcErrorResponse requestId .invalidParams
        (js "the subscribe id: " ++ text ++ js " is in use by an active subscription"))
  return .processMessage requestId
    ⟨target, message, context.dataStream, context.subscriptionRequest⟩

/-- The response of the `catch` block. -/
def internalError (host : Host) (requestId : Json) (error : ServerThrown) : Json :=
  createJsonRpcErrorResponse requestId .internalError (error.message host.engineText)

def handleDwnProcessMessage (host : Host) (dwnRequest : Json) (context : RequestContext)
    (socketConnection : Option SocketConnection) : Eval ProcessMessageStart := do
  let target ← (dwnRequest.own (js "params")).read "target"
  let message ← (dwnRequest.own (js "params")).read "message"
  let id := requestId host dwnRequest
  match guardedProcessMessage id context socketConnection target message with
  | .ok start => return start
  | .error error => return .responded (internalError host id error)

/-- `createJsonRpcSuccessResponse(requestId, { reply })`. -/
def processedResponse (requestId : Json) (reply : DwnReply) : Json :=
  createJsonRpcSuccessResponse requestId (some (.object [(js "reply", reply.toJson)]))

/-- The claim of a subscription the DWN opened; nothing is claimed for other replies. -/
def claimSubscription (context : RequestContext) (socketConnection : Option SocketConnection)
    (subscription : ℕ) (reply : DwnReply) : Eval (Option SocketConnection) :=
  match context.subscriptionRequest with
  | some id =>
    if reply.subscription then
      match socketConnection with
      | some c => (c.addSubscription id subscription).map some
      | none => .error .engine
    else .ok socketConnection
  | none => .ok socketConnection

/-- The rest of the handler, from the outcome of `dwn.processMessage` on. -/
def finishProcessMessage (host : Host) (requestId : Json) (context : RequestContext)
    (socketConnection : Option SocketConnection) (subscription : ℕ) (outcome : DwnOutcome) :
    HandlerResponse × Option SocketConnection :=
  match outcome with
  | .error message =>
    (respond (internalError host requestId (.foreign message)), socketConnection)
  | .ok reply =>
    match claimSubscription context socketConnection subscription reply with
    | .error error => (respond (internalError host requestId error), socketConnection)
    | .ok socketConnection =>
      (⟨some (processedResponse requestId reply), if reply.entryData then .stream else .absent⟩,
        socketConnection)

/-! ## `handleSubscriptionsClose` -/

inductive SubscriptionsCloseStart where
  | responded (response : Json)
  | close (requestId : Json) (id : SubscriptionId) (subscription : ℕ)

/-- The `catch` block, which formats the id once more. -/
def closeFailed (host : Host) (requestId : Json) (id : SubscriptionId) (error : ServerThrown) :
    Eval Json := do
  let text ← id.value.toText
  match error with
  | .server .connectionSubscriptionJsonRpcIdNotFound _ =>
    return createJsonRpcErrorResponse requestId .invalidParams
      (js "subscription " ++ text ++ js " does not exist.")
  | _ =>
    return createJsonRpcErrorResponse requestId .internalError
      (js "unknown subscription close error for " ++ text ++ js ": " ++
        error.message host.engineText)

/-- `request` is the number of the request, which its own references carry. -/
def handleSubscriptionsClose (host : Host) (request : ℕ) (jsonRpcRequest : Json)
    (socketConnection : Option SocketConnection) : Eval SubscriptionsCloseStart := do
  let requestId := requestId host jsonRpcRequest
  match socketConnection, jsonRpcRequest.own (js "subscription") with
  | none, _ =>
    return .responded (createJsonRpcErrorResponse requestId .invalidRequest
      (js "socket connection does not exist"))
  | some _, none =>
    return .responded (createJsonRpcErrorResponse requestId .invalidRequest
      (js "subscribe options do not exist"))
  | some c, some subscription =>
    let id := SubscriptionId.of request (← JsValue.read (some subscription) "id")
    match c.closeSubscription id with
    | .ok closed => return .close requestId id closed
    | .error error => return .responded (← closeFailed host requestId id error)

/-- `createJsonRpcSuccessResponse(requestId, …)` once the subscription is closed. -/
def closedResponse (requestId : Json) : Json :=
  createJsonRpcSuccessResponse requestId (some (.object [(js "reply", .object
    [(js "status", .number (.ofInt 200)), (js "detail", .string (js "Accepted"))])]))

/-- The rest of the handler, from the outcome of the `close` function on. -/
def finishSubscriptionsClose (host : Host) (requestId : Json) (id : SubscriptionId)
    (socketConnection : SocketConnection) (outcome : Except JsString Unit) :
    Eval Json × SocketConnection :=
  match outcome with
  | .ok _ => (.ok (closedResponse requestId), socketConnection.deleteSubscription id)
  | .error message => (closeFailed host requestId id (.foreign message), socketConnection)

/-! ## What the handlers do to the connection -/

theorem handleSubscriptionsClose_close {host : Host} {request : ℕ} {jsonRpcRequest id' : Json}
    {c : SocketConnection} {id : SubscriptionId} {subscription : ℕ}
    (h : handleSubscriptionsClose host request jsonRpcRequest (some c) =
      .ok (.close id' id subscription)) :
    c.closeSubscription id = .ok subscription := by
  simp only [handleSubscriptionsClose] at h
  cases hs : jsonRpcRequest.own (js "subscription") with
  | none => simp [hs, pure, Except.pure] at h
  | some v =>
    simp only [hs] at h
    cases hread : JsValue.read (C := DwnServerErrorCode) (some v) "id" with
    | error e => simp [hread, bind, Except.bind] at h
    | ok vid =>
      simp only [hread, bind, Except.bind, pure, Except.pure] at h
      cases hclose : c.closeSubscription (.of request vid) with
      | ok closed =>
        rw [hclose] at h
        cases h
        exact hclose
      | error e =>
        rw [hclose] at h
        cases hf : closeFailed host (requestId host jsonRpcRequest) (.of request vid) e <;>
          simp [hf] at h

/-- The id of the subscription that a reply opens. -/
def openedSubscription (context : RequestContext) : DwnOutcome → Option SubscriptionId
  | .ok reply => if reply.subscription then context.subscriptionRequest else none
  | .error _ => none

theorem mem_of_openedSubscription {context : RequestContext} {outcome : DwnOutcome}
    {id : SubscriptionId} (h : openedSubscription context outcome = some id) :
    id ∈ context.subscriptionRequest := by
  cases outcome with
  | error message => cases h
  | ok reply =>
    simp only [openedSubscription] at h
    split_ifs at h
    exact h

/-- A free id can be claimed. -/
theorem claimSubscription_of_free {context : RequestContext} {c : SocketConnection}
    (h : ∀ id ∈ context.subscriptionRequest, c.hasSubscription id = false) (subscription : ℕ)
    (reply : DwnReply) :
    ∃ c', claimSubscription context (some c) subscription reply = .ok c' := by
  unfold claimSubscription
  cases hid : context.subscriptionRequest with
  | none => exact ⟨_, rfl⟩
  | some id =>
    dsimp only
    split_ifs
    · exact ⟨_, by rw [SocketConnection.addSubscription_of_absent (h id hid)]; rfl⟩
    · exact ⟨_, rfl⟩

/-- The end of `handleDwnProcessMessage` claims the id of an opened subscription, when it
is free, and leaves the connection as it is otherwise. -/
theorem finishProcessMessage_subscriptions (host : Host) (requestId : Json)
    (context : RequestContext) (c : SocketConnection) (subscription : ℕ) (outcome : DwnOutcome) :
    (((finishProcessMessage host requestId context (some c) subscription outcome).2).getD
        c).subscriptions =
      match openedSubscription context outcome with
      | none => c.subscriptions
      | some id =>
        if c.subscriptions.has id.key then c.subscriptions
        else c.subscriptions.set id.key subscription := by
  cases outcome with
  | error message => rfl
  | ok reply =>
    cases hid : context.subscriptionRequest with
    | none => simp [finishProcessMessage, claimSubscription, openedSubscription, hid]
    | some id =>
      cases hopened : reply.subscription with
      | false => simp [finishProcessMessage, claimSubscription, openedSubscription, hid, hopened]
      | true =>
        cases hhas : c.hasSubscription id with
        | false =>
          have hfree : c.subscriptions.has id.key = false := hhas
          simp [finishProcessMessage, claimSubscription, openedSubscription, hid, hopened, hfree,
            SocketConnection.addSubscription_of_absent hhas, Except.map]
        | true =>
          have htaken : c.subscriptions.has id.key = true := hhas
          obtain ⟨e, he⟩ := SocketConnection.addSubscription_of_present hhas subscription
          simp [finishProcessMessage, claimSubscription, openedSubscription, hid, hopened, htaken,
            he, Except.map]

theorem finishSubscriptionsClose_subscriptions (host : Host) (requestId : Json)
    (id : SubscriptionId) (c : SocketConnection) (outcome : Except JsString Unit) :
    (finishSubscriptionsClose host requestId id c outcome).2.subscriptions =
      if outcome.isOk then c.subscriptions.delete id.key else c.subscriptions := by
  cases outcome <;> rfl

/-! ## What the handlers answer -/

/-- The guards answer with an error, or let the message through to the DWN. -/
theorem guardedProcessMessage_ok {requestId : Json} {context : RequestContext}
    {c : Option SocketConnection} {target message : JsValue} {start : ProcessMessageStart}
    (h : guardedProcessMessage requestId context c target message = .ok start) :
    (∃ code text, start = .responded (createJsonRpcErrorResponse requestId code text)) ∨
      (message.readOptional "descriptor").isNullish = false ∧
      start = .processMessage requestId
        ⟨target, message, context.dataStream, context.subscriptionRequest⟩ := by
  by_cases hmessage : message.isNullish = true
  · simp [guardedProcessMessage, JsValue.read_eq, hmessage, bind, Except.bind] at h
  by_cases hdescriptor : (message.readOptional "descriptor").isNullish = true
  · simp [guardedProcessMessage, JsValue.read_eq, hmessage, hdescriptor, bind, Except.bind] at h
  have refused : ∀ {code : JsonRpcErrorCodes} {text : JsString},
      Except.ok (ε := ServerThrown) (.responded (createJsonRpcErrorResponse requestId code text)) =
        .ok start →
      ∃ code text, start = .responded (createJsonRpcErrorResponse requestId code text) :=
    fun heq => ⟨_, _, (Except.ok.inj heq).symm⟩
  simp [guardedProcessMessage, JsValue.read_eq, hmessage, hdescriptor, bind, Except.bind, pure,
    Except.pure] at h
  have hthrough : (message.readOptional "descriptor").isNullish = false := by
    simpa using hdescriptor
  -- whichever guard answers, it does so with an error
  repeat' split at h
  all_goals first
    | exact Or.inl (refused h)
    | exact Or.inr ⟨hthrough, (Except.ok.inj h).symm⟩
    | cases h

/-- Over HTTP there is no subscription request, so the guards depend on the message alone. -/
theorem guardedProcessMessage_http {requestId : Json} {dataStream : Bool}
    {c : Option SocketConnection} {target message : JsValue} :
    guardedProcessMessage requestId ⟨.http, dataStream, none⟩ c target message =
      if (message.readOptional "descriptor").isNullish then .error .engine
      else if
          ((message.readOptional "descriptor").readOptional "method").isText (js "Subscribe") then
        .ok (.responded (createJsonRpcErrorResponse requestId .invalidRequest
          (js "subscribe methods must contain a subscriptionRequest context")))
      else .ok (.processMessage requestId ⟨target, message, dataStream, none⟩) := by
  by_cases hmessage : message.isNullish = true
  · have hnull : (message.readOptional "descriptor").isNullish = true := by
      rcases message with _ | ⟨_ | _ | _ | _ | _ | _⟩ <;> first | rfl | cases hmessage
    simp [guardedProcessMessage, JsValue.read_eq, hmessage, hnull, bind, Except.bind]
  by_cases hdescriptor : (message.readOptional "descriptor").isNullish = true
  · simp [guardedProcessMessage, JsValue.read_eq, hmessage, hdescriptor, bind, Except.bind]
  · simp [guardedProcessMessage, JsValue.read_eq, hmessage, hdescriptor, bind, Except.bind, pure,
      Except.pure]

/-- Over a WebSocket the guards look at the message, the subscription request and the ids that
the connection holds. -/
theorem guardedProcessMessage_ws {requestId : Json} {dataStream : Bool}
    {subscription : Option SubscriptionId} {c : SocketConnection} {target message : JsValue}
    (h : (message.readOptional "descriptor").isNullish = false) :
    guardedProcessMessage requestId ⟨.ws, dataStream, subscription⟩ (some c) target message =
      let descriptor := message.readOptional "descriptor"
      if (descriptor.readOptional "interface").isText (js "Records") &&
          (descriptor.readOptional "method").isText (js "Write") then
        .ok (.responded (createJsonRpcErrorResponse requestId .invalidParams
          (js "RecordsWrite is not supported via ws")))
      else if (descriptor.readOptional "method").isText (js "Subscribe") && subscription.isNone then
        .ok (.responded (createJsonRpcErrorResponse requestId .invalidRequest
          (js "subscribe methods must contain a subscriptionRequest context")))
      else match subscription.filter c.hasSubscription with
        | some id => id.value.toText.map fun text =>
          .responded (createJsonRpcErrorResponse requestId .invalidParams
            (js "the subscribe id: " ++ text ++ js " is in use by an active subscription"))
        | none => .ok (.processMessage requestId ⟨target, message, dataStream, subscription⟩) := by
  have hmessage := JsValue.isNullish_of_readOptional h
  have htext : js "RecordsWrite is not supported via " ++ Transport.ws.text =
      js "RecordsWrite is not supported via ws" := by decide
  by_cases hwrite : (((message.readOptional "descriptor").readOptional "interface").isText
      (js "Records") && ((message.readOptional "descriptor").readOptional "method").isText
        (js "Write")) = true
  · simp [guardedProcessMessage, JsValue.read_eq, hmessage, h, bind, Except.bind, pure,
      Except.pure, hwrite, htext]
  cases subscription with
  | none =>
    simp [guardedProcessMessage, JsValue.read_eq, hmessage, h, bind, Except.bind, pure,
      Except.pure, hwrite]
  | some id =>
    by_cases hheld : c.hasSubscription id = true
    · cases htext : id.value.toText (C := DwnServerErrorCode) <;>
        simp [guardedProcessMessage, JsValue.read_eq, hmessage, h, bind, Except.bind, pure,
          Except.pure, hwrite, Option.filter, hheld, htext, Except.map]
    · simp [guardedProcessMessage, JsValue.read_eq, hmessage, h, bind, Except.bind, pure,
        Except.pure, hwrite, Option.filter, hheld]

theorem handleDwnProcessMessage_eq (host : Host) (request : Json) (context : RequestContext)
    (c : Option SocketConnection) :
    handleDwnProcessMessage host request context c =
      let params := request.own (js "params")
      if params.isNullish then .error .engine
      else match guardedProcessMessage (requestId host request) context c
          (params.readOptional "target") (params.readOptional "message") with
        | .ok start => .ok start
        | .error error => .ok (.responded (internalError host (requestId host request) error)) := by
  by_cases hparams : (request.own (js "params")).isNullish = true <;>
    simp [handleDwnProcessMessage, JsValue.read_eq, hparams, bind, Except.bind]
  rfl

theorem finishProcessMessage_response (host : Host) (requestId : Json) (context : RequestContext)
    (c : Option SocketConnection) (subscription : ℕ) (outcome : DwnOutcome) :
    (∃ text, (finishProcessMessage host requestId context c subscription outcome).1 =
        respond (createJsonRpcErrorResponse requestId .internalError text)) ∨
      ∃ reply, outcome = .ok reply ∧
        (finishProcessMessage host requestId context c subscription outcome).1 =
          ⟨some (processedResponse requestId reply),
            if reply.entryData then .stream else .absent⟩ := by
  cases outcome with
  | error message => exact Or.inl ⟨_, rfl⟩
  | ok reply =>
    cases hclaim : claimSubscription context c subscription reply with
    | error e => exact Or.inl ⟨_, by simp only [finishProcessMessage, hclaim]; rfl⟩
    | ok c' => exact Or.inr ⟨reply, rfl, by simp only [finishProcessMessage, hclaim]⟩

theorem closeFailed_of_hasText {id : SubscriptionId} (hid : id.value.HasText) (host : Host)
    (requestId : Json) (error : ServerThrown) :
    ∃ code text, closeFailed host requestId id error =
      .ok (createJsonRpcErrorResponse requestId code text) := by
  obtain ⟨text, htext⟩ := hid
  simp only [closeFailed, htext, bind, Except.bind]
  split <;> exact ⟨_, _, rfl⟩

theorem closeFailed_of_not_hasText {id : SubscriptionId} (hid : ¬id.value.HasText) (host : Host)
    (requestId : Json) (error : ServerThrown) :
    ∃ e, closeFailed host requestId id error = .error e := by
  cases htext : id.value.toText (C := DwnServerErrorCode) with
  | ok text => exact absurd ⟨text, htext⟩ hid
  | error e => exact ⟨e, by simp [closeFailed, htext, bind, Except.bind]⟩

theorem handleSubscriptionsClose_eq (host : Host) (request : ℕ) (jsonRpcRequest : Json)
    (c : SocketConnection) :
    handleSubscriptionsClose host request jsonRpcRequest (some c) =
      match jsonRpcRequest.own (js "subscription") with
      | none => .ok (.responded (createJsonRpcErrorResponse (requestId host jsonRpcRequest)
          .invalidRequest (js "subscribe options do not exist")))
      | some subscription =>
        if subscription = .null then .error .engine
        else
          let id := SubscriptionId.of request (subscription.own (js "id"))
          match c.closeSubscription id with
          | .ok closed => .ok (.close (requestId host jsonRpcRequest) id closed)
          | .error error =>
            (closeFailed host (requestId host jsonRpcRequest) id error).map .responded := by
  unfold handleSubscriptionsClose
  rcases jsonRpcRequest.own (js "subscription") with _ | ⟨_ | _ | _ | _ | _ | _⟩
  case none => rfl
  case some.null => rfl
  all_goals
    simp only [JsValue.read, bind, Except.bind, pure, Except.pure]
    rw [if_neg (by simp)]
    split
    · rfl
    · cases closeFailed host (requestId host jsonRpcRequest) _ _ <;> rfl

/-! ## Counting the answer -/

/-- `requestCounter.inc`: the label values are converted to text. -/
def inc : List JsValue → Eval Unit
  | [] => .ok ()
  | label :: labels => do
    let _ ← label.toText
    inc labels

/-- What both transports do with the JSON-RPC response before they send it: they test it
for an error and count the request. -/
def countRequest (jsonRequest : Json) (jsonRpcResponse : JsValue) : Eval Bool := do
  let method := jsonRequest.own (js "method")
  if (← jsonRpcResponse.read "error").truthy then
    inc [method, some (.number (.ofInt 1))]
    return true
  else
    let code := (((jsonRpcResponse.readOptional "result").readOptional "reply").readOptional
      "status").readOptional "code"
    inc [method, if code.truthy then code else some (.number (.ofInt 0))]
    return false

theorem inc_eq_ok {labels : List JsValue} : inc labels = .ok () ↔ ∀ l ∈ labels, l.HasText := by
  induction labels with
  | nil => simp [inc]
  | cons label labels ih =>
    cases h : label.toText (C := DwnServerErrorCode) <;>
      simp [inc, JsValue.HasText, h, bind, Except.bind, ih]

theorem hasText_number (n : JsNumber) : JsValue.HasText (some (.number n)) := ⟨_, rfl⟩

section Counting

variable {request : Json}

theorem inc_number (hmethod : JsValue.HasText (request.own (js "method"))) (n : JsNumber) :
    inc [request.own (js "method"), some (.number n)] = .ok () := by
  refine inc_eq_ok.mpr fun l hl => ?_
  rcases List.mem_pair.mp hl with rfl | rfl
  · exact hmethod
  · exact hasText_number n

/-- The test and the counter do not throw on a response with a truthy error. -/
theorem countRequest_of_error (hmethod : JsValue.HasText (request.own (js "method")))
    {response error : Json} (herror : response.own (js "error") = some error)
    (htruthy : error.truthy = true) : countRequest request (some response) = .ok true := by
  have hread : JsValue.read (C := DwnServerErrorCode) (some response) "error" =
      .ok (some error) := by
    simp [JsValue.read_eq, JsValue.isNullish_of_own herror, JsValue.readOptional, herror]
  simp only [countRequest, hread, bind, Except.bind]
  rw [if_pos (by simpa [JsValue.truthy] using htruthy), inc_number hmethod]
  rfl

theorem countRequest_error (hmethod : JsValue.HasText (request.own (js "method"))) (id : JsValue)
    (code : JsonRpcErrorCodes) (message : JsString) :
    countRequest request (some (createJsonRpcErrorResponse id code message)) = .ok true :=
  countRequest_of_error hmethod (own_error_error id code message) rfl

/-- Nor do they on a success response whose result has a number for its status, if any. -/
theorem countRequest_success (hmethod : JsValue.HasText (request.own (js "method"))) (id : JsValue)
    {members : List (JsString × Json)} {code : JsValue}
    (hcode : ((JsValue.readOptional (Json.member members (js "reply")) "status").readOptional
      "code") = code) (hnumber : code = none ∨ ∃ n, code = some (.number n)) :
    countRequest request (some (createJsonRpcSuccessResponse id (some (.object members)))) =
      .ok false := by
  have hread : JsValue.read (C := DwnServerErrorCode)
      (some (createJsonRpcSuccessResponse id (some (.object members)))) "error" = .ok none := by
    rw [← own_error_success id (some (.object members))]
    rfl
  have hresult : (((JsValue.readOptional
      (some (createJsonRpcSuccessResponse id (some (.object members)))) "result").readOptional
        "reply").readOptional "status").readOptional "code" = code := by
    rw [← hcode]
    cases id <;> rfl
  have hlabel : ∃ n, (if code.truthy then code else some (.number (.ofInt 0))) =
      some (.number n) := by
    rcases hnumber with rfl | ⟨n, rfl⟩
    · exact ⟨_, rfl⟩
    · split_ifs
      · exact ⟨n, rfl⟩
      · exact ⟨_, rfl⟩
  obtain ⟨n, hn⟩ := hlabel
  simp only [countRequest, hread, bind, Except.bind, hresult, hn]
  rw [if_neg (by simp [JsValue.truthy]), inc_number hmethod]
  rfl

theorem countRequest_processed (hmethod : JsValue.HasText (request.own (js "method")))
    (requestId : Json) (reply : DwnReply) :
    countRequest request (some (processedResponse requestId reply)) = .ok false :=
  countRequest_success hmethod _ rfl (Or.inr ⟨reply.statusCode, rfl⟩)

theorem countRequest_closed (hmethod : JsValue.HasText (request.own (js "method")))
    (requestId : Json) : countRequest request (some (closedResponse requestId)) = .ok false :=
  countRequest_success hmethod _ rfl (Or.inl rfl)

end Counting

end DwnServer
