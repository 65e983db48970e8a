import DwnServer.Js.JsonText
import DwnServer.JsonRpc.Handlers

/-!
# What an answer to a request has to be

A text that is sent as a request is answered when the client reads exactly one JSON-RPC
response, which bears the request's id and is an error for a request no handler can take.
The lemmas say when that is so of the responses the server makes itself, and of the one
an inherited `constructor` makes it echo.
-/
namespace DwnServer

def processMethods : List JsString :=
  [js "dwn.processMessage", js "rpc.subscribe.dwn.processMessage"]

def closeMethod : JsString := js "rpc.subscribe.close"

/-- The id that a request carries, unless it is `null`. -/
def ownId? (request : Json) : Option Json :=
  match request.own (js "id") with
  | none | some .null => none
  | some id => some id

/-- The request's method is one of the names. -/
def MethodIn (names : List JsString) (request : Json) : Prop :=
  ∃ name ∈ names, (request.own (js "method")).toText (C := DwnServerErrorCode) = .ok name

/-- The descriptor of the message in a request's params. -/
def messageDescriptor (request : Json) : JsValue :=
  ((request.own (js "params")).readOptional "message").readOptional "descriptor"

/-- A request that is no object, whose method nobody registered, or which has no params, no
message or no descriptor where its handler takes a message. -/
def Malformed (request : Json) : Prop :=
  request.isObject = false ∨ ¬MethodIn (closeMethod :: processMethods) request ∨
    MethodIn processMethods request ∧ (messageDescriptor request).isNullish = true

/-- The responses, as the client reads them, answer the text of a request. -/
def Answered (data : JsString) (responses : List Json) : Prop :=
  ∃ r, responses.map Json.serialised = [r] ∧ IsJsonRpcResponse r ∧
    ∀ request, Json.parse data = some request →
      (∀ id, ownId? request = some id → r.own (js "id") = some id) ∧
      (Malformed request → IsJsonRpcError r)

/-- The id of the request survives the way to the client. -/
def IdSerialises (request : Json) : Prop := ∀ id, ownId? request = some id → id.serialised = id

/-- The error response that a request for `constructor` carries along, and gets back. -/
def EchoesError (request : Json) : Prop :=
  ∃ r, request.own (js "jsonRpcResponse") = some r ∧ IsJsonRpcError r.serialised ∧
    ∀ id, ownId? request = some id → r.serialised.own (js "id") = some id

/-- The name of the method decides the handler. -/
theorem route_of_method {request : Json} {method : JsString}
    (hnull : JsValue.isNullish (some request) = false)
    (h : (request.own (js "method")).toText (C := DwnServerErrorCode) = .ok method) :
    jsonRpcRouter.route request =
      if method = closeMethod then .ok (.inl .handleSubscriptionsClose)
      else if method ∈ processMethods then .ok (.inl .handleDwnProcessMessage)
      else if method ∈ objectPrototypeFunctions then (callInherited method request).map .inr
      else .error .engine := by
  have hmem : method ∈ processMethods ↔
      method = js "rpc.subscribe.dwn.processMessage" ∨ method = js "dwn.processMessage" := by
    simp [processMethods, or_comm]
  have hread : JsValue.read (C := DwnServerErrorCode) (some request) "method" =
      .ok (request.own (js "method")) := by
    simp [JsValue.read_eq, hnull, JsValue.readOptional]
  simp only [JsonRpcRouter.route, hread, h, bind, Except.bind, lookup_jsonRpcRouter, hmem,
    closeMethod]
  split_ifs
  · rfl
  · rfl
  · dsimp only
    cases callInherited method request <;> rfl
  · rfl

section Method

variable {request : Json} {method : JsString} {names : List JsString}
  (h : (request.own (js "method")).toText (C := DwnServerErrorCode) = .ok method)

include h

theorem methodIn_iff : MethodIn names request ↔ method ∈ names := by
  simp [MethodIn, h]

/-- Only an object has a method other than `undefined`. -/
theorem isObject_of_method (hmethod : method ≠ js "undefined") : request.isObject = true := by
  cases request with
  | object members => rfl
  | _ => exact absurd (Except.ok.inj h).symm hmethod

theorem isNullish_of_method (hmethod : method ≠ js "undefined") :
    JsValue.isNullish (some request) = false := by
  cases request with
  | null => exact absurd (Except.ok.inj h).symm hmethod
  | _ => rfl

theorem not_malformed_process (hmethod : method ∈ processMethods)
    (hdescriptor : (messageDescriptor request).isNullish = false) : ¬Malformed request := by
  have hobject : request.isObject = true := by
    refine isObject_of_method h ?_
    rintro rfl
    revert hmethod
    decide
  simp [Malformed, hobject, methodIn_iff h, hmethod, hdescriptor]

theorem not_malformed_close (hmethod : method = closeMethod) : ¬Malformed request := by
  subst hmethod
  have hobject := isObject_of_method h (by decide)
  have hprocess : closeMethod ∉ processMethods := by decide
  simp [Malformed, hobject, methodIn_iff h, hprocess]

end Method

theorem requestId_of_ownId {request id : Json} (h : ownId? request = some id) (host : Host) :
    requestId host request = id := by
  unfold ownId? at h
  unfold requestId
  split at h <;> simp_all

theorem not_answered_nil (data : JsString) : ¬Answered data [] := by
  rintro ⟨r, hr, -⟩
  cases hr

/-- What is no JSON text has no id to return. -/
theorem answered_of_unparsed {data : JsString} (h : Json.parse data = none) (id : Json)
    (code : JsonRpcErrorCodes) (text : JsString) :
    Answered data [createJsonRpcErrorResponse (some id) code text] :=
  ⟨_, rfl, (isJsonRpcError_serialised id code text).1, by simp [h]⟩

theorem answered_singleton {data : JsString} {request response : Json}
    (hparse : Json.parse data = some request) :
    Answered data [response] ↔ IsJsonRpcResponse response.serialised ∧
      (∀ id, ownId? request = some id → response.serialised.own (js "id") = some id) ∧
      (Malformed request → IsJsonRpcError response.serialised) := by
  constructor
  · rintro ⟨r, hr, hresponse, hanswer⟩
    obtain rfl : response.serialised = r := by simpa using hr
    exact ⟨hresponse, hanswer request hparse⟩
  · rintro ⟨hresponse, hanswer⟩
    refine ⟨_, rfl, hresponse, fun request' hparse' => ?_⟩
    obtain rfl := Option.some.inj (hparse.symm.trans hparse')
    exact hanswer

/-- The ids agree on the client's side exactly if the id serialises. -/
theorem own_id_iff {request response : Json} {host : Host}
    (h : response.own (js "id") = some (requestId host request)) :
    (∀ id, ownId? request = some id → response.serialised.own (js "id") = some id) ↔
      IdSerialises request := by
  refine forall_congr' fun id => forall_congr' fun hid => ?_
  rw [Json.own_serialised, h, requestId_of_ownId hid]
  simp

theorem answered_error {data : JsString} {request : Json} (hparse : Json.parse data = some request)
    (host : Host) (code : JsonRpcErrorCodes) (text : JsString) :
    Answered data [createJsonRpcErrorResponse (requestId host request) code text] ↔
      IdSerialises request := by
  have herror := isJsonRpcError_serialised (requestId host request) code text
  rw [answered_singleton hparse, own_id_iff (own_id_error _ code text)]
  exact ⟨fun h => h.2.1, fun h => ⟨herror.1, h, fun _ => herror⟩⟩

theorem answered_success {data : JsString} {request : Json}
    (hparse : Json.parse data = some request) (hwell : ¬Malformed request) (host : Host)
    (result : JsValue) :
    Answered data [createJsonRpcSuccessResponse (requestId host request) result] ↔
      IdSerialises request := by
  rw [answered_singleton hparse, own_id_iff (own_id_success _ result)]
  exact ⟨fun h => h.2.1, fun h =>
    ⟨isJsonRpcResponse_serialised _ result, h, fun hmalformed => absurd hmalformed hwell⟩⟩

/-- An echoed response answers the request, which nobody registered, only as an error. -/
theorem answered_echo {data : JsString} {request response : Json}
    (hparse : Json.parse data = some request) (hmalformed : Malformed request)
    (h : request.own (js "jsonRpcResponse") = some response) :
    Answered data [response] ↔ EchoesError request := by
  rw [answered_singleton hparse]
  constructor
  · rintro ⟨-, hid, herror⟩
    exact ⟨response, h, herror hmalformed, hid⟩
  · rintro ⟨r, hr, herror, hid⟩
    obtain rfl := Option.some.inj (h.symm.trans hr)
    exact ⟨herror.1, hid, fun _ => herror⟩

/-- An echoed error is tested and counted without an exception. -/
theorem countRequest_echo {request response : Json}
    (hmethod : JsValue.HasText (request.own (js "method")))
    (herror : IsJsonRpcError response.serialised) :
    countRequest request (some response) = .ok true := by
  obtain ⟨e, he⟩ := Option.isSome_iff_exists.mp herror.2
  obtain ⟨⟨n, hn⟩, -⟩ := herror.1.error e he
  rw [Json.own_serialised] at he
  obtain ⟨e', he', rfl⟩ := Option.map_eq_some_iff.mp he
  refine countRequest_of_error hmethod he' ?_
  rw [Json.own_serialised] at hn
  cases e' <;> first | rfl | cases hn

/-! ## The close handler -/

/-- The id of the subscription to close, if there is any, can be read and formatted. -/
def CloseReadable (request : Json) : Prop :=
  ∀ subscription, request.own (js "subscription") = some subscription →
    subscription ≠ .null ∧ JsValue.HasText (subscription.own (js "id"))

/-- The close handler answers with an error, finds a subscription to close, or throws because
it cannot read or format an id. -/
theorem handleSubscriptionsClose_outcome (host : Host) (i : ℕ) (request : Json)
    (c : SocketConnection) :
    (∃ code text, handleSubscriptionsClose host i request (some c) =
        .ok (.responded (createJsonRpcErrorResponse (requestId host request) code text)) ∧
        CloseReadable request) ∨
      (∃ v subscription, handleSubscriptionsClose host i request (some c) =
        .ok (.close (requestId host request) (.of i v) subscription) ∧
        c.subscriptions.get? (SubscriptionId.of i v).key = some subscription ∧
        (v.HasText → CloseReadable request)) ∨
      ∃ e, handleSubscriptionsClose host i request (some c) = .error e ∧
        ¬CloseReadable request := by
  rw [handleSubscriptionsClose_eq]
  cases hown : request.own (js "subscription") with
  | none => exact Or.inl ⟨_, _, rfl, by simp [CloseReadable, hown]⟩
  | some subscription =>
    by_cases hnull : subscription = .null
    · subst hnull
      exact Or.inr (Or.inr ⟨_, rfl, by simp [CloseReadable, hown]⟩)
    have hreadable : CloseReadable request ↔ JsValue.HasText (subscription.own (js "id")) := by
      simp [CloseReadable, hown, hnull]
    dsimp only
    rw [if_neg hnull, hreadable]
    cases hclosed : c.closeSubscription (.of i (subscription.own (js "id"))) with
    | ok closed =>
      exact Or.inr (Or.inl ⟨_, closed, rfl, SocketConnection.closeSubscription_eq_ok.mp hclosed,
        fun hid => hid⟩)
    | error e =>
      dsimp only
      by_cases hid : JsValue.HasText (subscription.own (js "id"))
      · have hvalue : (SubscriptionId.of i (subscription.own (js "id"))).value.HasText := hid
        obtain ⟨code, text, hfailed⟩ :=
          closeFailed_of_hasText hvalue host (requestId host request) e
        exact Or.inl ⟨code, text, by rw [hfailed]; rfl, hid⟩
      · have hvalue : ¬(SubscriptionId.of i (subscription.own (js "id"))).value.HasText := hid
        obtain ⟨e', hfailed⟩ := closeFailed_of_not_hasText hvalue host (requestId host request) e
        exact Or.inr (Or.inr ⟨e', by rw [hfailed]; rfl, hid⟩)

end DwnServer
