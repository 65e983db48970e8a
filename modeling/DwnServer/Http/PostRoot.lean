import DwnServer.JsonRpc.Answers

/-!
# `POST /`

The route that takes a JSON-RPC request in the `dwn-request` header. A request over HTTP
has no connection and shares nothing with other requests but the DWN, so the route is a
function of the headers and of what the DWN replies to the one call it may make. An
exception in the route sends nothing.
-/
namespace DwnServer

/-- The headers that the route reads; Node accepts only digits for a content length. -/
structure PostHeaders where
  dwnRequest : Option JsString
  contentLength : Option ℕ
  transferEncoding : Bool

/-- A JSON body with its status, or the record's data under a `dwn-response` header. -/
inductive HttpResponse where
  | json (status : ℕ) (body : Json)
  | dataStream (dwnResponse : Json)

/-- What `setHeader` accepts in a value. -/
def isHeaderUnit (u : UInt16) : Bool :=
  u = unit '\t' || (0x20 ≤ u.toNat && u.toNat ≤ 0xff && u.toNat ≠ 0x7f)

def isHeaderValue (text : JsString) : Bool := text.all isHeaderUnit

/-- The request body is a data stream. -/
def PostHeaders.dataStream (headers : PostHeaders) : Bool :=
  headers.contentLength.any (0 < ·) || headers.transferEncoding

/-- `jsonRpcRouter.handle` for a request without a connection. -/
def handleHttp (host : Host) (request : Json) (context : RequestContext)
    (dwn : DwnCall → DwnOutcome) : Eval HandlerResponse := do
  match ← jsonRpcRouter.route request with
  | .inr response => return response
  | .inl .handleDwnProcessMessage =>
    match ← handleDwnProcessMessage host request context none with
    | .responded response => return respond response
    | .processMessage requestId call =>
      return (finishProcessMessage host requestId context none 0 (dwn call)).1
  | .inl .handleSubscriptionsClose =>
    match ← handleSubscriptionsClose host 0 request none with
    | .responded response => return respond response
    | .close _ _ _ => .error .engine

/-- The route once a response is there. A value that is no stream has no `pipe`. -/
def sendHttp (request : Json) (response : HandlerResponse) : Eval HttpResponse := do
  let isError ← countRequest request response.jsonRpcResponse
  match response.jsonRpcResponse, isError, response.dataStream with
  | none, _, _ => .error .engine
  | some jsonRpcResponse, true, _ => return .json 500 jsonRpcResponse
  | some jsonRpcResponse, false, .absent => return .json 200 jsonRpcResponse
  | some jsonRpcResponse, false, .stream =>
    if isHeaderValue jsonRpcResponse.stringify then return .dataStream jsonRpcResponse
    else .error .engine
  | some jsonRpcResponse, false, .plain value =>
    if value.truthy then .error .engine else return .json 200 jsonRpcResponse

def post (host : Host) (headers : PostHeaders) (dwn : DwnCall → DwnOutcome) :
    Eval HttpResponse :=
  let dwnRpcRequestString := headers.dwnRequest.getD []
  let badRequest (text : JsString) : HttpResponse :=
    .json 400 (createJsonRpcErrorResponse (some (.string host.uuid)) .badRequest text)
  if dwnRpcRequestString = [] then .ok (badRequest (js "request payload required."))
  else
    match Json.parse dwnRpcRequestString with
    | none => .ok (badRequest host.engineText)
    | some request => do
      let response ← handleHttp host request ⟨.http, headers.dataStream, none⟩ dwn
      sendHttp request response

/-- The JSON-RPC responses that the client receives. -/
def httpResponses : Eval HttpResponse → List Json
  | .ok (.json _ body) => [body]
  | .ok (.dataStream dwnResponse) => [dwnResponse]
  | .error _ => []

/-! ## Which headers are answered -/

/-- The call of the DWN that a request makes, when the guards let it through. -/
def httpCall (headers : PostHeaders) (request : Json) : DwnCall :=
  let params := request.own (js "params")
  ⟨params.readOptional "target", params.readOptional "message", headers.dataStream, none⟩

/-- A reply with a data stream, and the id it goes with, fit into a header as JSON text. -/
def FitsHeader (host : Host) (headers : PostHeaders) (dwn : DwnCall → DwnOutcome)
    (request : Json) : Prop :=
  (messageDescriptor request).isNullish = false →
    ((messageDescriptor request).readOptional "method").isText (js "Subscribe") = false →
    ∀ reply, dwn (httpCall headers request) = .ok reply → reply.entryData = true →
      isHeaderValue (requestId host request).stringify = true ∧
        isHeaderValue reply.toJson.stringify = true

/-- The requests that are answered over HTTP. -/
def HttpAnswers (host : Host) (headers : PostHeaders) (dwn : DwnCall → DwnOutcome)
    (request : Json) : Prop :=
  ∃ method, (request.own (js "method")).toText (C := DwnServerErrorCode) = .ok method ∧
    (method ∈ processMethods ∧ (request.own (js "params")).isNullish = false ∧
        IdSerialises request ∧ FitsHeader host headers dwn request ∨
      method = closeMethod ∧ IdSerialises request ∨
      method = js "constructor" ∧ EchoesError request)

def HttpAnswerable (host : Host) (headers : PostHeaders) (dwn : DwnCall → DwnOutcome) : Prop :=
  ∀ request, Json.parse (headers.dwnRequest.getD []) = some request →
    HttpAnswers host headers dwn request

theorem isHeaderValue_append (s t : JsString) :
    isHeaderValue (s ++ t) = (isHeaderValue s && isHeaderValue t) := List.all_append

/-- The rest of a response's text is ASCII. -/
theorem isHeaderValue_processedResponse (id : Json) (reply : DwnReply) :
    isHeaderValue (processedResponse id reply).stringify = true ↔
      isHeaderValue id.stringify = true ∧ isHeaderValue reply.toJson.stringify = true := by
  have hmembers : processedResponse id reply = .object
      [(js "jsonrpc", .string (js "2.0")), (js "id", id),
        (js "result", .object [(js "reply", reply.toJson)])] := rfl
  have hascii : ∀ text ∈ [[Json.openBrace], [Json.closeBrace], js ":", js ",",
      Json.quote (js "jsonrpc"), Json.quote (js "2.0"), Json.quote (js "id"),
      Json.quote (js "result"), Json.quote (js "reply")], isHeaderValue text = true := by decide
  simp only [List.forall_mem_cons] at hascii
  simp only [hmembers, Json.stringify, Json.stringify.membersText, isHeaderValue_append, hascii,
    Bool.true_and, Bool.and_true, Bool.and_eq_true]

/-! ## The handlers without a connection -/

variable {host : Host} {headers : PostHeaders} {dwn : DwnCall → DwnOutcome} {request : Json}
  {method : JsString}

theorem httpAnswers_iff
    (h : (request.own (js "method")).toText (C := DwnServerErrorCode) = .ok method) :
    HttpAnswers host headers dwn request ↔
      method ∈ processMethods ∧ (request.own (js "params")).isNullish = false ∧
          IdSerialises request ∧ FitsHeader host headers dwn request ∨
        method = closeMethod ∧ IdSerialises request ∨
        method = js "constructor" ∧ EchoesError request := by
  simp [HttpAnswers, h]

/-- What `jsonRpcRouter.handle` does for the route. -/
abbrev handlePost (host : Host) (headers : PostHeaders) (request : Json)
    (dwn : DwnCall → DwnOutcome) : Eval HandlerResponse :=
  handleHttp host request ⟨.http, headers.dataStream, none⟩ dwn

theorem handlePost_close
    (h : (request.own (js "method")).toText (C := DwnServerErrorCode) = .ok closeMethod) :
    handlePost host headers request dwn = .ok (respond (createJsonRpcErrorResponse
      (requestId host request) .invalidRequest (js "socket connection does not exist"))) := by
  have hroute := route_of_method (isNullish_of_method h (by decide)) h
  rw [if_pos rfl] at hroute
  simp [handlePost, handleHttp, hroute, bind, Except.bind, handleSubscriptionsClose, pure,
    Except.pure]

/-- The message handler without params, with a message it refuses, and with one that it
hands to the DWN. -/
theorem handlePost_process
    (h : (request.own (js "method")).toText (C := DwnServerErrorCode) = .ok method)
    (hmethod : method ∈ processMethods) :
    handlePost host headers request dwn =
      if (request.own (js "params")).isNullish then .error .engine
      else if (messageDescriptor request).isNullish then
        .ok (respond (internalError host (requestId host request) .engine))
      else if ((messageDescriptor request).readOptional "method").isText (js "Subscribe") then
        .ok (respond (createJsonRpcErrorResponse (requestId host request) .invalidRequest
          (js "subscribe methods must contain a subscriptionRequest context")))
      else .ok (finishProcessMessage host (requestId host request)
        ⟨.http, headers.dataStream, none⟩ none 0 (dwn (httpCall headers request))).1 := by
  have hne : method ≠ closeMethod ∧ method ≠ js "undefined" := by
    constructor <;> rintro rfl <;> revert hmethod <;> decide
  have hroute := route_of_method (isNullish_of_method h hne.2) h
  rw [if_neg hne.1, if_pos hmethod] at hroute
  simp only [handlePost, handleHttp, hroute, bind, Except.bind, handleDwnProcessMessage_eq,
    guardedProcessMessage_http]
  by_cases hparams : (request.own (js "params")).isNullish = true
  · simp only [if_pos hparams]
  by_cases hdescriptor : (messageDescriptor request).isNullish = true
  · simp only [if_neg hparams, if_pos hdescriptor]
    rw [messageDescriptor] at hdescriptor
    simp only [if_pos hdescriptor]
    rfl
  · simp only [if_neg hparams, if_neg hdescriptor]
    rw [messageDescriptor] at hdescriptor ⊢
    simp only [if_neg hdescriptor]
    split_ifs <;> rfl

theorem handlePost_other
    (h : (request.own (js "method")).toText (C := DwnServerErrorCode) = .ok method)
    (hclose : method ≠ closeMethod) (hprocess : method ∉ processMethods) :
    (∃ e, handlePost host headers request dwn = .error e ∧ method ≠ js "constructor") ∨
      ∃ response, handlePost host headers request dwn = .ok response ∧
        (method = js "constructor" ∧ response = .ofValue request ∨
          method ≠ js "constructor" ∧ response.jsonRpcResponse = none) := by
  by_cases hnull : JsValue.isNullish (some request) = true
  · obtain rfl : request = .null := by cases request <;> first | rfl | cases hnull
    refine Or.inl ⟨.engine, rfl, ?_⟩
    obtain rfl := Except.ok.inj h
    decide
  have hroute := route_of_method (by simpa using hnull) h
  rw [if_neg hclose, if_neg hprocess] at hroute
  split_ifs at hroute with hinherited
  · simp only [handlePost, handleHttp, hroute, bind, Except.bind]
    rcases callInherited_cases method request with
      ⟨hname, hcall⟩ | ⟨hname, ⟨response, hnone, hcall⟩ | ⟨e, hcall⟩⟩ <;> rw [hcall]
    · exact Or.inr ⟨_, rfl, Or.inl ⟨hname, rfl⟩⟩
    · exact Or.inr ⟨_, rfl, Or.inr ⟨hname, hnone⟩⟩
    · exact Or.inl ⟨_, rfl, hname⟩
  · refine Or.inl ⟨.engine, by simp [handlePost, handleHttp, hroute, bind, Except.bind], ?_⟩
    rintro rfl
    exact hinherited (by decide)

/-- Without params, or under a method that is none, the handlers throw. -/
theorem handlePost_error
    (h : ¬JsValue.HasText (request.own (js "method"))) :
    ∃ e, handlePost host headers request dwn = .error e := by
  cases hroute : jsonRpcRouter.route request with
  | error e => exact ⟨e, by simp [handlePost, handleHttp, hroute, bind, Except.bind]⟩
  | ok called => exact absurd (JsonRpcRouter.method_of_route hroute) h

/-! ## What is sent -/

theorem sendHttp_error {response : HandlerResponse} {message : Json}
    (hmessage : response.jsonRpcResponse = some message)
    (hcount : countRequest request (some message) = .ok true) :
    sendHttp request response = .ok (.json 500 message) := by
  simp [sendHttp, hmessage, hcount, bind, Except.bind, pure, Except.pure]

/-- The route sends the response that it was handed, or nothing. -/
theorem httpResponses_sendHttp (request : Json) (response : HandlerResponse) :
    httpResponses (sendHttp request response) = [] ∨
      ∃ message, response.jsonRpcResponse = some message ∧
        httpResponses (sendHttp request response) = [message] := by
  unfold sendHttp
  cases countRequest request response.jsonRpcResponse with
  | error e => exact Or.inl rfl
  | ok isError =>
    rcases response with ⟨_ | message, dataStream⟩
    · exact Or.inl rfl
    cases isError with
    | true => exact Or.inr ⟨message, rfl, rfl⟩
    | false =>
      cases dataStream <;> simp only [bind, Except.bind]
      case absent => exact Or.inr ⟨message, rfl, rfl⟩
      all_goals
        split_ifs
        · first | exact Or.inl rfl | exact Or.inr ⟨message, rfl, rfl⟩
        · first | exact Or.inl rfl | exact Or.inr ⟨message, rfl, rfl⟩

theorem httpResponses_processed (hmethod : JsValue.HasText (request.own (js "method")))
    (requestId : Json) (reply : DwnReply) :
    httpResponses (sendHttp request ⟨some (processedResponse requestId reply),
        if reply.entryData then .stream else .absent⟩) =
      if reply.entryData = true ∧
          isHeaderValue (processedResponse requestId reply).stringify = false
        then []
      else [processedResponse requestId reply] := by
  have hcount := countRequest_processed hmethod requestId reply
  simp only [sendHttp, hcount, bind, Except.bind]
  cases reply.entryData with
  | false => rfl
  | true =>
    cases hheader : isHeaderValue (processedResponse requestId reply).stringify <;>
      simp [hheader, httpResponses, pure, Except.pure]

/-! ## Every request -/

section Answers

variable {data : JsString} (hparse : Json.parse data = some request)

include hparse

/-- The handlers' own errors are answers. -/
theorem answered_httpError (hmethod : JsValue.HasText (request.own (js "method")))
    (code : JsonRpcErrorCodes) (text : JsString) :
    Answered data (httpResponses (sendHttp request
        (respond (createJsonRpcErrorResponse (requestId host request) code text)))) ↔
      IdSerialises request := by
  rw [sendHttp_error rfl (countRequest_error hmethod _ code text)]
  exact answered_error hparse host code text

theorem answered_httpProcess
    (h : (request.own (js "method")).toText (C := DwnServerErrorCode) = .ok method)
    (hmethod : method ∈ processMethods) :
    Answered data (httpResponses (handlePost host headers request dwn >>= sendHttp request)) ↔
      (request.own (js "params")).isNullish = false ∧ IdSerialises request ∧
        FitsHeader host headers dwn request := by
  have htext : JsValue.HasText (request.own (js "method")) := ⟨_, h⟩
  rw [handlePost_process h hmethod]
  split_ifs with hparams hdescriptor hsubscribe
  · exact iff_of_false (not_answered_nil data) (by simp [hparams])
  · have hfits : FitsHeader host headers dwn request := by simp [FitsHeader, hdescriptor]
    simpa [hparams, hfits] using! answered_httpError hparse htext _ _
  · have hfits : FitsHeader host headers dwn request := by simp [FitsHeader, hsubscribe]
    simpa [hparams, hfits] using! answered_httpError hparse htext _ _
  · simp only [Bool.not_eq_true] at hparams hdescriptor hsubscribe
    have hwell := not_malformed_process h hmethod hdescriptor
    have hfits : FitsHeader host headers dwn request ↔
        ∀ reply, dwn (httpCall headers request) = .ok reply → reply.entryData = true →
          isHeaderValue (processedResponse (requestId host request) reply).stringify = true := by
      simp [FitsHeader, hdescriptor, hsubscribe, isHeaderValue_processedResponse]
    rw [hfits]
    cases hdwn : dwn (httpCall headers request) with
    | error message => simpa [hparams] using! answered_httpError hparse htext _ _
    | ok reply =>
      have hresponse : (finishProcessMessage host (requestId host request)
          ⟨.http, headers.dataStream, none⟩ none 0 (.ok reply)).1 =
          ⟨some (processedResponse (requestId host request) reply),
            if reply.entryData then .stream else .absent⟩ := rfl
      simp only [bind, Except.bind, hresponse, httpResponses_processed htext, hparams, true_and,
        Except.ok.injEq, forall_eq']
      split_ifs with hheader
      · exact iff_of_false (not_answered_nil data) fun h => by simp [h.2 hheader.1] at hheader
      · have hsuccess := answered_success hparse hwell host
          (some (.object [(js "reply", reply.toJson)]))
        rw [← processedResponse] at hsuccess
        rw [hsuccess]
        refine ⟨fun hid => ⟨hid, fun hdata => ?_⟩, fun h => h.1⟩
        simpa [hdata] using hheader

theorem answered_httpOther
    (h : (request.own (js "method")).toText (C := DwnServerErrorCode) = .ok method)
    (hclose : method ≠ closeMethod) (hprocess : method ∉ processMethods) :
    Answered data (httpResponses (handlePost host headers request dwn >>= sendHttp request)) ↔
      method = js "constructor" ∧ EchoesError request := by
  have hmalformed : Malformed request := by
    refine Or.inr (Or.inl ?_)
    simp [methodIn_iff h, hclose, hprocess]
  rcases handlePost_other h hclose hprocess with
    ⟨e, herror, hname⟩ | ⟨response, hresponse, ⟨hname, rfl⟩ | ⟨hname, hnone⟩⟩
  · rw [herror]
    exact iff_of_false (not_answered_nil data) fun h => hname h.1
  · simp only [hresponse, bind, Except.bind, hname, true_and]
    constructor
    · intro hanswered
      rcases httpResponses_sendHttp request (.ofValue request) with hnone | ⟨r, hr, hsent⟩
      · rw [hnone] at hanswered
        exact absurd hanswered (not_answered_nil data)
      · rw [hsent] at hanswered
        exact (answered_echo hparse hmalformed hr).mp hanswered
    · rintro ⟨r, hr, herror, hid⟩
      rw [sendHttp_error hr (countRequest_echo ⟨_, h⟩ herror)]
      exact (answered_echo hparse hmalformed hr).mpr ⟨r, hr, herror, hid⟩
  · have hsent : httpResponses (sendHttp request response) = [] := by
      simpa [hnone] using httpResponses_sendHttp request response
    simp only [hresponse, bind, Except.bind, hsent]
    exact iff_of_false (not_answered_nil data) fun h => hname h.1

end Answers

/-- The client of `POST /` gets its answer exactly if the headers are answerable. -/
theorem answered_iff_httpAnswerable (host : Host) (headers : PostHeaders)
    (dwn : DwnCall → DwnOutcome) :
    Answered (headers.dwnRequest.getD []) (httpResponses (post host headers dwn)) ↔
      HttpAnswerable host headers dwn := by
  have hrefused (text : JsString) (hparse : Json.parse (headers.dwnRequest.getD []) = none) :
      Answered (headers.dwnRequest.getD []) [createJsonRpcErrorResponse
        (some (.string host.uuid)) .badRequest text] ↔ HttpAnswerable host headers dwn :=
    iff_of_true (answered_of_unparsed hparse _ _ _) (by simp [HttpAnswerable, hparse])
  unfold post
  dsimp only
  split_ifs with hempty
  · exact hrefused _ (by rw [hempty]; rfl)
  cases hparse : Json.parse (headers.dwnRequest.getD []) with
  | none => exact hrefused _ hparse
  | some request =>
    have hanswerable : HttpAnswerable host headers dwn ↔ HttpAnswers host headers dwn request := by
      simp [HttpAnswerable, hparse]
    rw [hanswerable]
    cases h : (request.own (js "method")).toText (C := DwnServerErrorCode) with
    | error e =>
      have htext : ¬JsValue.HasText (request.own (js "method")) := by simp [JsValue.HasText, h]
      obtain ⟨e', he'⟩ : ∃ e', handlePost host headers request dwn = .error e' :=
        handlePost_error htext
      simp only [he', bind, Except.bind]
      exact iff_of_false (not_answered_nil _) (by simp [HttpAnswers, h])
    | ok method =>
      rw [httpAnswers_iff h]
      by_cases hclose : method = closeMethod
      · subst hclose
        have hnot : closeMethod ∉ processMethods ∧ closeMethod ≠ js "constructor" := by decide
        simp only [handlePost_close h, bind, Except.bind, hnot, false_and, true_and, false_or,
          or_false]
        exact answered_httpError hparse ⟨_, h⟩ _ _
      by_cases hprocess : method ∈ processMethods
      · have hnot : method ≠ js "constructor" := by
          rintro rfl
          revert hprocess
          decide
        simp only [hclose, hprocess, hnot, false_and, true_and, or_false]
        exact answered_httpProcess hparse h hprocess
      · simp only [hclose, hprocess, false_and, false_or]
        exact answered_httpOther hparse h hclose hprocess

end DwnServer
