import DwnServer.Connection.ClosedOnce
import DwnServer.Invocations

/-!
# Where the frames of a connection come from

`Stems` relates a connection to the texts that it has received. A response bears the id of the
request that it answers, and an event the id that the request of its subscription asked for. A
request to close a subscription that succeeds has called its `close` function, and no event of
that subscription follows the response.
-/
namespace DwnServer

open Transition

/-- The text that an action brings. -/
def Action.text? : Action → Option JsString
  | .message data _ => some data
  | _ => none

namespace Connection

/-- Subscription `s` was opened under an id with this key. -/
def OpenedUnder (w : Connection) (key : SubscriptionKey) (s : ℕ) : Prop :=
  ∃ id, (id, s) ∈ w.opened ∧ id.key = key

/-- A response that a handler makes for a request. -/
def MadeFor (request response : Json) : Prop :=
  ∃ host, (∃ code text,
      response = createJsonRpcErrorResponse (requestId host request) code text) ∨
    ∃ result, response = createJsonRpcSuccessResponse (requestId host request) result

/-- What a response has to do with the request that it answers, and with the frames after it. -/
structure AnswerTo (w : Connection) (i : ℕ) (request response : Json) (later : List Frame) :
    Prop where
  made : MadeFor request response ∨ request.own (js "jsonRpcResponse") = some response
  closed : MethodIn [closeMethod] request → response.own (js "error") = none →
    ∃ s, w.OpenedUnder (subscriptionIdOf i request).key s ∧ s ∈ w.closeCalls ∧
      ∀ e, .event s e ∉ later

/-- What is known of request `i`, whose text is `data`, at its stage. -/
inductive StageStems (w : Connection) (i : ℕ) (data : JsString) : Stage → Prop
  | contextBuilt {request : Json} {context : RequestContext}
      (hparse : Json.parse data = some request)
      (hbuilds : buildRequestContext i request = .ok context) :
      StageStems w i data (.contextBuilt request context)
  | processing {request : Json} {context : RequestContext} {host : Host} {call : DwnCall}
      (hparse : Json.parse data = some request)
      (hbuilds : buildRequestContext i request = .ok context)
      (hmethod : MethodIn processMethods request) :
      StageStems w i data (.processing request context (requestId host request) call)
  | closing {request : Json} {host : Host} {s : ℕ} (hparse : Json.parse data = some request)
      (hmethod : MethodIn [closeMethod] request)
      (hopened : w.OpenedUnder (subscriptionIdOf i request).key s) (hcalled : s ∈ w.closeCalls) :
      StageStems w i data (.closing request (requestId host request) (subscriptionIdOf i request) s)
  | handled {request : Json} {response : HandlerResponse} (hparse : Json.parse data = some request)
      (hanswer : ∀ m, response.jsonRpcResponse = some m → w.AnswerTo i request m []) :
      StageStems w i data (.handled request response)
  | answered : StageStems w i data .answered
  | threw : StageStems w i data .threw

/-- The subscription `s` stems from a request that asked for it, and was opened under its id. -/
def OpenedStems (texts : List JsString) (id : SubscriptionId) (s : ℕ) : Prop :=
  ∃ data request, texts[s]? = some data ∧ Json.parse data = some request ∧
    id = subscriptionIdOf s request ∧ AsksToSubscribe request ∧ MethodIn processMethods request

/-- The stages and the frames of a connection that has received `texts`. -/
structure Stems (texts : List JsString) (w : Connection) : Prop where
  length : w.requests.length = texts.length
  stages : ∀ (i : ℕ) (stage : Stage) (data : JsString), w.requests[i]? = some stage →
    texts[i]? = some data → w.StageStems i data stage
  opened : ∀ id s, (id, s) ∈ w.opened → OpenedStems texts id s
  responses : ∀ front i m back, w.sent = front ++ .response i m :: back →
    ∃ data, texts[i]? = some data ∧ ∀ request, Json.parse data = some request →
      w.AnswerTo i request m back
  events : ∀ s m, .event s m ∈ w.sent → ∃ id e, (id, s) ∈ w.opened ∧
    m = createJsonRpcSuccessResponse id.value (some (.object [(js "event", e)]))

variable {w t : Connection} {a : Action} {i : ℕ} {data : JsString} {request response : Json}
  {later : List Frame} {texts : List JsString}

/-! ## What is never taken back -/

/-- The subscriptions that were opened and the `close` functions that were called. -/
structure Grows (w t : Connection) : Prop where
  opened : w.opened ⊆ t.opened
  closeCalls : w.closeCalls ⊆ t.closeCalls

theorem grows_beginClose (w : Connection) : Grows w w.beginClose :=
  ⟨List.Subset.refl _, List.subset_append_left _ _⟩

theorem grows_step (h : w.step a = some t) : Grows w t := by
  refine ⟨fun _ ho => opened_mono h ho, ?_⟩
  cases a with
  | message data host =>
    obtain ⟨-, rfl⟩ := step_message.mp h
    rcases message_cases w data host with ⟨text, hm⟩ | hm | ⟨request, context, -, hm⟩ <;>
      exact hm ▸ List.Subset.refl _
  | handle i host =>
    obtain ⟨_, _, -, rfl⟩ := step_handle.mp h
    exact List.subset_append_left _ _
  | dwnSettles i outcome host =>
    obtain ⟨_, _, _, _, -, -, rfl⟩ := step_dwnSettles.mp h
    exact List.Subset.refl _
  | closeSettles i outcome host =>
    obtain ⟨_, _, _, _, -, rfl⟩ := step_closeSettles.mp h
    exact List.Subset.refl _
  | respond i =>
    obtain ⟨_, _, -, rfl⟩ := step_respond.mp h
    unfold respond
    split <;> exact List.Subset.refl _
  | event s e =>
    obtain ⟨_, -, -, rfl⟩ := step_event h
    exact List.Subset.refl _
  | heartbeat =>
    obtain ⟨-, rfl⟩ := step_heartbeat.mp h
    unfold heartbeat
    split
    · exact List.Subset.refl _
    · exact (grows_beginClose w).closeCalls
  | pong =>
    obtain ⟨-, rfl⟩ := step_pong.mp h
    exact List.Subset.refl _
  | socketClose =>
    obtain ⟨-, rfl⟩ := step_socketClose.mp h
    exact (grows_beginClose w).closeCalls
  | socketError =>
    obtain ⟨-, rfl⟩ := step_socketError.mp h
    exact (grows_beginClose _).closeCalls
  | close =>
    obtain rfl := Option.some.inj h
    exact (grows_beginClose w).closeCalls
  | closeAllSettles k resolved =>
    obtain ⟨_, -, -, -, rfl⟩ := step_closeAllSettles.mp h
    unfold closeAllSettles
    split <;> exact List.Subset.refl _

theorem OpenedUnder.grows {key : SubscriptionKey} {s : ℕ} (h : w.OpenedUnder key s)
    (hgrows : Grows w t) : t.OpenedUnder key s := by
  obtain ⟨id, hid, hkey⟩ := h
  exact ⟨id, hgrows.opened hid, hkey⟩

theorem AnswerTo.grows (h : w.AnswerTo i request response later) (hgrows : Grows w t) :
    t.AnswerTo i request response later where
  made := h.made
  closed hmethod herror := by
    obtain ⟨s, hopened, hcalled, hlater⟩ := h.closed hmethod herror
    exact ⟨s, hopened.grows hgrows, hgrows.closeCalls hcalled, hlater⟩

/-- A frame that is no event of a subscription whose `close` function was called. -/
theorem AnswerTo.append (h : w.AnswerTo i request response later) {frame : Frame}
    (hframe : ∀ s e, frame = .event s e → s ∉ w.closeCalls) :
    w.AnswerTo i request response (later ++ [frame]) where
  made := h.made
  closed hmethod herror := by
    obtain ⟨s, hopened, hcalled, hlater⟩ := h.closed hmethod herror
    refine ⟨s, hopened, hcalled, fun e hmem => ?_⟩
    rcases List.mem_append.mp hmem with hold | hnew
    · exact hlater e hold
    · exact hframe s e (List.mem_singleton.mp hnew).symm hcalled

theorem StageStems.grows {stage : Stage} (h : w.StageStems i data stage) (hgrows : Grows w t) :
    t.StageStems i data stage := by
  cases h with
  | contextBuilt hparse hbuilds => exact .contextBuilt hparse hbuilds
  | processing hparse hbuilds hmethod => exact .processing hparse hbuilds hmethod
  | closing hparse hmethod hopened hcalled =>
    exact .closing hparse hmethod (hopened.grows hgrows) (hgrows.closeCalls hcalled)
  | handled hparse hanswer => exact .handled hparse fun m hm => (hanswer m hm).grows hgrows
  | answered => exact .answered
  | threw => exact .threw

/-! ## The handlers -/

/-- A request has one method. -/
theorem not_methodIn_close (h : MethodIn processMethods request) :
    ¬MethodIn [closeMethod] request := by
  obtain ⟨name, hname, htext⟩ := h
  rw [methodIn_iff htext]
  rintro hclose
  rw [List.mem_singleton.mp hclose] at hname
  revert hname
  decide

theorem answerTo_error (w : Connection) (i : ℕ) (request : Json) (host : Host)
    (code : JsonRpcErrorCodes) (text : JsString) (later : List Frame) :
    w.AnswerTo i request (createJsonRpcErrorResponse (requestId host request) code text) later where
  made := Or.inl ⟨host, Or.inl ⟨code, text, rfl⟩⟩
  closed _ herror := by simp at herror

/-- What a handler that failed answers, unless it fails to. -/
theorem stageStems_closeFailed (w : Connection) (hparse : Json.parse data = some request)
    (host host' : Host) (id : SubscriptionId) (error : ServerThrown) :
    w.StageStems i data
      (.ofResponse request (closeFailed host (requestId host' request) id error)) := by
  by_cases hid : id.value.HasText
  · obtain ⟨code, text, hfailed⟩ := closeFailed_of_hasText hid host (requestId host' request) error
    rw [hfailed]
    exact .handled hparse fun m hm =>
      Option.some.inj hm ▸ w.answerTo_error i request host' code text []
  · obtain ⟨e, hfailed⟩ := closeFailed_of_not_hasText hid host (requestId host' request) error
    rw [hfailed]
    exact .threw

/-- Where the handling of a request gets before it waits. -/
inductive Routed (w : Connection) (i : ℕ) (request : Json) (context : RequestContext)
    (host : Host) : Stage → Prop
  | refused (code : JsonRpcErrorCodes) (text : JsString) : Routed w i request context host
      (.handled request
        (DwnServer.respond (createJsonRpcErrorResponse (requestId host request) code text)))
  | processing (hmethod : MethodIn processMethods request) : Routed w i request context host
      (.processing request context (requestId host request)
        ⟨(request.own (js "params")).readOptional "target",
          (request.own (js "params")).readOptional "message", context.dataStream,
          context.subscriptionRequest⟩)
  | closing {s : ℕ} (hmethod : MethodIn [closeMethod] request)
      (hs : w.state.closeSubscription (subscriptionIdOf i request) = .ok s) :
      Routed w i request context host
        (.closing request (requestId host request) (subscriptionIdOf i request) s)
  | inherited {response : HandlerResponse}
      (hmethod : ¬MethodIn (closeMethod :: processMethods) request)
      (hresponse : ∀ m, response.jsonRpcResponse = some m →
        request.own (js "jsonRpcResponse") = some m) :
      Routed w i request context host (.handled request response)
  | threw : Routed w i request context host .threw

theorem routed_close (w : Connection) (i : ℕ) (context : RequestContext)
    (hmethod : MethodIn [closeMethod] request) (host : Host) :
    w.Routed i request context host
      (match handleSubscriptionsClose host i request (some w.state) with
      | .error _ => .threw
      | .ok (.responded response) => .handled request (DwnServer.respond response)
      | .ok (.close requestId id s) => .closing request requestId id s) := by
  rw [handleSubscriptionsClose_eq]
  cases hsubscription : request.own (js "subscription") with
  | none => exact .refused _ _
  | some subscription =>
    by_cases hnull : subscription = .null
    · rw [hnull]
      exact .threw
    have hid : SubscriptionId.of i (subscription.own (js "id")) = subscriptionIdOf i request := by
      rw [subscriptionIdOf, hsubscription]
      rfl
    dsimp only
    rw [if_neg hnull, hid]
    cases hclosed : w.state.closeSubscription (subscriptionIdOf i request) with
    | ok s => exact .closing hmethod hclosed
    | error e =>
      by_cases htext : (subscriptionIdOf i request).value.HasText
      · obtain ⟨code, text, hfailed⟩ :=
          closeFailed_of_hasText htext host (requestId host request) e
        dsimp only
        rw [hfailed]
        exact .refused code text
      · obtain ⟨e', hfailed⟩ := closeFailed_of_not_hasText htext host (requestId host request) e
        dsimp only
        rw [hfailed]
        exact .threw

theorem routed_process (w : Connection) (i : ℕ) (context : RequestContext)
    (hmethod : MethodIn processMethods request) (host : Host) :
    w.Routed i request context host
      (match handleDwnProcessMessage host request context (some w.state) with
      | .error _ => .threw
      | .ok (.responded response) => .handled request (DwnServer.respond response)
      | .ok (.processMessage requestId call) => .processing request context requestId call) := by
  rw [handleDwnProcessMessage_eq]
  dsimp only
  split_ifs
  · exact .threw
  cases hguard : guardedProcessMessage (requestId host request) context (some w.state)
      ((request.own (js "params")).readOptional "target")
      ((request.own (js "params")).readOptional "message") with
  | error e => exact .refused _ _
  | ok start =>
    rcases guardedProcessMessage_ok hguard with ⟨code, text, rfl⟩ | ⟨-, rfl⟩
    · exact .refused code text
    · exact .processing hmethod

theorem routed {context : RequestContext} (w : Connection)
    (hbuilds : buildRequestContext i request = .ok context) (host : Host) :
    w.Routed i request context host (w.route i request context host) := by
  obtain ⟨method, hmethod⟩ := exists_method_of_buildRequestContext hbuilds
  have htext : (request.own (js "method")).toText (C := DwnServerErrorCode) = .ok method := by
    rw [hmethod]
    rfl
  have hroute := route_of_method (JsValue.isNullish_of_own hmethod) htext
  unfold route
  rw [hroute]
  split_ifs with hclose hprocess hinherited
  · exact w.routed_close i context ⟨method, by simp [hclose], htext⟩ host
  · exact w.routed_process i context ⟨method, hprocess, htext⟩ host
  · have hnot : ¬MethodIn (closeMethod :: processMethods) request := by
      rw [methodIn_iff htext]
      simpa [hclose] using hprocess
    rcases callInherited_cases method request with
      ⟨-, hcall⟩ | ⟨-, ⟨response, hnone, hcall⟩ | ⟨e, hcall⟩⟩ <;> rw [hcall]
    · exact .inherited hnot fun m hm => hm
    · exact .inherited hnot fun m hm => by simp [hnone] at hm
    · exact .threw
  · exact .threw

/-- Where a routed request gets, once its `close` function, if there is one, is called. -/
theorem Routed.stageStems {context : RequestContext} {host : Host} {stage : Stage}
    (h : w.Routed i request context host stage) (hw : w.WellFormed)
    (hparse : Json.parse data = some request)
    (hbuilds : buildRequestContext i request = .ok context) (hgrows : Grows w t)
    (hcalled : ∀ id s, stage.closing? = some (id, s) → s ∈ t.closeCalls) :
    t.StageStems i data stage := by
  cases h with
  | refused code text =>
    exact .handled hparse fun m hm =>
      Option.some.inj hm ▸ t.answerTo_error i request host code text []
  | processing hmethod => exact .processing hparse hbuilds hmethod
  | closing hmethod hs =>
    obtain ⟨id, hopened, hkey⟩ :=
      hw.registry.held _ _ (SocketConnection.closeSubscription_eq_ok.mp hs)
    exact .closing hparse hmethod ⟨id, hgrows.opened hopened, hkey⟩ (hcalled _ _ rfl)
  | inherited hmethod hresponse =>
    refine .handled hparse fun m hm => ⟨Or.inr (hresponse m hm), fun hclose => ?_⟩
    obtain ⟨name, hname, htext⟩ := hclose
    exact absurd ⟨name, by simp [List.mem_singleton.mp hname], htext⟩ hmethod
  | threw => exact .threw

/-- What `handleDwnProcessMessage` answers once the DWN has replied. -/
theorem stageStems_dwnSettles {requestId' : Json} {context : RequestContext} {call : DwnCall}
    (h : w.StageStems i data (.processing request context requestId' call)) (host : Host)
    (outcome : DwnOutcome) : w.StageStems i data (.handled request
      (finishProcessMessage host requestId' context (some w.state) i outcome).1) := by
  cases h with
  | processing hparse hbuilds hmethod =>
    rename_i host'
    refine .handled hparse fun m hm => ?_
    rcases finishProcessMessage_response host (requestId host' request) context (some w.state) i
      outcome with ⟨text, h⟩ | ⟨reply, -, h⟩ <;> rw [h] at hm <;>
      obtain rfl := Option.some.inj hm
    · exact w.answerTo_error i request host' _ text []
    · exact ⟨Or.inl ⟨host', Or.inr ⟨_, rfl⟩⟩, fun hclose _ =>
        absurd hclose (not_methodIn_close hmethod)⟩

/-- What `handleSubscriptionsClose` answers once the `close` function has settled. -/
theorem stageStems_closeSettles {requestId' : Json} {id : SubscriptionId} {s : ℕ}
    (h : w.StageStems i data (.closing request requestId' id s)) (host : Host)
    (outcome : Except JsString Unit) : w.StageStems i data (.ofResponse request
      (finishSubscriptionsClose host requestId' id w.state outcome).1) := by
  cases h with
  | closing hparse hmethod hopened hcalled =>
    rename_i host'
    cases outcome with
    | ok _ =>
      refine .handled hparse fun m hm => ?_
      obtain rfl := Option.some.inj hm
      exact ⟨Or.inl ⟨host', Or.inr ⟨_, rfl⟩⟩, fun _ _ => ⟨s, hopened, hcalled, nofun⟩⟩
    | error message =>
      exact w.stageStems_closeFailed hparse host host' (subscriptionIdOf i request)
        (.foreign message)

/-! ## Steps -/

/-- The stages of the requests whose texts have arrived. -/
def StagesStem (texts : List JsString) (w : Connection) : Prop :=
  ∀ (i : ℕ) (stage : Stage) (data : JsString), w.requests[i]? = some stage →
    texts[i]? = some data → w.StageStems i data stage

theorem StagesStem.same (hw : w.StagesStem texts) (hgrows : Grows w t)
    (hrequests : t.requests = w.requests) : t.StagesStem texts :=
  fun i stage data hi hdata => (hw i stage data (hrequests ▸ hi) hdata).grows hgrows

theorem StagesStem.advance {old new : Stage} (hw : w.StagesStem texts) (hgrows : Grows w t)
    (hi : w.requests[i]? = some old) (hrequests : t.requests = w.requests.set i new)
    (hnew : ∀ data, w.StageStems i data old → t.StageStems i data new) : t.StagesStem texts := by
  intro j stage data hj hdata
  rw [hrequests, getElem?_advance hi] at hj
  split_ifs at hj with hsame
  · subst hsame
    obtain rfl := Option.some.inj hj
    exact hnew data (hw j old data hi hdata)
  · exact (hw j stage data hj hdata).grows hgrows

theorem StagesStem.receive {stage : Stage} (hw : w.StagesStem texts) (hgrows : Grows w t)
    (hlength : w.requests.length = texts.length) (hrequests : t.requests = w.requests ++ [stage])
    (hnew : t.StageStems texts.length data stage) : t.StagesStem (texts ++ [data]) := by
  intro j stage' data' hj hdata
  rw [hrequests] at hj
  rcases Numbered.getElem?_append_singleton hj with hold | ⟨rfl, rfl⟩
  · have hlt := (List.getElem?_eq_some_iff.mp hold).1
    rw [List.getElem?_append_left (hlength ▸ hlt)] at hdata
    exact (hw j stage' data' hold hdata).grows hgrows
  · rw [hlength, List.getElem?_concat_length] at hdata
    exact Option.some.inj hdata ▸ hlength ▸ hnew

/-- A text that arrives is the one of the next request. -/
theorem Stems.message (hw : w.Stems texts) (data : JsString) (host : Host) :
    (w.message data host).StagesStem (texts ++ [data]) := by
  have hstages : w.StagesStem texts := hw.stages
  unfold Connection.message
  split_ifs with hempty
  · exact hstages.receive ⟨List.Subset.refl _, List.Subset.refl _⟩ hw.length rfl .answered
  cases hparse : Json.parse data with
  | none => exact hstages.receive ⟨List.Subset.refl _, List.Subset.refl _⟩ hw.length rfl .answered
  | some request =>
    dsimp only
    cases hbuilds : buildRequestContext w.requests.length request with
    | error e =>
      exact hstages.receive ⟨List.Subset.refl _, List.Subset.refl _⟩ hw.length rfl .threw
    | ok context =>
      exact hstages.receive ⟨List.Subset.refl _, List.Subset.refl _⟩ hw.length rfl
        (.contextBuilt hparse (hw.length ▸ hbuilds))

theorem Stems.stages_step (hwell : w.WellFormed) (hw : w.Stems texts) (h : w.step a = some t) :
    t.StagesStem (texts ++ a.text?.toList) := by
  have hgrows := grows_step h
  have hstages : w.StagesStem texts := hw.stages
  have hquiet (htext : a.text? = none) (ht : t.StagesStem texts) :
      t.StagesStem (texts ++ a.text?.toList) := by
    rwa [htext, Option.toList_none, List.append_nil]
  cases a with
  | message data host =>
    obtain ⟨-, rfl⟩ := step_message.mp h
    exact hw.message data host
  | handle i host =>
    obtain ⟨request, context, hi, rfl⟩ := step_handle.mp h
    refine hquiet rfl (hstages.advance hgrows hi rfl fun data hold => ?_)
    cases hold with
    | contextBuilt hparse hbuilds =>
      refine (w.routed hbuilds host).stageStems hwell hparse hbuilds hgrows
        fun id s hclosing => ?_
      simp [handle, hclosing]
  | dwnSettles i outcome host =>
    obtain ⟨request, context, requestId, call, hi, -, rfl⟩ := step_dwnSettles.mp h
    exact hquiet rfl (hstages.advance hgrows hi rfl fun data hold =>
      (stageStems_dwnSettles hold host outcome).grows hgrows)
  | closeSettles i outcome host =>
    obtain ⟨request, requestId, id, s, hi, rfl⟩ := step_closeSettles.mp h
    exact hquiet rfl (hstages.advance hgrows hi rfl fun data hold =>
      (stageStems_closeSettles hold host outcome).grows hgrows)
  | respond i =>
    obtain ⟨request, response, hi, rfl⟩ := step_respond.mp h
    refine hquiet rfl ?_
    unfold respond
    split
    · exact hstages.advance ⟨List.Subset.refl _, List.Subset.refl _⟩ hi rfl fun _ _ => .answered
    · exact hstages.advance ⟨List.Subset.refl _, List.Subset.refl _⟩ hi rfl fun _ _ => .threw
  | event s e =>
    obtain ⟨_, -, -, rfl⟩ := step_event h
    exact hquiet rfl (hstages.same hgrows rfl)
  | heartbeat =>
    obtain ⟨-, rfl⟩ := step_heartbeat.mp h
    refine hquiet rfl (hstages.same hgrows ?_)
    unfold heartbeat
    split <;> rfl
  | pong =>
    obtain ⟨-, rfl⟩ := step_pong.mp h
    exact hquiet rfl (hstages.same hgrows rfl)
  | socketClose =>
    obtain ⟨-, rfl⟩ := step_socketClose.mp h
    exact hquiet rfl (hstages.same hgrows rfl)
  | socketError =>
    obtain ⟨-, rfl⟩ := step_socketError.mp h
    exact hquiet rfl (hstages.same hgrows rfl)
  | close =>
    obtain rfl := Option.some.inj h
    exact hquiet rfl (hstages.same hgrows rfl)
  | closeAllSettles k resolved =>
    obtain ⟨_, -, -, -, rfl⟩ := step_closeAllSettles.mp h
    refine hquiet rfl (hstages.same hgrows ?_)
    unfold closeAllSettles
    split <;> rfl

/-- The frame that a step sends: the answer to a text that is no JSON, the response of a handler,
or an event of a subscription whose `close` function was not called. -/
inductive Sends (w : Connection) (a : Action) : Frame → Prop where
  | refusal {data : JsString} {host : Host} (text : JsString) (ha : a = .message data host)
      (hparse : Json.parse data = none) : Sends w a (.response w.requests.length
        (createJsonRpcErrorResponse (some (.string host.uuid)) .badRequest text))
  | response {i : ℕ} {request m : Json} {response : HandlerResponse} (ha : a = .respond i)
      (hi : w.requests[i]? = some (.handled request response))
      (hm : response.jsonRpcResponse = some m) : Sends w a (.response i m)
  | event {id : SubscriptionId} {s : ℕ} {e : Json} (ha : a = .event s e)
      (hid : (id, s) ∈ w.opened) (hopen : s ∉ w.closeCalls) : Sends w a (.event s
        (createJsonRpcSuccessResponse id.value (some (.object [(js "event", e)]))))

theorem sends_step (h : w.step a = some t) :
    t.sent = w.sent ∨ ∃ frame, w.Sends a frame ∧ t.sent = w.sent ++ [frame] := by
  cases a with
  | message data host =>
    obtain ⟨-, rfl⟩ := step_message.mp h
    unfold message
    split_ifs with hempty
    · exact Or.inr ⟨_, .refusal _ rfl (by rw [hempty]; rfl), rfl⟩
    cases hparse : Json.parse data with
    | none => exact Or.inr ⟨_, .refusal _ rfl hparse, rfl⟩
    | some request =>
      dsimp only
      split <;> exact Or.inl rfl
  | handle i host =>
    obtain ⟨_, _, -, rfl⟩ := step_handle.mp h
    exact Or.inl rfl
  | dwnSettles i outcome host =>
    obtain ⟨_, _, _, _, -, -, rfl⟩ := step_dwnSettles.mp h
    exact Or.inl rfl
  | closeSettles i outcome host =>
    obtain ⟨_, _, _, _, -, rfl⟩ := step_closeSettles.mp h
    exact Or.inl rfl
  | respond i =>
    obtain ⟨request, response, hi, rfl⟩ := step_respond.mp h
    unfold respond
    split
    · rename_i m _ hm _
      exact Or.inr ⟨_, .response rfl hi hm, rfl⟩
    · exact Or.inl rfl
  | event s e =>
    obtain ⟨id, hid, hopen, rfl⟩ := step_event h
    exact Or.inr ⟨_, .event rfl hid hopen, rfl⟩
  | heartbeat =>
    obtain ⟨-, rfl⟩ := step_heartbeat.mp h
    unfold heartbeat
    split <;> exact Or.inl rfl
  | pong =>
    obtain ⟨-, rfl⟩ := step_pong.mp h
    exact Or.inl rfl
  | socketClose =>
    obtain ⟨-, rfl⟩ := step_socketClose.mp h
    exact Or.inl rfl
  | socketError =>
    obtain ⟨-, rfl⟩ := step_socketError.mp h
    exact Or.inl rfl
  | close =>
    obtain rfl := Option.some.inj h
    exact Or.inl rfl
  | closeAllSettles k resolved =>
    obtain ⟨_, -, -, -, rfl⟩ := step_closeAllSettles.mp h
    unfold closeAllSettles
    split <;> exact Or.inl rfl

theorem getElem?_of_append {texts more : List JsString} (h : texts[i]? = some data) :
    (texts ++ more)[i]? = some data := by
  rw [List.getElem?_append_left (List.getElem?_eq_some_iff.mp h).1, h]

/-- The text of a request that was received. -/
theorem Stems.exists_text (hw : w.Stems texts) {stage : Stage} (hi : w.requests[i]? = some stage) :
    ∃ data, texts[i]? = some data := by
  have hlt := (List.getElem?_eq_some_iff.mp hi).1
  exact ⟨_, List.getElem?_eq_getElem (hw.length ▸ hlt)⟩

/-- A frame that is sent answers its request, or is an event of an open subscription. -/
theorem Stems.answerTo_sends (hw : w.Stems texts) {m : Json} (hsends : w.Sends a (.response i m))
    (hgrows : Grows w t) : ∃ data, (texts ++ a.text?.toList)[i]? = some data ∧
      ∀ request, Json.parse data = some request → t.AnswerTo i request m [] := by
  cases hsends with
  | refusal text ha hparse =>
    subst ha
    refine ⟨_, by rw [hw.length]; exact List.getElem?_concat_length, fun request hrequest => ?_⟩
    rw [hparse] at hrequest
    cases hrequest
  | response ha hi hm =>
    obtain ⟨data, hdata⟩ := hw.exists_text hi
    refine ⟨data, getElem?_of_append hdata, fun request hrequest => ?_⟩
    cases hw.stages _ _ _ hi hdata with
    | handled hparse hanswer =>
      obtain rfl := Option.some.inj (hparse.symm.trans hrequest)
      exact (hanswer m hm).grows hgrows

theorem Stems.responses_step (hw : w.Stems texts) (h : w.step a = some t) :
    ∀ front i m back, t.sent = front ++ .response i m :: back →
      ∃ data, (texts ++ a.text?.toList)[i]? = some data ∧ ∀ request,
        Json.parse data = some request → t.AnswerTo i request m back := by
  intro front i m back hsplit
  have hgrows := grows_step h
  rcases sends_step h with hsent | ⟨frame, hsends, hsent⟩
  · obtain ⟨data, hdata, hanswer⟩ := hw.responses front i m back (hsent ▸ hsplit)
    exact ⟨data, getElem?_of_append hdata, fun request hparse =>
      (hanswer request hparse).grows hgrows⟩
  rw [hsent] at hsplit
  rcases List.eq_nil_or_concat back with rfl | ⟨back, last, rfl⟩
  · obtain ⟨-, hframe⟩ := List.append_inj' hsplit rfl
    obtain rfl := List.singleton_inj.mp hframe
    exact hw.answerTo_sends hsends hgrows
  · rw [List.concat_eq_append, ← List.cons_append, ← List.append_assoc] at hsplit
    obtain ⟨hfront, hframe⟩ := List.append_inj' hsplit rfl
    obtain rfl := List.singleton_inj.mp hframe
    obtain ⟨data, hdata, hanswer⟩ := hw.responses front i m back hfront
    refine ⟨data, getElem?_of_append hdata, fun request hparse => ?_⟩
    rw [List.concat_eq_append]
    refine ((hanswer request hparse).append fun s e hevent => ?_).grows hgrows
    cases hsends with
    | refusal | response => cases hevent
    | event _ _ hopen => exact (Frame.event.inj hevent).1 ▸ hopen

theorem Stems.opened_step (hw : w.Stems texts) (h : w.step a = some t) {id : SubscriptionId}
    {s : ℕ} (hid : (id, s) ∈ t.opened) : OpenedStems (texts ++ a.text?.toList) id s := by
  have hgrown (hold : OpenedStems texts id s) : OpenedStems (texts ++ a.text?.toList) id s := by
    obtain ⟨data, request, hdata, hrest⟩ := hold
    exact ⟨data, request, getElem?_of_append hdata, hrest⟩
  rcases Connection.opened_step h with hsame | ⟨i, outcome, host, request, context, requestId, call,
    id', -, hi, hopened, -, happend⟩
  · exact hgrown (hw.opened id s (hsame ▸ hid))
  rcases List.mem_append.mp (happend ▸ hid) with hold | hnew
  · exact hgrown (hw.opened id s hold)
  obtain ⟨rfl, rfl⟩ := Prod.mk.inj (List.mem_singleton.mp hnew)
  obtain ⟨data, hdata⟩ := hw.exists_text hi
  cases hw.stages _ _ _ hi hdata with
  | processing hparse hbuilds hmethod =>
    obtain ⟨-, hcontext⟩ := context_ws hbuilds
    obtain ⟨hsubscription, hasks, -⟩ := hcontext _ (mem_of_openedSubscription hopened)
    exact hgrown ⟨data, request, hdata, hparse, hsubscription, hasks, hmethod⟩

/-- Each text is one request. -/
theorem requests_length_step (h : w.step a = some t) :
    t.requests.length = w.requests.length + a.text?.toList.length := by
  cases a with
  | message data host =>
    obtain ⟨-, rfl⟩ := step_message.mp h
    rcases w.message_cases data host with ⟨text, hm⟩ | hm | ⟨request, context, -, hm⟩ <;>
      simp [hm, refuse, receive, send, Action.text?]
  | handle i host =>
    obtain ⟨_, _, -, rfl⟩ := step_handle.mp h
    exact List.length_set
  | dwnSettles i outcome host =>
    obtain ⟨_, _, _, _, -, -, rfl⟩ := step_dwnSettles.mp h
    exact List.length_set
  | closeSettles i outcome host =>
    obtain ⟨_, _, _, _, -, rfl⟩ := step_closeSettles.mp h
    exact List.length_set
  | respond i =>
    obtain ⟨_, _, -, rfl⟩ := step_respond.mp h
    unfold respond
    split <;> exact List.length_set
  | event s e =>
    obtain ⟨_, -, -, rfl⟩ := step_event h
    rfl
  | heartbeat =>
    obtain ⟨-, rfl⟩ := step_heartbeat.mp h
    unfold heartbeat
    split <;> rfl
  | pong =>
    obtain ⟨-, rfl⟩ := step_pong.mp h
    rfl
  | socketClose =>
    obtain ⟨-, rfl⟩ := step_socketClose.mp h
    rfl
  | socketError =>
    obtain ⟨-, rfl⟩ := step_socketError.mp h
    rfl
  | close =>
    obtain rfl := Option.some.inj h
    rfl
  | closeAllSettles k resolved =>
    obtain ⟨_, -, -, -, rfl⟩ := step_closeAllSettles.mp h
    unfold closeAllSettles
    split <;> rfl

theorem Stems.step (hwell : w.WellFormed) (hw : w.Stems texts) (h : w.step a = some t) :
    t.Stems (texts ++ a.text?.toList) where
  length := by rw [requests_length_step h, hw.length, List.length_append]
  stages := hw.stages_step hwell h
  opened _ _ hid := hw.opened_step h hid
  responses := hw.responses_step h
  events s m hsent := by
    have hgrows := grows_step h
    have hold (hsent : .event s m ∈ w.sent) : ∃ id e, (id, s) ∈ t.opened ∧
        m = createJsonRpcSuccessResponse id.value (some (.object [(js "event", e)])) := by
      obtain ⟨id, e, hid, hm⟩ := hw.events s m hsent
      exact ⟨id, e, hgrows.opened hid, hm⟩
    rcases sends_step h with hsame | ⟨frame, hsends, happend⟩
    · exact hold (hsame ▸ hsent)
    rcases List.mem_append.mp (happend ▸ hsent) with hmem | hnew
    · exact hold hmem
    · obtain rfl := List.mem_singleton.mp hnew
      cases hsends with
      | event ha hid hopen => exact ⟨_, _, hgrows.opened hid, rfl⟩

/-! ## One response for a request -/

theorem mem_responses {m : Json} : m ∈ w.responses i ↔ .response i m ∈ w.sent := by
  refine ⟨fun h => ?_, fun h => List.mem_filterMap.mpr ⟨_, h, by simp [Frame.responseTo?]⟩⟩
  obtain ⟨frame, hsent, hframe⟩ := List.mem_filterMap.mp h
  cases frame with
  | event => cases hframe
  | response j m' =>
    obtain ⟨rfl, hm⟩ := Option.ite_none_right_eq_some.mp hframe
    exact Option.some.inj hm ▸ hsent

/-- A request has no response until it is finished, and then one at most. -/
def AnswersOnce (w : Connection) : Prop :=
  ∀ (i : ℕ) (stage : Stage), w.requests[i]? = some stage →
    (w.responses i).length ≤ if stage.isFinished then 1 else 0

theorem AnswersOnce.step (hw : w.AnswersOnce) (hreceived : w.RespondsToReceived)
    (h : w.step a = some t) : t.AnswersOnce := by
  intro j stage hj
  by_cases ha : a.request? = some j
  swap
  · cases hold : w.requests[j]? with
    | some old =>
      obtain ⟨hsame, hresponses⟩ := unmoved hold ha h
      obtain rfl := Option.some.inj (hsame.symm.trans hj)
      exact hresponses ▸ hw j old hold
    | none =>
      have hlength := List.getElem?_eq_none_iff.mp hold
      cases progress h with
      | received new frames requests _ _ sent answer =>
        rw [requests] at hj
        rcases Numbered.getElem?_append_singleton hj with hcurrent | ⟨rfl, rfl⟩
        · simp [hold] at hcurrent
        · have hnone := hreceived.responses_eq_nil
          rcases answer with ⟨rfl, m, rfl⟩ | ⟨-, rfl⟩
          · have hone : t.responses w.requests.length = [m] := by
              rw [responses, sent, List.filterMap_append]
              exact congrArg (· ++ _) hnone |>.trans (by simp [Frame.responseTo?])
            simp [hone, Stage.isFinished]
          · have hzero : t.responses w.requests.length = [] := by
              rw [responses, sent, List.append_nil]
              exact hnone
            simp [hzero]
      | advanced i old new id frames _ current _ requests =>
        rw [requests, getElem?_advance current] at hj
        split_ifs at hj with heq
        · subst heq
          simp [hold] at current
        · simp [hold] at hj
      | kept _ requests => simp [requests, hold] at hj
  · cases progress h with
    | received _ _ requests =>
      have hlength := requests_length_step h
      have htext : a.text? = none := by
        cases a with
        | message => cases ha
        | _ => rfl
      simp [requests, htext] at hlength
    | advanced i old new id frames acts current unfinished requests _ _ _ _ sent answer =>
      obtain rfl : i = j := Option.some.inj (acts.symm.trans ha)
      have hnone : w.responses i = [] := by
        have hle := hw i old current
        rw [unfinished, if_neg (by simp)] at hle
        exact List.length_eq_zero_iff.mp (Nat.le_zero.mp hle)
      rw [requests, getElem?_advance current, if_pos rfl] at hj
      obtain rfl := Option.some.inj hj
      rcases answer with ⟨rfl, m, rfl⟩ | ⟨-, rfl⟩
      · have hone : t.responses i = [m] := by
          rw [responses, sent, List.filterMap_append]
          exact congrArg (· ++ _) hnone |>.trans (by simp [Frame.responseTo?])
        simp [hone, Stage.isFinished]
      · have hzero : t.responses i = [] := by
          rw [responses, sent, List.append_nil]
          exact hnone
        simp [hzero]
    | kept idle => simp [ha] at idle

/-- The response to a request is the only one. -/
theorem AnswersOnce.eq_of_mem (hw : w.AnswersOnce) (hreceived : w.RespondsToReceived) {m m' : Json}
    (hm : .response i m ∈ w.sent) (hm' : .response i m' ∈ w.sent) : m = m' := by
  obtain ⟨stage, hstage⟩ : ∃ stage, w.requests[i]? = some stage :=
    ⟨_, List.getElem?_eq_getElem (hreceived i m hm)⟩
  have hle : (w.responses i).length ≤ 1 := by
    have hbound := hw i stage hstage
    split_ifs at hbound <;> omega
  have hfirst := mem_responses.mpr hm
  have hsecond := mem_responses.mpr hm'
  rcases hresponses : w.responses i with _ | ⟨m₀, _ | ⟨_, _⟩⟩
  · simp [hresponses] at hfirst
  · rw [hresponses, List.mem_singleton] at hfirst hsecond
    rw [hfirst, hsecond]
  · simp [hresponses] at hle

/-! ## Runs -/

theorem stems_new : new.Stems [] where
  length := rfl
  stages := by simp [new]
  opened := by simp [new]
  responses := by simp [new]
  events := by simp [new]

/-- The texts that a list of actions brings. -/
def textsOf (as : List Action) : List JsString := as.filterMap Action.text?

theorem textsOf_append (as : List Action) (a : Action) :
    textsOf (as ++ [a]) = textsOf as ++ a.text?.toList := by
  cases h : a.text? <;> simp [textsOf, h]

theorem stems_run {as : List Action} (h : run step new as = some w) : w.Stems (textsOf as) :=
  run_history (I := fun past w => w.Stems (textsOf past))
    (fun past _ a _ hpast hw hstep =>
      textsOf_append past a ▸ hw.step (wellFormed_run hpast) hstep) stems_new h

/-- A frame about a subscription was asked for: an event is sent under the id that the request of
its subscription named. A response is one to the text of its request, and when it says that a
subscription was closed, the `close` function of a subscription that was opened under the id in the
text has been called, and no event of that subscription stands behind the response. -/
theorem frames_stem {as : List Action} (h : run step new as = some w) :
    (∀ s m, .event s m ∈ w.sent → ∃ data request e, (textsOf as)[s]? = some data ∧
      Json.parse data = some request ∧ AsksToSubscribe request ∧ MethodIn processMethods request ∧
      m = createJsonRpcSuccessResponse ((request.own (js "subscription")).readOptional "id")
        (some (.object [(js "event", e)]))) ∧
    ∀ front i m back, w.sent = front ++ .response i m :: back →
      ∃ data, (textsOf as)[i]? = some data ∧ ∀ request, Json.parse data = some request →
        w.AnswerTo i request m back := by
  have hstems := stems_run h
  refine ⟨fun s m hsent => ?_, hstems.responses⟩
  obtain ⟨id, e, hid, hm⟩ := hstems.events s m hsent
  obtain ⟨data, request, hdata, hparse, rfl, hasks, hmethod⟩ := hstems.opened id s hid
  exact ⟨data, request, e, hdata, hparse, hasks, hmethod, hm⟩

/-- A subscription is opened, sends an event and is closed. -/
def openedAndClosed : List Action :=
  [.message subscribeFrame host, .handle 0 host, .dwnSettles 0 opens host, .event 0 .null,
    .message closeFrame host, .handle 1 host, .closeSettles 1 (.ok ()) host, .respond 1, .respond 0]

theorem frames_stem_closed : ∃ w, run step new openedAndClosed = some w ∧ ∃ front m back,
    w.sent = front ++ .response 1 m :: back ∧ ∃ data, (textsOf openedAndClosed)[1]? = some data ∧
      ∀ request, Json.parse data = some request → w.AnswerTo 1 request m back := by
  obtain ⟨w, hrun, hlength⟩ : ∃ w, run step new openedAndClosed = some w ∧
      (w.responses 1).length = 1 := by
    apply exists_of_run
    simp only [openedAndClosed, subscribeFrame, closeFrame, js_append]
    decide +kernel
  obtain ⟨m, hm⟩ := List.length_eq_one_iff.mp hlength
  obtain ⟨front, back, hsplit⟩ :=
    List.append_of_mem (mem_responses.mp (hm ▸ List.mem_singleton_self m))
  exact ⟨w, hrun, front, m, back, hsplit, (frames_stem hrun).2 front 1 m back hsplit⟩

end Connection

end DwnServer
