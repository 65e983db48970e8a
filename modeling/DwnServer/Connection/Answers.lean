import DwnServer.Connection.Subscriptions
import DwnServer.JsonRpc.Answers

/-!
# Which frames a connection answers

`WsAnswerable` is a condition on the text of a frame alone. `Explained` follows the
request of one frame through its stages: it says what the text must be like for the
request to have come that far, and that, at the end, the responses sent for it answer it
exactly if its text is answerable.
-/
namespace DwnServer

open Transition

/-- The requests that are answered over a WebSocket. -/
def WsAnswers (request : Json) : Prop :=
  ∃ method, ContextBuilds request method ∧
    (method ∈ processMethods ∧ (request.own (js "params")).isNullish = false ∧
        IdSerialises request ∨
      method = closeMethod ∧ CloseReadable request ∧ IdSerialises request ∨
      method = js "constructor" ∧ EchoesError request)

/-- The frames that are answered. -/
def WsAnswerable (data : JsString) : Prop :=
  ∀ request, Json.parse data = some request → WsAnswers request

theorem wsAnswers_iff {request : Json} {method : JsString} (h : ContextBuilds request method) :
    WsAnswers request ↔
      method ∈ processMethods ∧ (request.own (js "params")).isNullish = false ∧
          IdSerialises request ∨
        method = closeMethod ∧ CloseReadable request ∧ IdSerialises request ∨
        method = js "constructor" ∧ EchoesError request := by
  refine ⟨fun ⟨method', h', hanswers⟩ => ?_, fun hanswers => ⟨method, h, hanswers⟩⟩
  obtain rfl : method' = method := by simpa using h'.isMethod.symm.trans h.isMethod
  exact hanswers

/-! ## One frame through its stages -/

/-- The awaits that are still ahead of a request. -/
def Stage.ahead : Stage → ℕ
  | .contextBuilt _ _ => 3
  | .processing _ _ _ _ | .closing _ _ _ _ => 2
  | .handled _ _ => 1
  | .answered | .threw => 0

inductive Explained (data : JsString) : Stage → List Json → Prop
  | contextBuilt {request : Json} {context : RequestContext} {method : JsString}
      (hparse : Json.parse data = some request) (builds : ContextBuilds request method) :
      Explained data (.contextBuilt request context) []
  | processing {request : Json} {context : RequestContext} {host : Host} {call : DwnCall}
      (hparse : Json.parse data = some request)
      (hanswers : WsAnswers request ↔ IdSerialises request)
      (hwell : ¬Malformed request) :
      Explained data (.processing request context (requestId host request) call) []
  | closing {request : Json} {host : Host} {id : SubscriptionId} {subscription : ℕ}
      (hparse : Json.parse data = some request)
      (hanswers : WsAnswers request ↔ IdSerialises request)
      (hwell : ¬Malformed request) (hid : id.value.HasText) :
      Explained data (.closing request (requestId host request) id subscription) []
  | handled {request : Json} {response : HandlerResponse}
      (hparse : Json.parse data = some request)
      (hanswers : WsAnswers request ↔ ∃ m, response.jsonRpcResponse = some m ∧
        (∃ b, countRequest request (some m) = .ok b) ∧ Answered data [m]) :
      Explained data (.handled request response) []
  | answered {responses : List Json} (h : Answered data responses ↔ WsAnswerable data) :
      Explained data .answered responses
  | threw (h : ¬WsAnswerable data) : Explained data .threw []

variable {data : JsString} {request : Json} {method : JsString}

theorem wsAnswerable_iff (hparse : Json.parse data = some request) :
    WsAnswerable data ↔ WsAnswers request := by
  simp [WsAnswerable, hparse]

/-- A request that no branch of the condition covers is not answered. -/
theorem Explained.threw_of_not (hparse : Json.parse data = some request)
    (h : ¬WsAnswers request) : Explained data .threw [] :=
  .threw fun hanswerable => h ((wsAnswerable_iff hparse).mp hanswerable)

theorem Explained.error (hparse : Json.parse data = some request)
    (hmethod : JsValue.HasText (request.own (js "method")))
    (hanswers : WsAnswers request ↔ IdSerialises request) (host : Host) (code : JsonRpcErrorCodes)
    (text : JsString) : Explained data (.handled request
      (respond (createJsonRpcErrorResponse (requestId host request) code text))) [] := by
  refine .handled hparse (hanswers.trans ?_)
  rw [← answered_error hparse host code text]
  exact ⟨fun h => ⟨_, rfl, ⟨_, countRequest_error hmethod _ code text⟩, h⟩,
    fun ⟨m, hm, _, h⟩ => Option.some.inj hm ▸ h⟩

theorem Explained.success (hparse : Json.parse data = some request)
    (hanswers : WsAnswers request ↔ IdSerialises request) (hwell : ¬Malformed request)
    {host : Host} {result : JsValue} {dataStream : ResponseData} {b : Bool}
    (hcount : countRequest request
      (some (createJsonRpcSuccessResponse (requestId host request) result)) = .ok b) :
    Explained data (.handled request
      ⟨some (createJsonRpcSuccessResponse (requestId host request) result), dataStream⟩) [] := by
  refine .handled hparse (hanswers.trans ?_)
  rw [← answered_success hparse hwell host result]
  exact ⟨fun h => ⟨_, rfl, ⟨b, hcount⟩, h⟩, fun ⟨m, hm, _, h⟩ => Option.some.inj hm ▸ h⟩

/-! ## Routing -/

theorem wsAnswers_close (builds : ContextBuilds request closeMethod) :
    WsAnswers request ↔ CloseReadable request ∧ IdSerialises request := by
  rw [wsAnswers_iff builds]
  have hprocess : closeMethod ∉ processMethods := by decide
  have hconstructor : closeMethod ≠ js "constructor" := by decide
  simp [hprocess, hconstructor]

theorem wsAnswers_process (builds : ContextBuilds request method)
    (hmethod : method ∈ processMethods) :
    WsAnswers request ↔ (request.own (js "params")).isNullish = false ∧ IdSerialises request := by
  rw [wsAnswers_iff builds]
  have hclose : method ≠ closeMethod := by
    rintro rfl
    revert hmethod
    decide
  have hconstructor : method ≠ js "constructor" := by
    rintro rfl
    revert hmethod
    decide
  simp [hmethod, hclose, hconstructor]

namespace Connection

variable {w t : Connection} {i : ℕ} {host : Host} {context : RequestContext}

/-- A value without a text is an object or array, a reference of the request it is in. -/
theorem key_of_not_hasText {v : JsValue} (h : ¬v.HasText) :
    (SubscriptionId.of i v).key = .reference i := by
  rcases v with _ | ⟨_ | _ | _ | _ | _ | _⟩
  case some.array | some.object => rfl
  all_goals exact absurd ⟨_, rfl⟩ h

theorem eq_of_key_reference {s : ℕ} {v : JsValue} (h : (SubscriptionId.of s v).key = .reference i) :
    s = i := by
  simp only [SubscriptionId.of, SubscriptionKey.ofId] at h
  split at h <;> first | exact SubscriptionKey.reference.inj h | cases h

/-- No other request has put a reference of this one into the map. -/
theorem hasText_of_held (hw : w.WellFormed)
    (hi : w.requests[i]? = some (.contextBuilt request context)) {v : JsValue} {subscription : ℕ}
    (hheld : w.state.subscriptions.get? (SubscriptionId.of i v).key = some subscription) :
    v.HasText := by
  by_contra htext
  rw [key_of_not_hasText htext] at hheld
  obtain ⟨id, hopened, hkey⟩ := hw.registry.held _ _ hheld
  obtain ⟨v', hid⟩ : ∃ v', id = .of subscription v' := hw.sound.opened _ hopened
  obtain rfl := eq_of_key_reference (hid ▸ hkey)
  obtain ⟨stage, hstage, hreturned⟩ := hw.openers _ hopened
  obtain rfl := Option.some.inj (hi.symm.trans hstage)
  cases hreturned

theorem explained_close (hw : w.WellFormed)
    (hi : w.requests[i]? = some (.contextBuilt request context))
    (hparse : Json.parse data = some request) (builds : ContextBuilds request closeMethod) :
    Explained data (w.route i request context host) [] := by
  have htext : (request.own (js "method")).toText (C := DwnServerErrorCode) = .ok closeMethod := by
    rw [builds.isMethod]
    rfl
  have hanswers := wsAnswers_close builds
  rw [route, route_of_method (JsValue.isNullish_of_own builds.isMethod) htext, if_pos rfl]
  dsimp only
  rcases handleSubscriptionsClose_outcome host i request w.state with
    ⟨code, text, h, hreadable⟩ | ⟨v, subscription, h, hheld, hreadable⟩ | ⟨e, h, hreadable⟩ <;>
    rw [h]
  · exact .error hparse ⟨_, htext⟩ (by simp [hanswers, hreadable]) host code text
  · have hid := hasText_of_held hw hi hheld
    exact .closing hparse (by simp [hanswers, hreadable hid]) (not_malformed_close htext rfl) hid
  · exact .threw_of_not hparse (by simp [hanswers, hreadable])

theorem explained_process (hparse : Json.parse data = some request)
    (builds : ContextBuilds request method) (hmethod : method ∈ processMethods) :
    Explained data (w.route i request context host) [] := by
  have htext : (request.own (js "method")).toText (C := DwnServerErrorCode) = .ok method := by
    rw [builds.isMethod]
    rfl
  have hanswers := wsAnswers_process builds hmethod
  have hclose : method ≠ closeMethod := by
    rintro rfl
    revert hmethod
    decide
  rw [route, route_of_method (JsValue.isNullish_of_own builds.isMethod) htext, if_neg hclose,
    if_pos hmethod]
  dsimp only
  rw [handleDwnProcessMessage_eq]
  by_cases hparams : (request.own (js "params")).isNullish = true
  · simp only [hparams, if_true]
    exact .threw_of_not hparse (by simp [hanswers, hparams])
  · have hid : WsAnswers request ↔ IdSerialises request := by simp [hanswers, hparams]
    have hmethodText : JsValue.HasText (request.own (js "method")) := ⟨_, htext⟩
    simp only [hparams, Bool.false_eq_true, if_false]
    cases hguard : guardedProcessMessage (requestId host request) context (some w.state)
        ((request.own (js "params")).readOptional "target")
        ((request.own (js "params")).readOptional "message") with
    | error e => exact .error hparse hmethodText hid host _ _
    | ok start =>
      rcases guardedProcessMessage_ok hguard with ⟨code, text, rfl⟩ | ⟨hdescriptor, rfl⟩
      · exact .error hparse hmethodText hid host code text
      · exact .processing hparse hid (not_malformed_process htext hmethod hdescriptor)

theorem explained_route (hw : w.WellFormed)
    (hi : w.requests[i]? = some (.contextBuilt request context))
    (hparse : Json.parse data = some request) (builds : ContextBuilds request method) :
    Explained data (w.route i request context host) [] := by
  by_cases hclose : method = closeMethod
  · subst hclose
    exact explained_close hw hi hparse builds
  by_cases hprocess : method ∈ processMethods
  · exact explained_process hparse builds hprocess
  have htext : (request.own (js "method")).toText (C := DwnServerErrorCode) = .ok method := by
    rw [builds.isMethod]
    rfl
  have hanswers : WsAnswers request ↔ method = js "constructor" ∧ EchoesError request := by
    simp [wsAnswers_iff builds, hclose, hprocess]
  have hmalformed : Malformed request := by
    refine Or.inr (Or.inl ?_)
    simp [methodIn_iff htext, hclose, hprocess]
  rw [route, route_of_method (JsValue.isNullish_of_own builds.isMethod) htext, if_neg hclose,
    if_neg hprocess]
  have hclosed : method ∉ objectPrototypeFunctions → ¬WsAnswers request := by
    intro hnot hws
    refine hnot ?_
    rw [(hanswers.mp hws).1]
    decide
  split_ifs with hinherited
  · rcases callInherited_cases method request with
      ⟨hname, hcall⟩ | ⟨hname, ⟨response, hnone, hcall⟩ | ⟨e, hcall⟩⟩ <;> rw [hcall]
    · refine .handled hparse (hanswers.trans ?_)
      simp only [hname, true_and]
      constructor
      · rintro ⟨r, hr, herror, hid⟩
        exact ⟨r, hr, ⟨true, countRequest_echo ⟨_, htext⟩ herror⟩,
          (answered_echo hparse hmalformed hr).mpr ⟨r, hr, herror, hid⟩⟩
      · rintro ⟨r, hr, -, hanswered⟩
        exact (answered_echo hparse hmalformed hr).mp hanswered
    · refine .handled hparse ⟨fun h => absurd (hanswers.mp h).1 hname, ?_⟩
      rintro ⟨m, hm, -⟩
      simp [hnone] at hm
    · exact .threw_of_not hparse fun h => hname (hanswers.mp h).1
  · exact .threw_of_not hparse (hclosed hinherited)

/-! ## Runs -/

/-- The end of the close handler and of the message handler answer a sound request. -/
theorem explained_dwnSettles {requestId' : Json} {call : DwnCall} {outcome : DwnOutcome}
    (hmethod : JsValue.HasText (request.own (js "method")))
    (h : Explained data (.processing request context requestId' call) []) :
    Explained data (.handled request
      (finishProcessMessage host requestId' context (some w.state) i outcome).1) [] := by
  cases h with
  | processing hparse hanswers hwell =>
    rename_i host'
    rcases finishProcessMessage_response host (requestId host' request) context (some w.state) i
      outcome with ⟨text, h⟩ | ⟨reply, -, h⟩ <;> rw [h]
    · exact .error hparse hmethod hanswers host' _ text
    · exact .success hparse hanswers hwell (countRequest_processed hmethod _ reply)

theorem explained_closeSettles {requestId' : Json} {id : SubscriptionId} {subscription : ℕ}
    {outcome : Except JsString Unit} (hmethod : JsValue.HasText (request.own (js "method")))
    (h : Explained data (.closing request requestId' id subscription) []) :
    Explained data (.ofResponse request
      (finishSubscriptionsClose host requestId' id w.state outcome).1) [] := by
  cases h with
  | closing hparse hanswers hwell hid =>
    rename_i host'
    cases outcome with
    | ok _ => exact .success hparse hanswers hwell (countRequest_closed hmethod _)
    | error message =>
      obtain ⟨code, text, hfailed⟩ :=
        closeFailed_of_hasText hid host (requestId host' request) (.foreign message)
      simp only [finishSubscriptionsClose, hfailed, Stage.ofResponse]
      exact .error hparse hmethod hanswers host' code text

theorem explained_respond {response : HandlerResponse} {stage : Stage}
    (hi : w.requests[i]? = some stage) (hresponses : w.responses i = [])
    (h : Explained data (.handled request response) []) :
    ∃ stage', (w.respond i request response).requests[i]? = some stage' ∧
      Explained data stage' ((w.respond i request response).responses i) := by
  cases h with
  | handled hparse hanswers =>
    rw [← wsAnswerable_iff hparse] at hanswers
    unfold respond
    split
    · rename_i message b hmessage hcount
      refine ⟨.answered, requests_setStage_self hi _, ?_⟩
      have hsent : ((w.setStage i .answered).send (.response i message)).responses i =
          [message] := by
        simpa [responses, send, setStage, Frame.responseTo?] using hresponses
      rw [hsent]
      refine .answered ⟨fun h => hanswers.mpr ⟨message, hmessage, ⟨b, hmessage ▸ hcount⟩, h⟩,
        fun h => ?_⟩
      obtain ⟨m, hm, -, hanswered⟩ := hanswers.mp h
      exact Option.some.inj (hmessage.symm.trans hm) ▸ hanswered
    · rename_i hnone
      refine ⟨.threw, requests_setStage_self hi _, ?_⟩
      have hsent : (w.setStage i .threw).responses i = [] := hresponses
      rw [hsent]
      refine .threw fun h => ?_
      obtain ⟨m, hm, ⟨b, hb⟩, -⟩ := hanswers.mp h
      exact hnone m b hm (hm ▸ hb)

/-- Every step keeps the request of a frame explained. -/
theorem explained_step {a : Action} (hw : w.WellFormed) {stage : Stage}
    (hi : w.requests[i]? = some stage) (hex : Explained data stage (w.responses i))
    (h : w.step a = some t) :
    ∃ stage', t.requests[i]? = some stage' ∧ Explained data stage' (t.responses i) := by
  by_cases ha : a.request? = some i
  swap
  · obtain ⟨hstage, hresponses⟩ := unmoved hi ha h
    exact ⟨stage, hstage, hresponses ▸ hex⟩
  have hsound := hw.sound.requests i stage hi
  generalize hresponses : w.responses i = rs at hex
  cases a <;> simp only [Action.request?, Option.some.injEq, reduceCtorEq] at ha <;> subst ha
  case handle i host =>
    obtain ⟨request, context, hi', rfl⟩ := step_handle.mp h
    obtain rfl := Option.some.inj (hi.symm.trans hi')
    cases hex with
    | contextBuilt hparse builds =>
      have hroute : Explained data (w.route i request context host) [] :=
        explained_route hw hi hparse builds
      exact ⟨_, requests_setStage_self hi _, hresponses ▸ hroute⟩
  case dwnSettles i outcome host =>
    obtain ⟨request, context, requestId, call, hi', -, rfl⟩ := step_dwnSettles.mp h
    obtain rfl := Option.some.inj (hi.symm.trans hi')
    have hrs : rs = [] := by cases hex; rfl
    subst hrs
    exact ⟨_, requests_setStage_self hi _, hresponses ▸ explained_dwnSettles hsound.1 hex⟩
  case closeSettles i outcome host =>
    obtain ⟨request, requestId, id, subscription, hi', rfl⟩ := step_closeSettles.mp h
    obtain rfl := Option.some.inj (hi.symm.trans hi')
    have hrs : rs = [] := by cases hex; rfl
    subst hrs
    exact ⟨_, requests_setStage_self hi _, hresponses ▸ explained_closeSettles hsound hex⟩
  case respond i =>
    obtain ⟨request, response, hi', rfl⟩ := step_respond.mp h
    obtain rfl := Option.some.inj (hi.symm.trans hi')
    have hrs : rs = [] := by cases hex; rfl
    subst hrs
    exact explained_respond hi hresponses hex

/-- The responses sent so far belong to requests received so far. -/
def RespondsToReceived (w : Connection) : Prop :=
  ∀ i message, .response i message ∈ w.sent → i < w.requests.length

theorem RespondsToReceived.step {a : Action} (hw : w.RespondsToReceived) (h : w.step a = some t) :
    t.RespondsToReceived := by
  intro j message hsent
  cases progress h with
  | received stage frames requests _ _ sent answer =>
    rw [requests, List.length_append]
    rcases List.mem_append.mp (sent ▸ hsent) with hold | hnew
    · exact Nat.lt_add_right _ (hw j message hold)
    · rcases answer with ⟨-, m, rfl⟩ | ⟨-, rfl⟩
      · obtain ⟨rfl, rfl⟩ := Frame.response.inj (List.mem_singleton.mp hnew)
        simp
      · cases hnew
  | advanced i old new id frames _ current _ requests _ _ _ _ sent answer =>
    rw [requests, List.length_set]
    rcases List.mem_append.mp (sent ▸ hsent) with hold | hnew
    · exact hw j message hold
    · rcases answer with ⟨-, m, rfl⟩ | ⟨-, rfl⟩
      · obtain ⟨rfl, rfl⟩ := Frame.response.inj (List.mem_singleton.mp hnew)
        exact (List.getElem?_eq_some_iff.mp current).1
      · cases hnew
  | kept _ requests _ sent =>
    rw [requests]
    rcases sent with sent | ⟨id, s, e, -, sent⟩
    · exact hw j message (sent ▸ hsent)
    · refine hw j message ?_
      simpa [sent] using hsent

theorem RespondsToReceived.responses_eq_nil (hw : w.RespondsToReceived) :
    w.responses w.requests.length = [] := by
  refine List.filterMap_eq_nil_iff.mpr fun frame hframe => ?_
  cases frame with
  | event s message => rfl
  | response j message =>
    simp [Frame.responseTo?, (hw j message hframe).ne]

theorem explained_message (hw : w.RespondsToReceived) (data : JsString) (host : Host) :
    ∃ stage, (w.message data host).requests[w.requests.length]? = some stage ∧
      Explained data stage ((w.message data host).responses w.requests.length) := by
  have hnone := hw.responses_eq_nil
  have hrefuse (text : JsString) (hparse : Json.parse data = none) :
      ∃ stage, (w.refuse host text).requests[w.requests.length]? = some stage ∧
        Explained data stage ((w.refuse host text).responses w.requests.length) := by
    refine ⟨.answered, by simp [refuse, receive, send], ?_⟩
    have hresponses : (w.refuse host text).responses w.requests.length =
        [createJsonRpcErrorResponse (some (.string host.uuid)) .badRequest text] := by
      simpa [responses, refuse, receive, send, Frame.responseTo?] using hnone
    rw [hresponses]
    exact .answered ⟨fun _ => by simp [WsAnswerable, hparse],
      fun _ => answered_of_unparsed hparse _ _ _⟩
  unfold message
  split_ifs with hempty
  · exact hrefuse _ (by rw [hempty]; rfl)
  cases hparse : Json.parse data with
  | none => exact hrefuse _ hparse
  | some request =>
    dsimp only
    have hbuilds := buildRequestContext_isOk w.requests.length request
    cases hcontext : buildRequestContext w.requests.length request with
    | error e =>
      refine ⟨.threw, by simp [receive], ?_⟩
      have hresponses : (w.receive .threw).responses w.requests.length = [] := hnone
      rw [hresponses]
      refine .threw_of_not hparse fun hanswers => ?_
      obtain ⟨method, builds, -⟩ := hanswers
      obtain ⟨context, hok⟩ := hbuilds.mpr ⟨method, builds⟩
      rw [hcontext] at hok
      cases hok
    | ok context =>
      obtain ⟨method, builds⟩ := hbuilds.mp ⟨context, hcontext⟩
      refine ⟨.contextBuilt request context, by simp [receive], ?_⟩
      have hresponses : (w.receive (.contextBuilt request context)).responses w.requests.length =
          [] := hnone
      rw [hresponses]
      exact .contextBuilt hparse builds

theorem respondsToReceived_run {as : List Action} (h : run step new as = some w) :
    w.RespondsToReceived :=
  run_invariant (fun _ _ _ hw hstep => hw.step hstep) (by simp [RespondsToReceived, new]) h

theorem wellFormed_run {as : List Action} (h : run step new as = some w) : w.WellFormed :=
  run_invariant (fun _ _ _ hw hstep => hw.step hstep) wellFormed_new h

/-- Once the handling of a frame has ended, its responses answer it exactly if its text is
answerable. -/
theorem answered_iff_wsAnswerable {as as' : List Action} (hbefore : run step new as = some w)
    (hlistening : w.listening = true) (hafter : run step (w.message data host) as' = some t)
    {stage : Stage} (hstage : t.requests[w.requests.length]? = some stage)
    (hfinished : stage.isFinished = true) :
    Answered data (t.responses w.requests.length) ↔ WsAnswerable data := by
  have hreceived : (w.message data host).WellFormed :=
    (wellFormed_run hbefore).step (step_message.mpr ⟨hlistening, rfl⟩)
  obtain ⟨-, stage', hstage', hex⟩ := run_invariant
    (I := fun u => u.WellFormed ∧ ∃ stage, u.requests[w.requests.length]? = some stage ∧
      Explained data stage (u.responses w.requests.length))
    (fun u a v hu h => by
      obtain ⟨hwell, stage, hstage, hex⟩ := hu
      exact ⟨hwell.step h, explained_step hwell hstage hex h⟩)
    ⟨hreceived, explained_message (respondsToReceived_run hbefore) data host⟩ hafter
  obtain rfl := Option.some.inj (hstage.symm.trans hstage')
  generalize t.responses w.requests.length = rs at hex
  cases hex with
  | answered h => exact h
  | threw h =>
    exact ⟨fun hanswered => absurd hanswered (not_answered_nil data), fun hws => absurd hws h⟩
  | _ => cases hfinished

/-! ## Every frame can be handled to its end -/

theorem ahead_route : (w.route i request context host).ahead < 3 := by
  unfold route
  split
  · decide
  · simp [Stage.ahead]
  · split <;> simp [Stage.ahead]
  · split <;> simp [Stage.ahead]

/-- The handling of an unfinished request goes on, once the DWN or a `close` function
settles where it waits for one. -/
theorem exists_step_of_unfinished {stage : Stage} (hi : w.requests[i]? = some stage)
    (h : stage.isFinished = false) :
    ∃ a t stage', w.step a = some t ∧ t.requests[i]? = some stage' ∧
      stage'.ahead < stage.ahead := by
  cases stage with
  | contextBuilt request context =>
    exact ⟨.handle i ⟨[], []⟩, _, _, step_handle.mpr ⟨request, context, hi, rfl⟩,
      requests_setStage_self hi _, ahead_route⟩
  | processing request context requestId call =>
    exact ⟨.dwnSettles i (.error []) ⟨[], []⟩, _, _,
      step_dwnSettles.mpr ⟨request, context, requestId, call, hi, rfl, rfl⟩,
      requests_setStage_self hi _, by simp [Stage.ahead]⟩
  | closing request requestId id subscription =>
    exact ⟨.closeSettles i (.ok ()) ⟨[], []⟩, _, _,
      step_closeSettles.mpr ⟨request, requestId, id, subscription, hi, rfl⟩,
      requests_setStage_self hi _, by simp [Stage.ahead, Stage.ofResponse]⟩
  | handled request response =>
    refine ⟨.respond i, w.respond i request response, ?_⟩
    have hstep := step_respond.mpr ⟨request, response, hi, rfl⟩
    unfold respond at hstep ⊢
    split at hstep
    · exact ⟨.answered, hstep, requests_setStage_self hi _, by simp [Stage.ahead]⟩
    · exact ⟨.threw, hstep, requests_setStage_self hi _, by simp [Stage.ahead]⟩
  | answered | threw => cases h

/-- The handling of every frame can end. -/
theorem exists_run_to_finished {stage : Stage} (hi : w.requests[i]? = some stage) :
    ∃ as t stage', run step w as = some t ∧ t.requests[i]? = some stage' ∧
      stage'.isFinished = true := by
  induction hn : stage.ahead using Nat.strong_induction_on generalizing w stage with
  | _ n ih =>
    cases hfinished : stage.isFinished with
    | true => exact ⟨[], w, stage, rfl, hi, hfinished⟩
    | false =>
      obtain ⟨a, u, stage', hstep, hstage', hless⟩ := exists_step_of_unfinished hi hfinished
      obtain ⟨as, t, stage'', hrun, hstage'', hfinished'⟩ := ih _ (hn ▸ hless) hstage' rfl
      exact ⟨a :: as, t, stage'', by simp [hstep, hrun], hstage'', hfinished'⟩


end Connection

end DwnServer
