import DwnServer.Connection.Answers
import DwnServer.Connection.Cleanup
import Mathlib.Data.Set.Insert

/-!
# Requests that are handled one after another

When every handler has finished before the next message is read, a connection with its two
handlers is a machine whose state is the set of live subscription ids. `LiveIds` is that
machine; `serve` takes one request of the connection to its end, with whatever the DWN and
the `close` function of a subscription come to.
-/
namespace LiveIds

variable {κ : Type*}

/-- What a call of the DWN comes to; the replies are told apart by whether a subscription
comes with them. -/
inductive Outcome where
  | threw
  | replied
  | opened
  deriving DecidableEq

/-- A request, with what comes of the call it makes. -/
inductive Exchange (κ : Type*) where
  | refused
  | process (outcome : Outcome)
  | subscribe (x : κ) (outcome : Outcome)
  | close (x : κ) (resolved : Bool)
  deriving DecidableEq

/-- The live ids after a request. -/
def next (live : Set κ) : Exchange κ → Set κ
  | .subscribe x .opened => insert x live
  | .close x true => live \ {x}
  | _ => live

/-- The request is answered with an error. -/
def Fails (live : Set κ) : Exchange κ → Prop
  | .refused => True
  | .process outcome => outcome = .threw
  | .subscribe x outcome => x ∈ live ∨ outcome = .threw
  | .close x resolved => x ∉ live ∨ resolved = false

variable {live : Set κ} {x : κ} {e : Exchange κ}

theorem becomes_live (h : x ∉ live) : x ∈ next live e ↔ e = .subscribe x .opened := by
  rcases e with _ | _ | ⟨y, _ | _ | _⟩ | ⟨y, _ | _⟩ <;> simp [next, h, eq_comm]

theorem next_of_live (h : x ∈ live) (outcome : Outcome) :
    next live (.subscribe x outcome) = live := by
  cases outcome <;> simp [next, h]

theorem stops_being_live (h : x ∈ live) : x ∉ next live e ↔ e = .close x true := by
  rcases e with _ | _ | ⟨y, _ | _ | _⟩ | ⟨y, _ | _⟩ <;> simp [next, h, eq_comm]

end LiveIds

namespace DwnServer

open Transition

/-- A message to be handled, with what the calls that its handler may wait for come to: one
of the DWN, and one of the `close` function of a subscription. -/
structure Exchange where
  data : JsString
  host : Host
  outcome : DwnOutcome
  closed : Except JsString Unit

/-- What takes the handling of request `i` further. -/
def Exchange.next (e : Exchange) (i : ℕ) : Stage → Option Action
  | .contextBuilt _ _ => some (.handle i e.host)
  | .processing _ _ _ _ => some (.dwnSettles i e.outcome e.host)
  | .closing _ _ _ _ => some (.closeSettles i e.closed e.host)
  | .handled _ _ => some (.respond i)
  | .answered | .threw => none

/-- A request with a registered method, params with a message that has a descriptor, and the
subscription to close where it is to close one. -/
structure WellFormedRequest (request : Json) : Prop where
  method : ∃ name ∈ closeMethod :: processMethods, request.own (js "method") = some (.string name)
  params : ∃ members, request.own (js "params") = some (.object members)
  descriptor : (messageDescriptor request).isNullish = false
  subscription : request.own (js "method") = some (.string closeMethod) →
    ∃ members, request.own (js "subscription") = some (.object members)

/-- The message is the text of a well-formed request. -/
def Exchange.IsWellFormed (e : Exchange) : Prop :=
  ∃ request, Json.parse e.data = some request ∧ WellFormedRequest request

/-- The id in the subscription member of request `i`. -/
def subscriptionIdOf (i : ℕ) (request : Json) : SubscriptionId :=
  .of i ((request.own (js "subscription")).readOptional "id")

/-- The request asks for messages as they come, and says which subscription they are for. -/
def asksForSubscription (request : Json) : Bool :=
  (request.own (js "method")).isText (js "rpc.subscribe.dwn.processMessage") &&
    (request.own (js "subscription")).truthy

def isRecordsWrite (descriptor : JsValue) : Bool :=
  (descriptor.readOptional "interface").isText (js "Records") &&
    (descriptor.readOptional "method").isText (js "Write")

def isSubscribe (descriptor : JsValue) : Bool :=
  (descriptor.readOptional "method").isText (js "Subscribe")

def liveOutcome : DwnOutcome → LiveIds.Outcome
  | .error _ => .threw
  | .ok reply => if reply.subscription then .opened else .replied

/-- What request `i` is to the machine of live ids. -/
def liveExchange (i : ℕ) (request : Json) (e : Exchange) : LiveIds.Exchange SubscriptionKey :=
  if (request.own (js "method")).isText closeMethod then
    .close (subscriptionIdOf i request).key e.closed.isOk
  else if isRecordsWrite (messageDescriptor request) then .refused
  else if isSubscribe (messageDescriptor request) then
    if asksForSubscription request then
      .subscribe (subscriptionIdOf i request).key (liveOutcome e.outcome)
    else .refused
  else .process (liveOutcome e.outcome)

/-- A response with the request's own id, and with an error if the request failed. -/
def Answers (request : Json) (failed : Prop) (response : Json) : Prop :=
  (∀ id, ownId? request = some id → response.own (js "id") = some id) ∧
    ((response.own (js "error")).isSome = true ↔ failed)

namespace Connection

/-- The handling of request `i`, for as many actions as it takes. -/
def proceed (e : Exchange) (i : ℕ) : ℕ → Connection → Option Connection
  | 0, w => some w
  | n + 1, w =>
    match w.requests[i]?.bind (e.next i) with
    | none => some w
    | some a => (w.step a).bind (proceed e i n)

/-- A message is received and handled to the end. -/
def serve (w : Connection) (e : Exchange) : Option Connection :=
  (w.step (.message e.data e.host)).bind (proceed e w.requests.length 3)

def live (w : Connection) : Set SubscriptionKey := {x | w.state.subscriptions.has x = true}

def exchange (w : Connection) (e : Exchange) : LiveIds.Exchange SubscriptionKey :=
  (Json.parse e.data).elim .refused fun request => liveExchange w.requests.length request e

variable {w u t : Connection} {e : Exchange} {i n : ℕ} {request : Json} {stage : Stage}

/-! ## Handling a request is a run of the connection -/

theorem exists_run_of_proceed (h : w.proceed e i n = some t) :
    ∃ as, run step w as = some t ∧ ∀ a ∈ as, a.request? = some i := by
  induction n generalizing w with
  | zero => exact ⟨[], h, nofun⟩
  | succ n ih =>
    simp only [proceed] at h
    split at h
    · exact ⟨[], h, nofun⟩
    · rename_i a ha
      obtain ⟨u, hu, hrest⟩ := Option.bind_eq_some_iff.mp h
      obtain ⟨as, has, hall⟩ := ih hrest
      refine ⟨a :: as, by simp [hu, has], List.forall_mem_cons.mpr ⟨?_, hall⟩⟩
      obtain ⟨stage, -, hnext⟩ := Option.bind_eq_some_iff.mp ha
      cases stage <;> cases hnext <;> rfl

theorem exists_run_of_serve (h : w.serve e = some t) :
    ∃ as, run step w (.message e.data e.host :: as) = some t ∧
      ∀ a ∈ as, a.request? = some w.requests.length := by
  obtain ⟨u, hu, hrest⟩ := Option.bind_eq_some_iff.mp h
  obtain ⟨as, has, hall⟩ := exists_run_of_proceed hrest
  exact ⟨as, by simp [hu, has], hall⟩

/-! ## One stage after another -/

/-- Only a new request, at this stage, sets `u` apart from `w` for the client. -/
structure At (w : Connection) (stage : Stage) (u : Connection) : Prop where
  requests : u.requests = w.requests ++ [stage]
  sent : u.sent = w.sent
  listening : u.listening = w.listening

theorem At.current (hu : At w stage u) : u.requests[w.requests.length]? = some stage := by
  rw [hu.requests, List.getElem?_concat_length]

theorem At.setStage (hu : At w stage u) (new : Stage) :
    (u.setStage w.requests.length new).requests = w.requests ++ [new] := by
  simp [Connection.setStage, hu.requests]

theorem proceed_next {a : Action} (hi : u.requests[i]? = some stage)
    (ha : e.next i stage = some a) : u.proceed e i (n + 1) = (u.step a).bind (proceed e i n) := by
  simp [proceed, hi, ha]

theorem proceed_finished (hi : u.requests[i]? = some stage) (hfinished : stage.isFinished = true) :
    u.proceed e i n = some u := by
  have hnext : e.next i stage = none := by
    cases stage <;> first | rfl | cases hfinished
  cases n with
  | zero => rfl
  | succ n => simp [proceed, hi, hnext]

/-- The request was handled to its end: the live ids are these, and there is one response,
which answers it, or the id of the subscription to close has no text. -/
structure Served (w : Connection) (request : Json) (live : Set SubscriptionKey) (failed : Prop)
    (t : Connection) : Prop where
  requests : ∃ stage, t.requests = w.requests ++ [stage] ∧ stage.isFinished = true
  listening : t.listening = w.listening
  live : t.live = live
  sent : (∃ r, t.sent = w.sent ++ [.response w.requests.length r] ∧ Answers request failed r) ∨
    t.sent = w.sent ∧ request.own (js "method") = some (.string closeMethod) ∧
      ¬((request.own (js "subscription")).readOptional "id").HasText

theorem served_of_handled {response : HandlerResponse} {r : Json} {live : Set SubscriptionKey}
    {failed : Prop} {b : Bool} (hu : At w (.handled request response) u) (hlive : u.live = live)
    (hr : response.jsonRpcResponse = some r) (hcount : countRequest request (some r) = .ok b)
    (hanswers : Answers request failed r) :
    ∃ t, u.proceed e w.requests.length (n + 1) = some t ∧ Served w request live failed t := by
  have hrespond : u.respond w.requests.length request response =
      (u.setStage w.requests.length .answered).send (.response w.requests.length r) := by
    simp [respond, hr, hcount]
  have hrequests := hu.setStage .answered
  refine ⟨(u.setStage w.requests.length .answered).send (.response w.requests.length r), ?_,
    ⟨⟨.answered, hrequests, rfl⟩, hu.listening, hlive, Or.inl ⟨r, ?_, hanswers⟩⟩⟩
  · have hfinished : ((u.setStage w.requests.length .answered).send
        (.response w.requests.length r)).requests[w.requests.length]? = some .answered := by
      rw [send, hrequests, List.getElem?_concat_length]
    rw [proceed_next hu.current rfl, step_respond.mpr ⟨request, response, hu.current, hrespond⟩]
    exact proceed_finished hfinished rfl
  · simp [send, Connection.setStage, hu.sent]

/-- A handler that cannot format the id of the subscription to close throws. -/
theorem served_of_threw {live : Set SubscriptionKey} {failed : Prop} (hu : At w .threw u)
    (hlive : u.live = live) (hmethod : request.own (js "method") = some (.string closeMethod))
    (htext : ¬((request.own (js "subscription")).readOptional "id").HasText) :
    ∃ t, u.proceed e w.requests.length n = some t ∧ Served w request live failed t :=
  ⟨u, proceed_finished hu.current rfl,
    ⟨⟨.threw, hu.requests, rfl⟩, hu.listening, hlive, Or.inr ⟨hu.sent, hmethod, htext⟩⟩⟩

theorem answers_error {host : Host} {failed : Prop} (hfailed : failed) (code : JsonRpcErrorCodes)
    (text : JsString) :
    Answers request failed (createJsonRpcErrorResponse (requestId host request) code text) := by
  refine ⟨fun id hid => ?_, by simp [hfailed]⟩
  rw [own_id_error, requestId_of_ownId hid]

theorem answers_success {host : Host} {failed : Prop} (hfailed : ¬failed) (result : JsValue) :
    Answers request failed (createJsonRpcSuccessResponse (requestId host request) result) := by
  refine ⟨fun id hid => ?_, by simp [hfailed]⟩
  rw [own_id_success, requestId_of_ownId hid]

theorem At.handle {context : RequestContext} (hu : At w (.contextBuilt request context) u)
    (host : Host) : At w (u.route w.requests.length request context host)
      (u.handle w.requests.length request context host) :=
  ⟨hu.setStage _, hu.sent, hu.listening⟩

theorem step_of_at {context : RequestContext} (hu : At w (.contextBuilt request context) u) :
    u.proceed e w.requests.length (n + 1) =
      (u.handle w.requests.length request context e.host).proceed e w.requests.length n := by
  rw [proceed_next hu.current rfl, step_handle.mpr ⟨request, context, hu.current, rfl⟩]
  rfl

/-! ## Closing a subscription -/

theorem live_delete (id : SubscriptionId) :
    {x | (w.state.deleteSubscription id).subscriptions.has x = true} = w.live \ {id.key} := by
  ext x
  exact OrderedMap.has_delete.trans and_comm

theorem live_eq (h : u.state = w.state) : u.live = w.live := by rw [live, h, live]

/-- The end of a close: the id stays live if the `close` function rejects. -/
theorem served_closeSettles {id : SubscriptionId} {subscription : ℕ}
    (hmethod : request.own (js "method") = some (.string closeMethod))
    (hid : id.value = (request.own (js "subscription")).readOptional "id")
    (hu : At w (.closing request (requestId e.host request) id subscription) u)
    (hstate : u.state = w.state) (hlive : id.key ∈ w.live) :
    ∃ t, u.proceed e w.requests.length (n + 2) = some t ∧
      Served w request (LiveIds.next w.live (.close id.key e.closed.isOk))
        (LiveIds.Fails w.live (.close id.key e.closed.isOk)) t := by
  have htext : JsValue.HasText (request.own (js "method")) := ⟨_, by rw [hmethod]; rfl⟩
  rw [proceed_next hu.current rfl,
    step_closeSettles.mpr ⟨request, _, id, subscription, hu.current, rfl⟩, Option.bind_some]
  have hv : At w (.ofResponse request (finishSubscriptionsClose e.host (requestId e.host request) id
        u.state e.closed).1)
      (u.closeSettles w.requests.length request (requestId e.host request) id subscription e.closed
        e.host) := ⟨hu.setStage _, hu.sent, hu.listening⟩
  cases hclosed : e.closed with
  | ok _ =>
    rw [hclosed] at hv
    refine served_of_handled hv ?_ rfl (countRequest_closed htext _) (answers_success ?_ _)
    · exact (congrArg
        (fun c => {x | (SocketConnection.deleteSubscription c id).subscriptions.has x = true})
        hstate).trans (live_delete id)
    · simp [LiveIds.Fails, hlive, Except.isOk, Except.toBool]
  | error message =>
    rw [hclosed] at hv
    by_cases htextId : id.value.HasText
    · obtain ⟨code, text, hfailed⟩ :=
        closeFailed_of_hasText htextId e.host (requestId e.host request) (.foreign message)
      rw [finishSubscriptionsClose, hfailed] at hv
      exact served_of_handled hv (live_eq hstate) rfl (countRequest_error htext _ code text)
        (answers_error (Or.inr rfl) code text)
    · obtain ⟨error, hfailed⟩ :=
        closeFailed_of_not_hasText htextId e.host (requestId e.host request) (.foreign message)
      rw [finishSubscriptionsClose, hfailed] at hv
      exact served_of_threw hv (live_eq hstate) hmethod (hid ▸ htextId)

theorem route_close {host : Host} {context : RequestContext} {subscription : Json}
    (hmethod : request.own (js "method") = some (.string closeMethod))
    (hsubscription : request.own (js "subscription") = some subscription)
    (hobject : subscription ≠ .null) :
    w.route i request context host =
      match w.state.closeSubscription (subscriptionIdOf i request) with
      | .ok closed => .closing request (requestId host request) (subscriptionIdOf i request) closed
      | .error error => .ofResponse request
          (closeFailed host (requestId host request) (subscriptionIdOf i request) error) := by
  have hroute : jsonRpcRouter.route request = .ok (.inl .handleSubscriptionsClose) := by
    rw [route_of_method (JsValue.isNullish_of_own hmethod) (by rw [hmethod]; rfl), if_pos rfl]
  have hid : subscriptionIdOf i request = .of i (subscription.own (js "id")) := by
    rw [subscriptionIdOf, hsubscription]
    rfl
  simp only [route, hroute, handleSubscriptionsClose_eq, hsubscription, if_neg hobject, hid]
  cases hclose : w.state.closeSubscription (.of i (subscription.own (js "id"))) with
  | ok closed => simp
  | error error =>
    simp only
    cases closeFailed host (requestId host request) (.of i (subscription.own (js "id"))) error <;>
      rfl

theorem served_close {context : RequestContext} (h : WellFormedRequest request)
    (hmethod : request.own (js "method") = some (.string closeMethod))
    (hu : At w (.contextBuilt request context) u) (hstate : u.state = w.state) :
    ∃ t, u.proceed e w.requests.length 3 = some t ∧
      Served w request
        (LiveIds.next w.live
          (.close (subscriptionIdOf w.requests.length request).key e.closed.isOk))
        (LiveIds.Fails w.live
          (.close (subscriptionIdOf w.requests.length request).key e.closed.isOk)) t := by
  obtain ⟨members, hsubscription⟩ := h.subscription hmethod
  have htext : JsValue.HasText (request.own (js "method")) := ⟨_, by rw [hmethod]; rfl⟩
  have hv := hu.handle e.host
  rw [step_of_at hu]
  rw [route_close hmethod hsubscription nofun, hstate] at hv
  cases hclose : w.state.closeSubscription (subscriptionIdOf w.requests.length request) with
  | ok closed =>
    rw [hclose] at hv
    have hlive : (subscriptionIdOf w.requests.length request).key ∈ w.live :=
      OrderedMap.has_iff.mpr ⟨closed, SocketConnection.closeSubscription_eq_ok.mp hclose⟩
    exact served_closeSettles hmethod rfl hv hstate hlive
  | error error =>
    rw [hclose] at hv
    have hdead : (subscriptionIdOf w.requests.length request).key ∉ w.live := by
      intro hlive
      obtain ⟨closed, hclosed⟩ := OrderedMap.has_iff.mp hlive
      rw [SocketConnection.closeSubscription_eq_ok.mpr hclosed] at hclose
      cases hclose
    have hnext : w.live = LiveIds.next w.live
        (.close (subscriptionIdOf w.requests.length request).key e.closed.isOk) := by
      cases e.closed.isOk with
      | false => rfl
      | true => exact (Set.sdiff_singleton_eq_self hdead).symm
    by_cases hid : (subscriptionIdOf w.requests.length request).value.HasText
    · obtain ⟨code, text, hfailed⟩ :=
        closeFailed_of_hasText hid e.host (requestId e.host request) error
      simp only [hfailed] at hv
      exact served_of_handled hv ((live_eq hstate).trans hnext) rfl
        (countRequest_error htext _ code text) (answers_error (Or.inl hdead) code text)
    · obtain ⟨error', hfailed⟩ :=
        closeFailed_of_not_hasText hid e.host (requestId e.host request) error
      simp only [hfailed] at hv
      exact served_of_threw hv ((live_eq hstate).trans hnext) hmethod hid

/-! ## Processing a message -/

/-- The context has a subscription request for a Subscribe message that asks for one. -/
theorem buildRequestContext_process {name : JsString} (h : WellFormedRequest request)
    (hname : name ∈ processMethods) (hmethod : request.own (js "method") = some (.string name)) :
    buildRequestContext i request = .ok ⟨.ws, false,
      if asksForSubscription request && isSubscribe (messageDescriptor request) then
        some (subscriptionIdOf i request) else none⟩ := by
  have hmessage := JsValue.isNullish_of_readOptional h.descriptor
  have hparams := JsValue.isNullish_of_readOptional hmessage
  have hdescriptor : (((request.own (js "params")).readOptional "message").readOptional
      "descriptor").isNullish = false := h.descriptor
  have hstarts : (js "rpc.subscribe.").isPrefixOf name =
      (request.own (js "method")).isText (js "rpc.subscribe.dwn.processMessage") := by
    rw [hmethod]
    rcases List.mem_pair.mp hname with rfl | rfl <;> decide
  have hsubscribe : ((((request.own (js "params")).readOptional "message").readOptional
      "descriptor").readOptional "method").isText (js "Subscribe") =
        isSubscribe (messageDescriptor request) := rfl
  have hasks : ((request.own (js "method")).isText (js "rpc.subscribe.dwn.processMessage") &&
      (request.own (js "subscription")).truthy) = asksForSubscription request := rfl
  rw [buildRequestContext_eq hmethod, hstarts]
  simp only [hparams, descriptorMethod_eq, hmessage, hdescriptor, Bool.false_eq_true, if_false,
    Except.bind, hasks, hsubscribe]
  cases asksForSubscription request <;> cases isSubscribe (messageDescriptor request) <;> rfl

/-- A message is refused by the guards, or it goes to the DWN. -/
theorem route_process {name : JsString} {host : Host} {subscription : Option SubscriptionId}
    (h : WellFormedRequest request) (hname : name ∈ processMethods)
    (hmethod : request.own (js "method") = some (.string name)) :
    (∃ code text, w.route i request ⟨.ws, false, subscription⟩ host =
        .handled request
          (DwnServer.respond (createJsonRpcErrorResponse (requestId host request) code text)) ∧
        (isRecordsWrite (messageDescriptor request) = true ∨
          isSubscribe (messageDescriptor request) = true ∧ subscription = none ∨
          ∃ id ∈ subscription, id.key ∈ w.live)) ∨
      ∃ call, w.route i request ⟨.ws, false, subscription⟩ host =
          .processing request ⟨.ws, false, subscription⟩ (requestId host request) call ∧
        isRecordsWrite (messageDescriptor request) = false ∧
        (isSubscribe (messageDescriptor request) = true → subscription ≠ none) ∧
        ∀ id ∈ subscription, id.key ∉ w.live := by
  obtain ⟨members, hparams⟩ := h.params
  have hroute : jsonRpcRouter.route request = .ok (.inl .handleDwnProcessMessage) := by
    rw [route_of_method (JsValue.isNullish_of_own hmethod) (by rw [hmethod]; rfl), if_neg,
      if_pos hname]
    rintro rfl
    revert hname
    decide
  have hnull : (request.own (js "params")).isNullish = false := by rw [hparams]; rfl
  have hmessage : (((request.own (js "params")).readOptional "message").readOptional
      "descriptor") = messageDescriptor request := rfl
  have hwrite : (((messageDescriptor request).readOptional "interface").isText (js "Records") &&
      ((messageDescriptor request).readOptional "method").isText (js "Write")) =
        isRecordsWrite (messageDescriptor request) := rfl
  have hsubscribe : ((messageDescriptor request).readOptional "method").isText (js "Subscribe") =
      isSubscribe (messageDescriptor request) := rfl
  simp only [route, hroute, handleDwnProcessMessage_eq, hnull,
    guardedProcessMessage_ws h.descriptor, hmessage, hwrite, hsubscribe]
  cases isRecordsWrite (messageDescriptor request) with
  | true => exact Or.inl ⟨_, _, rfl, Or.inl rfl⟩
  | false =>
    cases subscription with
    | none =>
      cases isSubscribe (messageDescriptor request) with
      | true => exact Or.inl ⟨_, _, rfl, Or.inr (Or.inl ⟨rfl, rfl⟩)⟩
      | false => exact Or.inr ⟨_, rfl, rfl, by simp, by simp⟩
    | some id =>
      cases hheld : w.state.hasSubscription id with
      | true =>
        have hlive : ∃ id' ∈ some id, SubscriptionId.key id' ∈ w.live := ⟨id, rfl, hheld⟩
        simp only [Option.isNone_some, Bool.and_false, Bool.false_eq_true, if_false, Option.filter,
          hheld, if_true]
        cases htext : id.value.toText (C := DwnServerErrorCode) with
        | ok text => exact Or.inl ⟨_, _, rfl, Or.inr (Or.inr hlive)⟩
        | error error => exact Or.inl ⟨_, _, rfl, Or.inr (Or.inr hlive)⟩
      | false =>
        have hfree : ∀ id' ∈ some id, SubscriptionId.key id' ∉ w.live := by
          rintro _ ⟨⟩ hlive
          exact Bool.false_ne_true (hheld.symm.trans hlive)
        simp only [Option.isNone_some, Bool.and_false, Bool.false_eq_true, if_false, Option.filter,
          hheld]
        exact Or.inr ⟨_, rfl, trivial, by simp, hfree⟩

/-- The end of a message that went to the DWN: a subscription that it opened is live. -/
theorem served_dwnSettles {context : RequestContext} {call : DwnCall}
    (htext : JsValue.HasText (request.own (js "method")))
    (hu : At w (.processing request context (requestId e.host request) call) u)
    (hstate : u.state = w.state) (hfree : ∀ id ∈ context.subscriptionRequest, id.key ∉ w.live)
    (hreply : canReply context e.outcome = true) :
    ∃ t, u.proceed e w.requests.length (n + 2) = some t ∧
      Served w request
        ((openedSubscription context e.outcome).elim w.live fun id => insert id.key w.live)
        (liveOutcome e.outcome = .threw) t := by
  rw [proceed_next hu.current rfl,
    step_dwnSettles.mpr ⟨request, context, _, call, hu.current, hreply, rfl⟩, Option.bind_some]
  have hlive : (u.dwnSettles w.requests.length request context (requestId e.host request) e.outcome
      e.host).live = (openedSubscription context e.outcome).elim w.live
        fun id => insert id.key w.live := by
    have hsubscriptions : (u.dwnSettles w.requests.length request context
        (requestId e.host request) e.outcome e.host).state.subscriptions = _ :=
      finishProcessMessage_subscriptions e.host (requestId e.host request) context u.state
        w.requests.length e.outcome
    rw [live, hsubscriptions, hstate]
    cases hopened : openedSubscription context e.outcome with
    | none => rfl
    | some id =>
      have habsent : ¬w.state.subscriptions.has id.key = true :=
        hfree id (mem_of_openedSubscription hopened)
      dsimp only
      rw [if_neg habsent]
      ext x
      exact OrderedMap.has_set
  have hv : At w (.handled request (finishProcessMessage e.host (requestId e.host request) context
        (some u.state) w.requests.length e.outcome).1)
      (u.dwnSettles w.requests.length request context (requestId e.host request) e.outcome
        e.host) := ⟨hu.setStage _, hu.sent, hu.listening⟩
  cases houtcome : e.outcome with
  | error message =>
    rw [houtcome] at hv hlive
    exact served_of_handled hv hlive rfl (countRequest_error htext _ _ _) (answers_error rfl _ _)
  | ok reply =>
    rw [houtcome] at hv hlive
    have habsent : ∀ id ∈ context.subscriptionRequest, u.state.hasSubscription id = false := by
      intro id hid
      rw [hstate]
      exact Bool.eq_false_iff.mpr (hfree id hid)
    obtain ⟨c, hclaim⟩ := claimSubscription_of_free habsent w.requests.length reply
    rw [finishProcessMessage, hclaim] at hv
    refine served_of_handled hv hlive rfl (countRequest_processed htext _ reply)
      (answers_success ?_ _)
    cases hopened : reply.subscription <;> simp [liveOutcome, hopened]

theorem next_subscribe (id : SubscriptionId) (outcome : DwnOutcome) (live : Set SubscriptionKey) :
    LiveIds.next live (.subscribe id.key (liveOutcome outcome)) =
      (openedSubscription ⟨.ws, false, some id⟩ outcome).elim live
        fun id => insert id.key live := by
  cases outcome with
  | error message => rfl
  | ok reply =>
    cases hopened : reply.subscription <;>
      simp [liveOutcome, openedSubscription, hopened, LiveIds.next]

/-- The DWN opens no subscription for a message that asks for none. -/
theorem served_process {name : JsString} (h : WellFormedRequest request)
    (hname : name ∈ processMethods) (hmethod : request.own (js "method") = some (.string name))
    (hu : At w (.contextBuilt request ⟨.ws, false,
      if asksForSubscription request && isSubscribe (messageDescriptor request) then
        some (subscriptionIdOf w.requests.length request) else none⟩) u)
    (hstate : u.state = w.state) :
    (liveExchange w.requests.length request e = .process .opened ∧
        u.proceed e w.requests.length 3 = none) ∨
      ∃ t, u.proceed e w.requests.length 3 = some t ∧
        Served w request (LiveIds.next w.live (liveExchange w.requests.length request e))
          (LiveIds.Fails w.live (liveExchange w.requests.length request e)) t := by
  have htext : JsValue.HasText (request.own (js "method")) := ⟨_, by rw [hmethod]; rfl⟩
  have hclose : (request.own (js "method")).isText closeMethod = false := by
    rw [hmethod]
    rcases List.mem_pair.mp hname with rfl | rfl <;> decide
  have hlive : u.live = w.live := live_eq hstate
  have hv := hu.handle e.host
  rw [step_of_at hu]
  rcases route_process h hname hmethod with
    ⟨code, text, hroute, hwhy⟩ | ⟨call, hroute, hwrite, hasks, hfree⟩
  · rw [hroute] at hv
    have hrefused : LiveIds.next w.live (liveExchange w.requests.length request e) = w.live ∧
        LiveIds.Fails w.live (liveExchange w.requests.length request e) := by
      simp only [liveExchange, hclose, Bool.false_eq_true, if_false]
      split_ifs with hwrite hsubscribe hasks
      · exact ⟨rfl, trivial⟩
      · have hid : (subscriptionIdOf w.requests.length request).key ∈ w.live := by
          simpa [hwrite, hsubscribe, hasks, hlive] using hwhy
        exact ⟨LiveIds.next_of_live hid _, Or.inl hid⟩
      · exact ⟨rfl, trivial⟩
      · simp [hwrite, hsubscribe] at hwhy
    exact Or.inr (served_of_handled hv (hlive.trans hrefused.1.symm) rfl
      (countRequest_error htext _ code text) (answers_error hrefused.2 code text))
  · rw [hroute] at hv
    rw [hlive] at hfree
    have hend := served_dwnSettles (n := 0) htext hv hstate hfree
    simp only [liveExchange, hclose, hwrite, Bool.false_eq_true, if_false]
    cases hsubscribe : isSubscribe (messageDescriptor request) with
    | false =>
      simp only [hsubscribe, Bool.and_false, Bool.false_eq_true, if_false] at hend hv ⊢
      have hnone : openedSubscription ⟨.ws, false, none⟩ e.outcome = none := by
        cases e.outcome <;> simp [openedSubscription]
      by_cases hreply : canReply ⟨.ws, false, none⟩ e.outcome = true
      · obtain ⟨t, ht, hserved⟩ := hend hreply
        rw [hnone] at hserved
        exact Or.inr ⟨t, ht, hserved⟩
      · refine Or.inl ⟨?_, ?_⟩
        · cases houtcome : e.outcome with
          | error message => simp [houtcome, canReply] at hreply
          | ok reply =>
            have hopened : reply.subscription = true := by simpa [houtcome, canReply] using hreply
            simp [liveOutcome, hopened]
        · rw [proceed_next hv.current rfl]
          simp [step, hv.current, hreply]
    | true =>
      have hasks' : asksForSubscription request = true := by
        simpa [hsubscribe] using hasks hsubscribe
      simp only [hsubscribe, hasks', Bool.and_self, if_true] at hend hv hfree ⊢
      have hfails : LiveIds.Fails w.live
          (.subscribe (subscriptionIdOf w.requests.length request).key (liveOutcome e.outcome)) =
          (liveOutcome e.outcome = .threw) := by
        simp [LiveIds.Fails, hfree _ rfl]
      rw [hfails, next_subscribe]
      exact Or.inr (hend (by cases e.outcome <;> simp [canReply]))

/-! ## Every message and every run -/

theorem message_of_context {data : JsString} {host : Host} {context : RequestContext}
    (h : Json.parse data = some request)
    (hcontext : buildRequestContext w.requests.length request = .ok context) :
    w.message data host = w.receive (.contextBuilt request context) := by
  simp [message, Json.ne_nil_of_parse h, h, hcontext]

/-- A message with a context is received, and its handling goes on from there. -/
theorem serve_of_context {context : RequestContext} (h : Json.parse e.data = some request)
    (hcontext : buildRequestContext w.requests.length request = .ok context)
    (hlistening : w.listening = true) : ∃ u, At w (.contextBuilt request context) u ∧
      u.state = w.state ∧ w.serve e = u.proceed e w.requests.length 3 := by
  refine ⟨w.receive (.contextBuilt request context), ⟨rfl, rfl, rfl⟩, rfl, ?_⟩
  rw [serve, step_message.mpr ⟨hlistening, message_of_context h hcontext⟩, Option.bind_some]

/-- Well-formed messages are served as the machine of live ids says, unless the DWN would have
to open a subscription that no one asked for. -/
theorem serve_eq (h : Json.parse e.data = some request) (hwell : WellFormedRequest request)
    (hlistening : w.listening = true) :
    (w.exchange e = .process .opened ∧ w.serve e = none) ∨
      ∃ t, w.serve e = some t ∧
        Served w request (LiveIds.next w.live (w.exchange e)) (LiveIds.Fails w.live (w.exchange e))
          t := by
  have hexchange : w.exchange e = liveExchange w.requests.length request e := by
    rw [exchange, h, Option.elim_some]
  rw [hexchange]
  obtain ⟨name, hname, hmethod⟩ := hwell.method
  rcases List.mem_cons.mp hname with rfl | hprocess
  · have hmessage := JsValue.isNullish_of_readOptional hwell.descriptor
    have hbuilds : ContextBuilds request closeMethod :=
      ⟨hmethod, fun _ _ => ⟨JsValue.isNullish_of_readOptional hmessage, Or.inr hwell.descriptor⟩⟩
    obtain ⟨context, hcontext⟩ := (buildRequestContext_isOk w.requests.length request).mpr
      ⟨closeMethod, hbuilds⟩
    obtain ⟨u, hu, hstate, hserve⟩ := serve_of_context h hcontext hlistening
    have hclose : liveExchange w.requests.length request e =
        .close (subscriptionIdOf w.requests.length request).key e.closed.isOk := by
      rw [liveExchange, hmethod, if_pos (by decide)]
    rw [hserve, hclose]
    exact Or.inr (served_close hwell hmethod hu hstate)
  · obtain ⟨u, hu, hstate, hserve⟩ :=
      serve_of_context h (buildRequestContext_process hwell hprocess hmethod) hlistening
    rw [hserve]
    exact served_process hwell hprocess hmethod hu hstate

/-- No request is under way on an open connection. -/
structure Idle (w : Connection) : Prop where
  listening : w.listening = true
  finished : ∀ stage ∈ w.requests, stage.isFinished = true

theorem Idle.serve (hw : w.Idle) (he : e.IsWellFormed) (h : w.serve e = some t) : t.Idle := by
  obtain ⟨request, hparse, hwell⟩ := he
  rcases serve_eq hparse hwell hw.listening with ⟨-, hnone⟩ | ⟨u, hu, hserved⟩
  · cases hnone.symm.trans h
  obtain rfl := Option.some.inj (hu.symm.trans h)
  obtain ⟨stage, hrequests, hfinished⟩ := hserved.requests
  refine ⟨hserved.listening.trans hw.listening, fun s hs => ?_⟩
  rw [hrequests] at hs
  rcases List.mem_append.mp hs with hold | hnew
  · exact hw.finished s hold
  · rw [List.mem_singleton.mp hnew]
    exact hfinished

/-- A connection whose messages are handled one after another refines the machine of live ids.
Any well-formed message can be served next, by a run of the connection's own actions. An id
becomes live when the DWN opens a subscription under it and stops being live when its `close`
function resolves; and there is one response, with the request's own id and with an error
exactly if the machine says so, unless the id of the subscription to close has no text. -/
theorem serves_live {es : List Exchange} (hes : ∀ e ∈ es, e.IsWellFormed)
    (hrun : run serve new es = some w) :
    w.live = (trace serve exchange new es).foldl LiveIds.next ∅ ∧
    ∀ (e : Exchange) (request : Json), Json.parse e.data = some request →
      WellFormedRequest request →
      (w.exchange e ≠ .process .opened → ∃ t, w.serve e = some t) ∧
      ∀ t, w.serve e = some t →
        (∃ as, run step w (.message e.data e.host :: as) = some t ∧
          ∀ a ∈ as, a.request? = some w.requests.length) ∧
        (∀ stage ∈ t.requests, stage.isFinished = true) ∧
        t.live = LiveIds.next w.live (w.exchange e) ∧
        (∀ x ∉ w.live, x ∈ t.live ↔ w.exchange e = .subscribe x .opened) ∧
        (∀ x ∈ w.live, x ∉ t.live ↔ w.exchange e = .close x true) ∧
        ((∃ r, t.sent = w.sent ++ [.response w.requests.length r] ∧
            Answers request (LiveIds.Fails w.live (w.exchange e)) r) ∨
          t.sent = w.sent ∧ request.own (js "method") = some (.string closeMethod) ∧
            ¬((request.own (js "subscription")).readOptional "id").HasText) := by
  have hstart : new.Idle := ⟨rfl, List.forall_mem_nil _⟩
  have hidle : w.Idle :=
    run_invariant_of_forall (fun _ _ _ hs he h => hs.serve he h) hes hstart hrun
  have hempty : new.live = ∅ := Set.ext fun _ => ⟨nofun, nofun⟩
  constructor
  · rw [← hempty]
    refine abs_run (fun _ _ _ hs he h => hs.serve he h)
      (fun s e t hs he h => ?_) hes hstart hrun
    obtain ⟨request, hparse, hwell⟩ := he
    rcases serve_eq hparse hwell hs.listening with ⟨-, hnone⟩ | ⟨u, hu, hserved⟩
    · cases hnone.symm.trans h
    · exact Option.some.inj (hu.symm.trans h) ▸ hserved.live
  intro e request hparse hwell
  have hserve := serve_eq (e := e) hparse hwell hidle.listening
  refine ⟨fun hpossible => ?_, fun t h => ?_⟩
  · rcases hserve with ⟨himpossible, -⟩ | ⟨t, ht, -⟩
    · exact absurd himpossible hpossible
    · exact ⟨t, ht⟩
  rcases hserve with ⟨-, hnone⟩ | ⟨u, hu, hserved⟩
  · cases hnone.symm.trans h
  obtain rfl := Option.some.inj (hu.symm.trans h)
  refine ⟨exists_run_of_serve h, (hidle.serve ⟨request, hparse, hwell⟩ h).finished, hserved.live,
    fun x hx => ?_, fun x hx => ?_, hserved.sent⟩
  · rw [hserved.live]
    exact LiveIds.becomes_live hx
  · rw [hserved.live]
    exact LiveIds.stops_being_live hx

def subscribeRequest : Json := .object
  [(js "jsonrpc", .string (js "2.0")), (js "id", .number (.ofInt 1)),
    (js "method", .string (js "rpc.subscribe.dwn.processMessage")),
    (js "params", .object [(js "target", .string (js "did:a")),
      (js "message", .object [(js "descriptor", .object
        [(js "interface", .string (js "Records")), (js "method", .string (js "Subscribe"))])])]),
    (js "subscription", .object [(js "id", .number (.ofInt 7))])]

/-- The DWN opens the subscription. -/
def opening : Exchange := ⟨subscribeFrame, host, opens, .ok ()⟩

theorem parse_opening : Json.parse opening.data = some subscribeRequest := by
  simp only [opening, subscribeFrame, js_append]
  decide +kernel

theorem wellFormed_subscribeRequest : WellFormedRequest subscribeRequest where
  method := ⟨js "rpc.subscribe.dwn.processMessage", by decide, rfl⟩
  params := ⟨_, rfl⟩
  descriptor := rfl
  subscription := fun _ => ⟨_, rfl⟩

/-- The id of the subscription is live. -/
theorem serves_live_opened : ∃ w, run serve new [opening] = some w ∧
    w.live = {SubscriptionKey.value (some (.number (.ofInt 7)))} := by
  have hes : ∀ e ∈ [opening], e.IsWellFormed := by
    intro e he
    rw [List.mem_singleton.mp he]
    exact ⟨subscribeRequest, parse_opening, wellFormed_subscribeRequest⟩
  have hexchange : new.exchange opening =
      .subscribe (.value (some (.number (.ofInt 7)))) .opened := by
    rw [exchange, parse_opening]
    decide +kernel
  obtain ⟨-, hserves⟩ := serves_live (List.forall_mem_nil _) (run_nil serve new)
  obtain ⟨w, hw⟩ := (hserves opening _ parse_opening wellFormed_subscribeRequest).1
    (by rw [hexchange]; nofun)
  have hrun : run serve new [opening] = some w := by simp [hw]
  refine ⟨w, hrun, ?_⟩
  rw [(serves_live hes hrun).1, trace, hexchange]
  simp [hw, trace, LiveIds.next]

end Connection

end DwnServer
