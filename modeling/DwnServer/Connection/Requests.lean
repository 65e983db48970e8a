import DwnServer.Connection.Machine
import DwnServer.Library.Numbered

/-!
# The requests of a connection, step by step

`progress` is the inversion lemma of the machine: an action receives a request, advances
the one request it is about, or leaves all requests as they are. What a request of one
number goes through follows from it without a look at the other actions.
-/
namespace DwnServer

/-- The handler of the request has returned. -/
def Stage.hasReturned : Stage → Bool
  | .handled _ _ | .answered | .threw => true
  | _ => false

/-- The subscription id of a context is the one that the numbered request read. -/
def RequestContext.Owned (i : ℕ) (context : RequestContext) : Prop :=
  ∀ id ∈ context.subscriptionRequest, ∃ v, id = .of i v

/-- What is known of request `i` at its stage: its context is its own and, once it is
routed, its method has a text. -/
def Stage.Sound (i : ℕ) : Stage → Prop
  | .contextBuilt _ context => context.Owned i
  | .processing request context _ _ =>
    JsValue.HasText (request.own (js "method")) ∧ context.Owned i
  | .closing request _ _ _ | .handled request _ => JsValue.HasText (request.own (js "method"))
  | .answered | .threw => True

/-- The request that an action advances. -/
def Action.request? : Action → Option ℕ
  | .handle i _ | .dwnSettles i _ _ | .closeSettles i _ _ | .respond i => some i
  | _ => none

def Frame.responseTo? (i : ℕ) : Frame → Option Json
  | .response j message => if j = i then some message else none
  | .event _ _ => none

namespace Connection

/-- The responses sent to request `i`. -/
def responses (w : Connection) (i : ℕ) : List Json := w.sent.filterMap (Frame.responseTo? i)

/-- The handler of request `i` has returned. -/
def Returned (w : Connection) (i : ℕ) : Prop :=
  ∃ stage, w.requests[i]? = some stage ∧ stage.hasReturned = true

variable {w t : Connection} {a : Action}

/-- What a step does to the requests. The frames it sends are the response of a request
that is answered by it, or an event. -/
inductive Progress (w : Connection) (a : Action) (t : Connection) : Prop where
  | received (stage : Stage) (frames : List Frame)
      (requests : t.requests = w.requests ++ [stage])
      (sound : stage.Sound w.requests.length)
      (opened : t.opened = w.opened)
      (sent : t.sent = w.sent ++ frames)
      (answer : (stage = .answered ∧ ∃ m, frames = [.response w.requests.length m]) ∨
        (stage ≠ .answered ∧ frames = []))
  | advanced (i : ℕ) (old new : Stage) (id : Option SubscriptionId) (frames : List Frame)
      (acts : a.request? = some i)
      (current : w.requests[i]? = some old) (unfinished : old.isFinished = false)
      (requests : t.requests = w.requests.set i new)
      (sound : old.Sound i → new.Sound i)
      (owned : old.Sound i → ∀ id' ∈ id, ∃ v, id' = .of i v)
      (returned : old.hasReturned = true ∨ id.isSome → new.hasReturned = true)
      (opened : t.opened = w.opened ++ id.toList.map fun id => (id, i))
      (sent : t.sent = w.sent ++ frames)
      (answer : (new = .answered ∧ ∃ m, frames = [.response i m]) ∨
        (new ≠ .answered ∧ frames = []))
  | kept (idle : a.request? = none) (requests : t.requests = w.requests)
      (opened : t.opened = w.opened)
      (sent : t.sent = w.sent ∨ ∃ id s e, (id, s) ∈ w.opened ∧
        t.sent = w.sent ++ [.event s (createJsonRpcSuccessResponse id.value e)])

theorem route_ne_answered {i : ℕ} {request : Json} {context : RequestContext} {host : Host} :
    w.route i request context host ≠ .answered := by
  unfold route
  split
  · simp
  · simp
  · split <;> simp
  · split <;> simp

theorem sound_route {i : ℕ} {request : Json} {context : RequestContext} {host : Host}
    (hcontext : context.Owned i) : (w.route i request context host).Sound i := by
  cases hroute : jsonRpcRouter.route request with
  | error e => simp [route, hroute, Stage.Sound]
  | ok called =>
    have htext := JsonRpcRouter.method_of_route hroute
    unfold route
    rw [hroute]
    rcases called with (_ | _) | response
    · dsimp only
      split
      · trivial
      · exact htext
      · exact ⟨htext, hcontext⟩
    · dsimp only
      split
      · trivial
      · exact htext
      · exact htext
    · exact htext

theorem owned_buildRequestContext {i : ℕ} {request : Json} {context : RequestContext}
    (h : buildRequestContext i request = .ok context) : context.Owned i := by
  obtain ⟨method, hmethod⟩ := exists_method_of_buildRequestContext h
  rw [buildRequestContext_eq hmethod] at h
  dsimp only at h
  split_ifs at h with hboth hparams
  · cases hmethod : descriptorMethod ((request.own (js "params")).readOptional "message") with
    | error e =>
      rw [hmethod] at h
      cases h
    | ok m =>
      simp only [hmethod, Except.bind] at h
      split_ifs at h <;> cases h <;> simp [RequestContext.Owned]
  · cases h
    simp [RequestContext.Owned]

theorem owned_openedSubscription {i : ℕ} {context : RequestContext} (h : context.Owned i)
    (outcome : DwnOutcome) : ∀ id ∈ openedSubscription context outcome, ∃ v, id = .of i v :=
  fun id hid => h id (mem_of_openedSubscription hid)

theorem progress (h : w.step a = some t) : Progress w a t := by
  have nothing : ∀ {i : ℕ} {old : Stage}, old.Sound i → ∀ id ∈ (none : Option SubscriptionId),
      ∃ v, id = .of i v := by simp
  cases a with
  | message data host =>
    obtain ⟨-, rfl⟩ := step_message.mp h
    rcases w.message_cases data host with
      ⟨text, hmessage⟩ | hmessage | ⟨_, _, hcontext, hmessage⟩ <;> rw [hmessage]
    · exact .received .answered [_] rfl trivial rfl rfl (Or.inl ⟨rfl, _, rfl⟩)
    · exact .received .threw [] rfl trivial rfl (List.append_nil _).symm (Or.inr ⟨by simp, rfl⟩)
    · exact .received _ [] rfl (owned_buildRequestContext hcontext) rfl (List.append_nil _).symm
        (Or.inr ⟨by simp, rfl⟩)
  | handle i host =>
    obtain ⟨request, context, hi, rfl⟩ := step_handle.mp h
    exact .advanced i _ _ none [] rfl hi rfl rfl sound_route nothing
      (by simp [Stage.hasReturned]) (List.append_nil _).symm (List.append_nil _).symm
      (Or.inr ⟨route_ne_answered, rfl⟩)
  | dwnSettles i outcome host =>
    obtain ⟨request, context, requestId, call, hi, -, rfl⟩ := step_dwnSettles.mp h
    exact .advanced i _ _ _ [] rfl hi rfl rfl (fun sound => sound.1)
      (fun sound => owned_openedSubscription sound.2 outcome) (by simp [Stage.hasReturned]) rfl
      (List.append_nil _).symm (Or.inr ⟨by simp, rfl⟩)
  | closeSettles i outcome host =>
    obtain ⟨request, requestId, id, subscription, hi, rfl⟩ := step_closeSettles.mp h
    refine .advanced i _ _ none [] rfl hi rfl rfl (fun sound => ?_) nothing
      (by simp [Stage.hasReturned]) (List.append_nil _).symm (List.append_nil _).symm
      (Or.inr ⟨Stage.ofResponse_ne_answered _ _, rfl⟩)
    unfold Stage.ofResponse
    split
    · exact sound
    · trivial
  | respond i =>
    obtain ⟨request, response, hi, rfl⟩ := step_respond.mp h
    unfold respond
    split
    · exact .advanced i _ _ none [_] rfl hi rfl rfl (fun _ => trivial) nothing
        (by simp [Stage.hasReturned]) (List.append_nil _).symm rfl (Or.inl ⟨rfl, _, rfl⟩)
    · exact .advanced i _ _ none [] rfl hi rfl rfl (fun _ => trivial) nothing
        (by simp [Stage.hasReturned]) (List.append_nil _).symm (List.append_nil _).symm
        (Or.inr ⟨by simp, rfl⟩)
  | event subscription e =>
    obtain ⟨id, hid, -, rfl⟩ := step_event h
    exact .kept rfl rfl rfl (Or.inr ⟨id, subscription, _, hid, rfl⟩)
  | heartbeat =>
    obtain ⟨-, rfl⟩ := step_heartbeat.mp h
    unfold heartbeat
    split <;> exact .kept rfl rfl rfl (Or.inl rfl)
  | pong =>
    obtain ⟨-, rfl⟩ := step_pong.mp h
    exact .kept rfl rfl rfl (Or.inl rfl)
  | socketClose =>
    obtain ⟨-, rfl⟩ := step_socketClose.mp h
    exact .kept rfl rfl rfl (Or.inl rfl)
  | socketError =>
    obtain ⟨-, rfl⟩ := step_socketError.mp h
    exact .kept rfl rfl rfl (Or.inl rfl)
  | close =>
    cases h
    exact .kept rfl rfl rfl (Or.inl rfl)
  | closeAllSettles call resolved =>
    obtain ⟨closed, hcall, -, -, rfl⟩ := step_closeAllSettles.mp h
    unfold closeAllSettles
    split <;> exact .kept rfl rfl rfl (Or.inl rfl)

/-! ## One request -/

theorem getElem?_receive {requests : List Stage} {i : ℕ} {old : Stage}
    (hi : requests[i]? = some old) (stage : Stage) : (requests ++ [stage])[i]? = some old := by
  rw [List.getElem?_append_left (List.getElem?_eq_some_iff.mp hi).1, hi]

theorem getElem?_advance {requests : List Stage} {i j : ℕ} {old : Stage}
    (hi : requests[i]? = some old) (new : Stage) :
    (requests.set i new)[j]? = if j = i then some new else requests[j]? := by
  split_ifs with hj
  · subst hj
    simp [(List.getElem?_eq_some_iff.mp hi).1]
  · exact List.getElem?_set_ne (Ne.symm hj)

theorem requests_setStage_self {i : ℕ} {old : Stage} (hi : w.requests[i]? = some old)
    (new : Stage) : (w.setStage i new).requests[i]? = some new := by
  rw [setStage, getElem?_advance hi, if_pos rfl]

/-- Frames are only ever added. -/
theorem sent_step (h : w.step a = some t) : ∃ frames, t.sent = w.sent ++ frames := by
  cases progress h with
  | received stage frames _ _ _ sent => exact ⟨frames, sent⟩
  | advanced i old new id frames _ _ _ _ _ _ _ _ sent => exact ⟨frames, sent⟩
  | kept _ _ _ sent =>
    rcases sent with sent | ⟨id, s, e, -, sent⟩
    · exact ⟨[], by simp [sent]⟩
    · exact ⟨_, sent⟩

/-- A subscription is opened by the DWN's reply to its request. -/
theorem opened_step (h : w.step a = some t) :
    t.opened = w.opened ∨ ∃ i outcome host request context requestId call id,
      a = .dwnSettles i outcome host ∧
      w.requests[i]? = some (.processing request context requestId call) ∧
      openedSubscription context outcome = some id ∧
      w.dwnSettles i request context requestId outcome host = t ∧
      t.opened = w.opened ++ [(id, i)] := by
  cases progress h with
  | received _ _ _ _ opened => exact Or.inl opened
  | kept _ _ opened => exact Or.inl opened
  | advanced i _ _ _ _ acts =>
    cases a <;> cases acts
    case handle.refl =>
      obtain ⟨_, _, -, rfl⟩ := step_handle.mp h
      exact Or.inl rfl
    case dwnSettles.refl outcome host =>
      obtain ⟨request, context, requestId, call, hi, -, rfl⟩ := step_dwnSettles.mp h
      cases hopened : openedSubscription context outcome with
      | none => exact Or.inl (by simp [dwnSettles, setStage, hopened])
      | some id =>
        exact Or.inr ⟨i, outcome, host, request, context, requestId, call, id, rfl, hi, hopened,
          rfl, by simp [dwnSettles, setStage, hopened]⟩
    case closeSettles.refl =>
      obtain ⟨_, _, _, _, -, rfl⟩ := step_closeSettles.mp h
      exact Or.inl rfl
    case respond.refl =>
      obtain ⟨_, _, -, rfl⟩ := step_respond.mp h
      refine Or.inl ?_
      unfold respond
      split <;> rfl

/-- Opened subscriptions are never forgotten. -/
theorem opened_mono (h : w.step a = some t) {o : SubscriptionId × ℕ} (ho : o ∈ w.opened) :
    o ∈ t.opened := by
  cases progress h with
  | received _ _ _ _ opened => exact opened ▸ ho
  | advanced _ _ _ _ _ _ _ _ _ _ _ _ opened => exact opened ▸ List.mem_append_left _ ho
  | kept _ _ opened => exact opened ▸ ho

/-- An event frame is sent under the id that its subscription was opened with. -/
theorem event_step {s : ℕ} {message : Json} (hsent : .event s message ∈ t.sent)
    (h : w.step a = some t) : .event s message ∈ w.sent ∨ ∃ id, (id, s) ∈ w.opened ∧
      ∃ e, createJsonRpcSuccessResponse id.value e = message := by
  cases progress h with
  | received stage frames _ _ _ sent answer =>
    rcases answer with ⟨-, m, rfl⟩ | ⟨-, rfl⟩ <;> exact Or.inl (by simpa [sent] using hsent)
  | advanced i old new id frames _ _ _ _ _ _ _ _ sent answer =>
    rcases answer with ⟨-, m, rfl⟩ | ⟨-, rfl⟩ <;> exact Or.inl (by simpa [sent] using hsent)
  | kept _ _ _ sent =>
    rcases sent with sent | ⟨id, s', e, hid, sent⟩
    · exact Or.inl (sent ▸ hsent)
    · rcases List.mem_append.mp (sent ▸ hsent) with hold | hnew
      · exact Or.inl hold
      · obtain ⟨rfl, rfl⟩ := Frame.event.inj (List.mem_singleton.mp hnew)
        exact Or.inr ⟨id, hid, e, rfl⟩

/-- An action that is not about a request leaves it and its responses as they are. -/
theorem unmoved {i : ℕ} {stage : Stage} (hi : w.requests[i]? = some stage)
    (ha : a.request? ≠ some i) (h : w.step a = some t) :
    t.requests[i]? = some stage ∧ t.responses i = w.responses i := by
  have hlen := (List.getElem?_eq_some_iff.mp hi).1
  cases progress h with
  | received new frames requests _ _ sent answer =>
    refine ⟨requests ▸ getElem?_receive hi new, ?_⟩
    rcases answer with ⟨-, m, rfl⟩ | ⟨-, rfl⟩
    · simp [responses, sent, Frame.responseTo?, hlen.ne']
    · simp [responses, sent]
  | advanced j old new id frames acts current _ requests _ _ _ _ sent answer =>
    have hne : i ≠ j := by
      rintro rfl
      exact ha acts
    refine ⟨by rw [requests, getElem?_advance current, if_neg hne, hi], ?_⟩
    rcases answer with ⟨-, m, rfl⟩ | ⟨-, rfl⟩
    · simp [responses, sent, Frame.responseTo?, hne.symm]
    · simp [responses, sent]
  | kept _ requests _ sent =>
    refine ⟨requests ▸ hi, ?_⟩
    rcases sent with sent | ⟨id, s, e, -, sent⟩ <;> simp [responses, sent, Frame.responseTo?]

/-- A request whose handler has returned waits to be answered. -/
theorem handled_step {i : ℕ} {request : Json} {response : HandlerResponse}
    (hi : w.requests[i]? = some (.handled request response)) (h : w.step a = some t) :
    t.requests[i]? = some (.handled request response) ∨
      a = .respond i ∧ w.respond i request response = t := by
  by_cases ha : a.request? = some i
  · refine Or.inr ?_
    cases a <;> simp only [Action.request?, Option.some.injEq, reduceCtorEq] at ha <;> subst ha
    case handle => obtain ⟨_, _, hi', -⟩ := step_handle.mp h; simp [hi] at hi'
    case dwnSettles => obtain ⟨_, _, _, _, hi', -⟩ := step_dwnSettles.mp h; simp [hi] at hi'
    case closeSettles => obtain ⟨_, _, _, _, hi', -⟩ := step_closeSettles.mp h; simp [hi] at hi'
    case respond =>
      obtain ⟨_, _, hi', ht⟩ := step_respond.mp h
      cases Option.some.inj (hi.symm.trans hi')
      exact ⟨rfl, ht⟩
  · exact Or.inl (unmoved hi ha h).1

theorem Returned.step {j : ℕ} (hj : w.Returned j) (h : w.step a = some t) : t.Returned j := by
  obtain ⟨stage, hstage, hreturned⟩ := hj
  cases progress h with
  | received new frames requests => exact ⟨stage, requests ▸ getElem?_receive hstage new, hreturned⟩
  | advanced i old new id frames _ current _ requests _ _ returned =>
    rw [Returned, requests, getElem?_advance current]
    split_ifs with heq
    · subst heq
      obtain rfl := Option.some.inj (current.symm.trans hstage)
      exact ⟨new, rfl, returned (Or.inl hreturned)⟩
    · exact ⟨stage, hstage, hreturned⟩
  | kept _ requests => exact ⟨stage, requests ▸ hstage, hreturned⟩

/-- Every request is sound, and every subscription was opened under an id of its request. -/
structure Sound (w : Connection) : Prop where
  requests : ∀ (i : ℕ) (stage : Stage), w.requests[i]? = some stage → stage.Sound i
  opened : ∀ o ∈ w.opened, ∃ v, o.1 = .of o.2 v

theorem Sound.step (hw : w.Sound) (h : w.step a = some t) : t.Sound := by
  cases progress h with
  | received new frames requests sound opened =>
    refine ⟨fun j stage hstage => ?_, opened ▸ hw.opened⟩
    rw [requests] at hstage
    rcases Numbered.getElem?_append_singleton hstage with hold | ⟨rfl, rfl⟩
    · exact hw.requests j stage hold
    · exact sound
  | advanced i old new id frames _ current _ requests sound owned _ opened =>
    have hold := hw.requests i old current
    refine ⟨fun j stage hstage => ?_, fun o ho => ?_⟩
    · rw [requests, getElem?_advance current] at hstage
      split_ifs at hstage with hj
      · exact hj ▸ Option.some.inj hstage ▸ sound hold
      · exact hw.requests j stage hstage
    · rcases List.mem_append.mp (opened ▸ ho) with hmem | hnew
      · exact hw.opened o hmem
      · obtain ⟨id', hid, rfl⟩ := List.mem_map.mp hnew
        exact owned hold id' (Option.mem_toList.mp hid)
  | kept _ requests opened =>
    exact ⟨fun j stage hstage => hw.requests j stage (requests ▸ hstage), opened ▸ hw.opened⟩

end Connection

end DwnServer
