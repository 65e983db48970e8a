import DwnServer.Connection.Provenance

/-!
# What the DWN replied

The DWN is called once for a request at most, for the tenant and with the message in its text, and
the response says what came of that call.
-/
namespace DwnServer

open Transition

/-- The outcome of the call of the DWN for request `i`. -/
def Action.reply? (i : ℕ) : Action → Option DwnOutcome
  | .dwnSettles j outcome _ => if j = i then some outcome else none
  | _ => none

namespace Connection

/-- The outcomes of the calls of the DWN for request `i`. -/
def repliesTo (i : ℕ) (as : List Action) : List DwnOutcome := as.filterMap (Action.reply? i)

/-- The response to a request says what the DWN replied. Without a reply it is an error, if the
request is one for the DWN; a reply that opens a subscription may be kept back. -/
inductive Relays (request response : Json) : List DwnOutcome → Prop
  | unasked (h : MethodIn processMethods request → response.own (js "error") ≠ none) :
      Relays request response []
  | replied {reply : DwnReply} (host : Host)
      (h : response = processedResponse (requestId host request) reply) :
      Relays request response [.ok reply]
  | unclaimed {reply : DwnReply} (hsubscription : reply.subscription = true)
      (h : response.own (js "error") ≠ none) : Relays request response [.ok reply]
  | threw {message : JsString} (host : Host)
      (h : response =
        createJsonRpcErrorResponse (requestId host request) .internalError message) :
      Relays request response [.error message]

/-- The DWN is called for the tenant and with the message in the params of the request. -/
structure CalledFor (request : Json) (call : DwnCall) : Prop where
  target : call.target = (request.own (js "params")).readOptional "target"
  message : call.message = (request.own (js "params")).readOptional "message"

/-- What is known of request `i`, whose text is `data`, when the DWN has settled `outcomes`. -/
inductive StageReplies (outcomes : List DwnOutcome) (data : JsString) : Stage → Prop
  | contextBuilt {request : Json} {context : RequestContext}
      (hparse : Json.parse data = some request) (hnone : outcomes = []) :
      StageReplies outcomes data (.contextBuilt request context)
  | processing {request : Json} {context : RequestContext} {host : Host} {call : DwnCall}
      (hparse : Json.parse data = some request) (hcall : CalledFor request call)
      (hnone : outcomes = []) :
      StageReplies outcomes data (.processing request context (requestId host request) call)
  | closing {request requestId : Json} {id : SubscriptionId} {s : ℕ}
      (hparse : Json.parse data = some request) (hmethod : MethodIn [closeMethod] request)
      (hnone : outcomes = []) : StageReplies outcomes data (.closing request requestId id s)
  | handled {request : Json} {response : HandlerResponse} (hparse : Json.parse data = some request)
      (hrelays : ∀ m, response.jsonRpcResponse = some m → Relays request m outcomes)
      (hle : outcomes.length ≤ 1) : StageReplies outcomes data (.handled request response)
  | answered (hle : outcomes.length ≤ 1) : StageReplies outcomes data .answered
  | threw (hle : outcomes.length ≤ 1) : StageReplies outcomes data .threw

/-- What a connection that has done `as` has made of the replies. -/
structure Replies (as : List Action) (w : Connection) : Prop where
  stages : ∀ (i : ℕ) (stage : Stage) (data : JsString), w.requests[i]? = some stage →
    (textsOf as)[i]? = some data → StageReplies (repliesTo i as) data stage
  fresh : ∀ i, w.requests.length ≤ i → repliesTo i as = []
  sent : ∀ i m data request, .response i m ∈ w.sent → (textsOf as)[i]? = some data →
    Json.parse data = some request → Relays request m (repliesTo i as)

variable {w t : Connection} {a : Action} {as : List Action} {i : ℕ} {data : JsString}
  {request : Json} {outcomes : List DwnOutcome}

theorem repliesTo_append (i : ℕ) (as : List Action) (a : Action) :
    repliesTo i (as ++ [a]) = repliesTo i as ++ (a.reply? i).toList := by
  rw [repliesTo, repliesTo, List.filterMap_append]
  cases h : a.reply? i <;> simp [h]

/-- A request that an action is not about gets no reply. -/
theorem reply?_eq_none (h : a.request? ≠ some i) : a.reply? i = none := by
  cases a with
  | dwnSettles j outcome host =>
    refine if_neg ?_
    rintro rfl
    exact h rfl
  | _ => rfl

theorem repliesTo_of_idle (h : a.request? ≠ some i) : repliesTo i (as ++ [a]) = repliesTo i as := by
  rw [repliesTo_append, reply?_eq_none h, Option.toList_none, List.append_nil]

/-! ## The handlers -/

theorem own_error_ne_none (id : Json) (code : JsonRpcErrorCodes) (text : JsString) :
    (createJsonRpcErrorResponse id code text).own (js "error") ≠ none := by
  simp

theorem Routed.stageReplies {context : RequestContext} {host : Host} {stage : Stage}
    (h : w.Routed i request context host stage) (hparse : Json.parse data = some request) :
    StageReplies [] data stage := by
  cases h with
  | refused code text =>
    refine .handled hparse (fun m hm => .unasked fun _ => ?_) (Nat.zero_le _)
    obtain rfl := Option.some.inj hm
    exact own_error_ne_none _ code text
  | processing => exact .processing hparse ⟨rfl, rfl⟩ rfl
  | closing hmethod => exact .closing hparse hmethod rfl
  | inherited hmethod =>
    refine .handled hparse (fun m _ => .unasked fun hprocess => ?_) (Nat.zero_le _)
    obtain ⟨name, hname, htext⟩ := hprocess
    exact absurd ⟨name, List.mem_cons_of_mem _ hname, htext⟩ hmethod
  | threw => exact .threw (Nat.zero_le _)

/-- Only a subscription can be kept back. -/
theorem claimSubscription_eq_error {context : RequestContext} {c : Option SocketConnection}
    {reply : DwnReply} {e : ServerThrown} (h : claimSubscription context c i reply = .error e) :
    reply.subscription = true := by
  unfold claimSubscription at h
  split at h
  · split_ifs at h with hsubscription
    exact hsubscription
  · cases h

theorem relays_finishProcessMessage (host host' : Host) (context : RequestContext)
    (c : Option SocketConnection) (outcome : DwnOutcome) {m : Json}
    (hm : (finishProcessMessage host (requestId host' request) context c i
      outcome).1.jsonRpcResponse = some m) : Relays request m [outcome] := by
  cases outcome with
  | error message =>
    obtain rfl := Option.some.inj hm
    exact .threw host' rfl
  | ok reply =>
    cases hclaim : claimSubscription context c i reply with
    | error e =>
      simp only [finishProcessMessage, hclaim] at hm
      obtain rfl := Option.some.inj hm
      exact .unclaimed (claimSubscription_eq_error hclaim) (own_error_ne_none _ _ _)
    | ok c' =>
      simp only [finishProcessMessage, hclaim] at hm
      obtain rfl := Option.some.inj hm
      exact .replied host' rfl

theorem stageReplies_closeSettles {requestId' : Json} {id : SubscriptionId} {s : ℕ}
    (h : StageReplies outcomes data (.closing request requestId' id s))
    (response : Eval Json) : StageReplies outcomes data (.ofResponse request response) := by
  cases h with
  | closing hparse hmethod hnone =>
    subst hnone
    cases response with
    | error e => exact .threw (Nat.zero_le _)
    | ok m =>
      exact .handled hparse (fun m _ => .unasked fun hprocess =>
        absurd hmethod (not_methodIn_close hprocess)) (Nat.zero_le _)

theorem StageReplies.length_le {stage : Stage} (h : StageReplies outcomes data stage) :
    outcomes.length ≤ 1 := by
  cases h with
  | contextBuilt _ hnone | processing _ _ hnone | closing _ _ hnone =>
    rw [hnone]
    exact Nat.zero_le _
  | handled _ _ hle | answered hle | threw hle => exact hle

/-! ## Steps -/

/-- An action is about a request that was received. -/
theorem exists_stage_of_request? (h : w.step a = some t) (ha : a.request? = some i) :
    ∃ stage, w.requests[i]? = some stage ∧ stage.isFinished = false := by
  cases a with
  | handle j host =>
    obtain ⟨_, _, hj, -⟩ := step_handle.mp h
    obtain rfl := Option.some.inj ha
    exact ⟨_, hj, rfl⟩
  | dwnSettles j outcome host =>
    obtain ⟨_, _, _, _, hj, -⟩ := step_dwnSettles.mp h
    obtain rfl := Option.some.inj ha
    exact ⟨_, hj, rfl⟩
  | closeSettles j outcome host =>
    obtain ⟨_, _, _, _, hj, -⟩ := step_closeSettles.mp h
    obtain rfl := Option.some.inj ha
    exact ⟨_, hj, rfl⟩
  | respond j =>
    obtain ⟨_, _, hj, -⟩ := step_respond.mp h
    obtain rfl := Option.some.inj ha
    exact ⟨_, hj, rfl⟩
  | _ => cases ha

/-- The text of a request that was received is not the one that arrives. -/
theorem Stems.text_eq (hw : w.Stems (textsOf as)) (hi : i < w.requests.length)
    (hdata : (textsOf (as ++ [a]))[i]? = some data) : (textsOf as)[i]? = some data := by
  rwa [textsOf_append, List.getElem?_append_left (hw.length ▸ hi)] at hdata

/-- The stage of the request that an action is about. -/
theorem Replies.advance (hw : w.Replies as) (hstems : w.Stems (textsOf as))
    (h : w.step a = some t) (ha : a.request? = some i) {stage : Stage}
    (hi : t.requests[i]? = some stage) (hdata : (textsOf (as ++ [a]))[i]? = some data) :
    StageReplies (repliesTo i (as ++ [a])) data stage := by
  obtain ⟨old, hold, -⟩ := exists_stage_of_request? h ha
  have hkept := hstems.text_eq (List.getElem?_eq_some_iff.mp hold).1 hdata
  have hstage := hw.stages i old data hold hkept
  have hadvance {new : Stage} (ht : t.requests = w.requests.set i new) : new = stage := by
    rw [ht, getElem?_advance hold, if_pos rfl] at hi
    exact Option.some.inj hi
  rw [repliesTo_append]
  cases a with
  | handle j host =>
    obtain rfl := Option.some.inj ha
    obtain ⟨request, context, hj, rfl⟩ := step_handle.mp h
    obtain rfl := Option.some.inj (hj.symm.trans hold)
    obtain rfl := hadvance rfl
    cases hstage with
    | contextBuilt hparse hnone =>
      rw [hnone]
      cases hstems.stages _ _ _ hold hkept with
      | contextBuilt _ hbuilds => exact (w.routed hbuilds host).stageReplies hparse
  | dwnSettles j outcome host =>
    obtain rfl := Option.some.inj ha
    obtain ⟨request, context, requestId', call, hj, -, rfl⟩ := step_dwnSettles.mp h
    obtain rfl := Option.some.inj (hj.symm.trans hold)
    obtain rfl := hadvance rfl
    cases hstage with
    | processing hparse _ hnone =>
      simp only [hnone, Action.reply?, if_pos, Option.toList_some, List.nil_append]
      exact .handled hparse (fun m => relays_finishProcessMessage host _ context _ outcome) le_rfl
  | closeSettles j outcome host =>
    obtain rfl := Option.some.inj ha
    obtain ⟨request, requestId', id, s, hj, rfl⟩ := step_closeSettles.mp h
    obtain rfl := Option.some.inj (hj.symm.trans hold)
    obtain rfl := hadvance rfl
    simp only [Action.reply?, Option.toList_none, List.append_nil]
    exact stageReplies_closeSettles hstage _
  | respond j =>
    obtain rfl := Option.some.inj ha
    obtain ⟨request, response, hj, rfl⟩ := step_respond.mp h
    obtain rfl := Option.some.inj (hj.symm.trans hold)
    have hle := hstage.length_le
    simp only [Action.reply?, Option.toList_none, List.append_nil]
    unfold respond at hadvance
    split at hadvance
    · obtain rfl := hadvance rfl
      exact .answered hle
    · obtain rfl := hadvance rfl
      exact .threw hle
  | _ => cases ha

/-- A new request is the one of a text that arrives. -/
theorem Stems.message_of_none (hw : w.Stems (textsOf as)) (h : w.step a = some t)
    (hnone : w.requests[i]? = none) {stage : Stage} (hi : t.requests[i]? = some stage)
    (hdata : (textsOf (as ++ [a]))[i]? = some data) :
    ∃ host, a = .message data host ∧ i = w.requests.length := by
  have hle := List.getElem?_eq_none_iff.mp hnone
  have hlt := (List.getElem?_eq_some_iff.mp hi).1
  rw [requests_length_step h] at hlt
  cases a with
  | message data' host =>
    obtain rfl : i = w.requests.length := by
      simp only [Action.text?, Option.toList_some, List.length_singleton] at hlt
      omega
    rw [textsOf_append, hw.length] at hdata
    obtain rfl := Option.some.inj (List.getElem?_concat_length.symm.trans hdata)
    exact ⟨host, rfl, rfl⟩
  | _ =>
    simp only [Action.text?, Option.toList_none, List.length_nil] at hlt
    omega

/-- The stage of a text that arrives. -/
theorem stageReplies_message (w : Connection) (data : JsString) (host : Host) {stage : Stage}
    (hi : (w.message data host).requests[w.requests.length]? = some stage) :
    StageReplies [] data stage := by
  have hlast {new : Stage}
      (ht : (w.message data host).requests = w.requests ++ [new]) : new = stage := by
    rw [ht, List.getElem?_concat_length] at hi
    exact Option.some.inj hi
  unfold message at hlast
  split_ifs at hlast with hempty
  · obtain rfl := hlast rfl
    exact .answered (Nat.zero_le _)
  cases hparse : Json.parse data with
  | none =>
    simp only [hparse] at hlast
    obtain rfl := hlast rfl
    exact .answered (Nat.zero_le _)
  | some request =>
    cases hbuilds : buildRequestContext w.requests.length request with
    | error e =>
      simp only [hparse, hbuilds] at hlast
      obtain rfl := hlast rfl
      exact .threw (Nat.zero_le _)
    | ok context =>
      simp only [hparse, hbuilds] at hlast
      obtain rfl := hlast rfl
      exact .contextBuilt hparse rfl

/-- No action is about a request that has been answered. -/
theorem request?_ne_of_sent (honce : w.AnswersOnce) {m : Json} (hsent : .response i m ∈ w.sent)
    (h : w.step a = some t) : a.request? ≠ some i := by
  intro ha
  obtain ⟨stage, hstage, hfinished⟩ := exists_stage_of_request? h ha
  have hle := honce i stage hstage
  rw [hfinished, if_neg Bool.false_ne_true] at hle
  have hmem : m ∈ w.responses i := mem_responses.mpr hsent
  rw [List.length_eq_zero_iff.mp (Nat.le_zero.mp hle)] at hmem
  cases hmem

theorem Replies.step (hw : w.Replies as) (hstems : w.Stems (textsOf as)) (honce : w.AnswersOnce)
    (hreceived : w.RespondsToReceived) (h : w.step a = some t) : t.Replies (as ++ [a]) where
  stages i stage data hi hdata := by
    by_cases ha : a.request? = some i
    · exact hw.advance hstems h ha hi hdata
    rw [repliesTo_of_idle ha]
    cases hold : w.requests[i]? with
    | none =>
      obtain ⟨host, rfl, rfl⟩ := hstems.message_of_none h hold hi hdata
      obtain ⟨-, rfl⟩ := step_message.mp h
      rw [hw.fresh _ le_rfl]
      exact w.stageReplies_message data host hi
    | some old =>
      obtain rfl := Option.some.inj ((unmoved hold ha h).1.symm.trans hi)
      exact hw.stages i old data hold
        (hstems.text_eq (List.getElem?_eq_some_iff.mp hold).1 hdata)
  fresh i hle := by
    rw [requests_length_step h] at hle
    rw [repliesTo_of_idle fun ha => ?_]
    · exact hw.fresh i (by omega)
    · obtain ⟨stage, hstage, -⟩ := exists_stage_of_request? h ha
      have hlt := (List.getElem?_eq_some_iff.mp hstage).1
      omega
  sent i m data request hsent hdata hparse := by
    have hold (hsent : .response i m ∈ w.sent) : Relays request m (repliesTo i (as ++ [a])) := by
      rw [repliesTo_of_idle (request?_ne_of_sent honce hsent h)]
      exact hw.sent i m data request hsent (hstems.text_eq (hreceived i m hsent) hdata) hparse
    rcases sends_step h with hsame | ⟨frame, hsends, happend⟩
    · exact hold (hsame ▸ hsent)
    rcases List.mem_append.mp (happend ▸ hsent) with hmem | hnew
    · exact hold hmem
    obtain rfl := List.mem_singleton.mp hnew
    cases hsends with
    | refusal text ha hrefused =>
      subst ha
      rw [textsOf_append, hstems.length] at hdata
      obtain rfl := Option.some.inj (List.getElem?_concat_length.symm.trans hdata)
      rw [hrefused] at hparse
      cases hparse
    | response ha hi hm =>
      subst ha
      have hdata := hstems.text_eq (List.getElem?_eq_some_iff.mp hi).1 hdata
      simp only [repliesTo_append, Action.reply?, Option.toList_none, List.append_nil]
      cases hw.stages i _ data hi hdata with
      | handled hparse' hrelays =>
        obtain rfl := Option.some.inj (hparse'.symm.trans hparse)
        exact hrelays m hm

/-! ## Runs -/

theorem answersOnce_run (h : run step new as = some w) : w.AnswersOnce :=
  run_history (I := fun _ w => w.AnswersOnce)
    (fun _ _ _ _ hpast hw hstep => hw.step (respondsToReceived_run hpast) hstep)
    (by simp [AnswersOnce, new]) h

theorem replies_new : new.Replies [] where
  stages := by simp [new]
  fresh _ _ := rfl
  sent := by simp [new]

theorem replies_run (h : run step new as = some w) : w.Replies as :=
  run_history (I := fun past w => w.Replies past)
    (fun _ _ _ _ hpast hw hstep => hw.step (stems_run hpast) (answersOnce_run hpast)
      (respondsToReceived_run hpast) hstep) replies_new h

theorem length_repliesTo_le (h : run step new as = some w) (i : ℕ) :
    (repliesTo i as).length ≤ 1 := by
  have hreplies := replies_run h
  cases hi : w.requests[i]? with
  | none =>
    rw [hreplies.fresh i (List.getElem?_eq_none_iff.mp hi)]
    exact Nat.zero_le _
  | some stage =>
    obtain ⟨data, hdata⟩ := (stems_run h).exists_text hi
    exact (hreplies.stages i stage data hi hdata).length_le

/-- A call that settles is one for the tenant and the message in the text of its request. -/
theorem exists_call (h : run step new (as ++ [a]) = some w) {outcome : DwnOutcome} {host : Host}
    (ha : a = .dwnSettles i outcome host) : ∃ u request context requestId call data,
      run step new as = some u ∧
      u.requests[i]? = some (.processing request context requestId call) ∧
      (textsOf as)[i]? = some data ∧ Json.parse data = some request ∧
      CalledFor request call := by
  rw [run_append] at h
  obtain ⟨u, hu, hlast⟩ := Option.bind_eq_some_iff.mp h
  obtain ⟨t, hstep, -⟩ := Option.bind_eq_some_iff.mp hlast
  rw [ha] at hstep
  obtain ⟨request, context, requestId', call, hi, -, -⟩ := step_dwnSettles.mp hstep
  obtain ⟨data, hdata⟩ := (stems_run hu).exists_text hi
  cases (replies_run hu).stages i _ data hi hdata with
  | processing hparse hcall =>
    exact ⟨u, request, context, _, call, data, hu, hi, hdata, hparse, hcall⟩

/-- The DWN is called once for a request at most, for the tenant and with the message in its text,
and every response to a request says what came of that call. -/
theorem responses_relay (h : run step new as = some w) :
    (∀ i, (repliesTo i as).length ≤ 1) ∧
    (∀ front back i outcome host, as = front ++ .dwnSettles i outcome host :: back →
      ∃ u request context requestId call data, run step new front = some u ∧
        u.requests[i]? = some (.processing request context requestId call) ∧
        (textsOf front)[i]? = some data ∧ Json.parse data = some request ∧
        CalledFor request call) ∧
    ∀ i m data request, .response i m ∈ w.sent → (textsOf as)[i]? = some data →
      Json.parse data = some request → Relays request m (repliesTo i as) := by
  refine ⟨length_repliesTo_le h, fun front back i outcome host hsplit => ?_,
    (replies_run h).sent⟩
  rw [hsplit, ← List.singleton_append, ← List.append_assoc, run_append] at h
  obtain ⟨u, hu, -⟩ := Option.bind_eq_some_iff.mp h
  exact exists_call hu rfl

theorem responses_relay_opened : ∃ w, run step new openedAndClosed = some w ∧
    ∃ m data request, .response 0 m ∈ w.sent ∧ (textsOf openedAndClosed)[0]? = some data ∧
      Json.parse data = some request ∧ Relays request m [opens] := by
  obtain ⟨w, hrun, hm, hparses⟩ : ∃ w, run step new openedAndClosed = some w ∧
      (w.responses 0).length = 1 ∧ (Json.parse subscribeFrame).isSome = true := by
    apply exists_of_run
    simp only [openedAndClosed, subscribeFrame, closeFrame, js_append]
    decide +kernel
  obtain ⟨m, hm⟩ := List.length_eq_one_iff.mp hm
  have hsent : .response 0 m ∈ w.sent := mem_responses.mp (hm ▸ List.mem_singleton_self m)
  obtain ⟨request, hparse⟩ := Option.isSome_iff_exists.mp hparses
  exact ⟨w, hrun, m, subscribeFrame, request, hsent, rfl, hparse,
    (responses_relay hrun).2.2 0 m subscribeFrame request hsent rfl hparse⟩

/-! ## Requests that were handled -/

/-- The responses to each request are explained by its text. -/
def AllExplained (as : List Action) (w : Connection) : Prop :=
  ∀ (i : ℕ) (stage : Stage) (data : JsString), w.requests[i]? = some stage →
    (textsOf as)[i]? = some data → Explained data stage (w.responses i)

theorem AllExplained.step (hw : w.AllExplained as) (hwell : w.WellFormed)
    (hstems : w.Stems (textsOf as)) (hreceived : w.RespondsToReceived) (h : w.step a = some t) :
    t.AllExplained (as ++ [a]) := by
  intro i stage data hi hdata
  cases hold : w.requests[i]? with
  | some old =>
    have hkept := hstems.text_eq (List.getElem?_eq_some_iff.mp hold).1 hdata
    obtain ⟨stage', hstage', hex⟩ := explained_step hwell hold (hw i old data hold hkept) h
    exact Option.some.inj (hstage'.symm.trans hi) ▸ hex
  | none =>
    obtain ⟨host, rfl, rfl⟩ := hstems.message_of_none h hold hi hdata
    obtain ⟨-, rfl⟩ := step_message.mp h
    obtain ⟨stage', hstage', hex⟩ := explained_message hreceived data host
    exact Option.some.inj (hstage'.symm.trans hi) ▸ hex

theorem allExplained_run (h : run step new as = some w) : w.AllExplained as :=
  run_history (I := fun past w => w.AllExplained past)
    (fun _ _ _ _ hpast hw hstep => hw.step (wellFormed_run hpast) (stems_run hpast)
      (respondsToReceived_run hpast) hstep) (by simp [AllExplained, new]) h

/-- The handling of a text that is answerable ends with a response. -/
theorem exists_response (h : run step new as = some w) {stage : Stage}
    (hi : w.requests[i]? = some stage) (hfinished : stage.isFinished = true)
    (hdata : (textsOf as)[i]? = some data) (hanswerable : WsAnswerable data) :
    ∃ m, .response i m ∈ w.sent := by
  have hex := allExplained_run h i stage data hi hdata
  have hanswered : Answered data (w.responses i) := by
    generalize w.responses i = rs at hex
    cases hex with
    | answered hiff => exact hiff.mpr hanswerable
    | threw hnot => exact absurd hanswerable hnot
    | _ => cases hfinished
  obtain ⟨r, hr, -⟩ := hanswered
  obtain ⟨m, hm, -⟩ := List.map_eq_singleton_iff.mp hr
  exact ⟨m, mem_responses.mp (hm ▸ List.mem_singleton_self m)⟩

end Connection

end DwnServer
