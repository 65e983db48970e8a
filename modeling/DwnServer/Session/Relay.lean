import DwnServer.Connection.Replies
import DwnServer.Session.EndToEnd

/-!
# What the DWN did for a client

The steps of a session at the server are a run of the connection. So what the DWN replied there is
what the promise of the client is resolved with, and no request that was sent is forgotten.
-/
namespace DwnServer

open Transition
open Json (reparsed)
open Connection (repliesTo Relays textsOf)

namespace Connection

/-- Whoever listens has not been closed, and has its socket. -/
def KeepsSocket (w : Connection) : Prop :=
  w.listening = true → w.closes = [] ∧ w.socketClosed = false ∧ w.terminated = false

theorem keepsSocket_of_deaf {w : Connection} (hw : w.listening = false) {P : Prop} :
    w.KeepsSocket ∧ (w.listening = true → P) := by
  simp [KeepsSocket, hw]

theorem KeepsSocket.step {w t : Connection} {a : Action} (hw : w.KeepsSocket)
    (h : w.step a = some t) :
    t.KeepsSocket ∧ (t.listening = true → w.listening = true ∧ a ≠ .socketClose) := by
  cases a with
  | message data host =>
    obtain ⟨-, rfl⟩ := step_message.mp h
    rcases w.message_cases data host with ⟨text, hm⟩ | hm | ⟨request, context, -, hm⟩ <;>
      rw [hm] <;> exact ⟨hw, fun hl => ⟨hl, by simp⟩⟩
  | handle i host =>
    obtain ⟨request, context, -, rfl⟩ := step_handle.mp h
    exact ⟨hw, fun hl => ⟨hl, by simp⟩⟩
  | dwnSettles i outcome host =>
    obtain ⟨request, context, requestId, call, -, -, rfl⟩ := step_dwnSettles.mp h
    exact ⟨hw, fun hl => ⟨hl, by simp⟩⟩
  | closeSettles i outcome host =>
    obtain ⟨request, requestId, id, subscription, -, rfl⟩ := step_closeSettles.mp h
    exact ⟨hw, fun hl => ⟨hl, by simp⟩⟩
  | respond i =>
    obtain ⟨request, response, -, rfl⟩ := step_respond.mp h
    unfold respond
    split <;> exact ⟨hw, fun hl => ⟨hl, by simp⟩⟩
  | event i e =>
    obtain ⟨id, -, -, rfl⟩ := step_event h
    exact ⟨hw, fun hl => ⟨hl, by simp⟩⟩
  | heartbeat =>
    obtain ⟨-, rfl⟩ := step_heartbeat.mp h
    unfold heartbeat
    split
    · exact ⟨hw, fun hl => ⟨hl, by simp⟩⟩
    · exact keepsSocket_of_deaf rfl
  | pong =>
    obtain ⟨-, rfl⟩ := step_pong.mp h
    exact ⟨hw, fun hl => ⟨hl, by simp⟩⟩
  | socketClose | socketError =>
    simp only [Connection.step] at h
    split_ifs at h
    obtain rfl := Option.some.inj h
    exact keepsSocket_of_deaf rfl
  | close =>
    obtain rfl := Option.some.inj h
    exact keepsSocket_of_deaf rfl
  | closeAllSettles k resolved =>
    -- a call of `close` that settles has taken the listeners away
    obtain ⟨closed, hclosed, -, -, rfl⟩ := step_closeAllSettles.mp h
    have hclosing : w.listening = false := by
      by_contra hl
      have hnone := (hw (by simpa using hl)).1
      simp [hnone] at hclosed
    have hsame : (w.closeAllSettles k closed resolved).listening = w.listening := by
      cases resolved <;> rfl
    exact keepsSocket_of_deaf (hsame.trans hclosing)

end Connection

/-- The action at the server, unless a text arrives there. -/
def SessionAction.server? : SessionAction → Option Action
  | .server a => some a
  | _ => none

namespace Session

variable {s t : Session} {as : List SessionAction} {a : SessionAction} {n : ℕ} {r : ClientRequest}

/-! ## The server of a session -/

def serverActions (as : List SessionAction) : List Action := as.filterMap SessionAction.server?

theorem serverActions_append (as : List SessionAction) (a : SessionAction) :
    serverActions (as ++ [a]) = serverActions as ++ a.server?.toList := by
  cases h : a.server? <;> simp [serverActions, h]

/-- The texts that arrive are those that the server has received, and all else at the server is in
`as`. -/
structure Serves (as : List SessionAction) (bs : List Action) (s : Session) : Prop where
  linked : s.Linked
  texts : textsOf bs = s.received
  actions : bs.filter (·.text?.isNone) = serverActions as

/-- What the client does leaves the server alone. -/
theorem Serves.clientStep {bs : List Action} {client : JsonRpcSocket} {d : ℕ}
    {outgoing : List Outgoing} (hs : Serves as bs s) (ha : a.server? = none)
    (ht : Linked ⟨client, s.server, s.outgoing ++ outgoing, d⟩) :
    Serves (as ++ [a]) (bs ++ []) ⟨client, s.server, s.outgoing ++ outgoing, d⟩ where
  linked := ht
  texts := by
    rw [List.append_nil, hs.texts]
    simp only [received]
    rw [List.take_append_of_le_length hs.linked.arrived]
  actions := by
    rw [List.append_nil, hs.actions, serverActions_append, ha, Option.toList_none,
      List.append_nil]

theorem Serves.step {bs : List Action} (hs : Serves as bs s) (h : s.step a = some t) :
    ∃ more, run Connection.step s.server more = some t.server ∧
      Serves (as ++ [a]) (bs ++ more) t := by
  have ht := hs.linked.step h
  cases stepped_of_step h with
  | client b client hb hstep => exact ⟨[], rfl, hs.clientStep rfl ht⟩
  | deliver throws sending frame client hnext hstep => exact ⟨[], rfl, hs.clientStep rfl ht⟩
  | receive host o server hnext hstep =>
    refine ⟨[.message o.text host], by simp [run, hstep], ht, ?_, ?_⟩
    · have hlength := Connection.requests_length_step hstep
      simp only [Action.text?, Option.toList_some, List.length_singleton] at hlength
      rw [Connection.textsOf_append, hs.texts]
      simp only [received, hlength, List.take_add_one, hnext]
      simp [Action.text?]
    · rw [List.filter_append, hs.actions, serverActions_append]
      rfl
  | server b server hb hstep =>
    refine ⟨[b], by simp [run, hstep], ht, ?_, ?_⟩
    · have hlength : server.requests.length = s.server.requests.length := by
        simpa [hb] using Connection.requests_length_step hstep
      rw [Connection.textsOf_append, hs.texts, hb]
      simp [received, hlength]
    · rw [List.filter_append, hs.actions, serverActions_append, List.filter_singleton, hb]
      rfl

/-- The steps of a session at the server are a run of the connection. -/
theorem server_run (h : run step new as = some s) :
    ∃ bs, run Connection.step .new bs = some s.server ∧ Serves as bs s :=
  exists_run_of_part (p := Session.server) (I := Serves)
    (fun _ _ _ _ _ hs hstep => hs.step hstep) ⟨linked_new, rfl, rfl⟩ h

theorem Serves.repliesTo_eq {bs : List Action} (hs : Serves as bs s) (i : ℕ) :
    repliesTo i bs = repliesTo i (serverActions as) := by
  rw [repliesTo, repliesTo, ← hs.actions, List.filterMap_filter]
  refine List.filterMap_congr fun b _ => ?_
  cases b <;> rfl

/-! ## Replies -/

/-- The text that the server has received for a response. -/
theorem Linked.text_of_response (hs : s.Linked) {i : ℕ} {m : Json}
    (hmem : .response i m ∈ s.server.sent) (hsent : s.SentAs i n)
    (hr : s.client.requests[n]? = some r) : s.received[i]? = some r.request.text := by
  obtain ⟨front, back, hsplit⟩ := List.append_of_mem hmem
  obtain ⟨data, hdata, -⟩ := hs.stems.responses front i m back hsplit
  obtain ⟨o, request, ho, hrequest, rfl⟩ := hs.exists_request hdata
  obtain ⟨o', ho', rfl⟩ := sentAs_iff.mp hsent
  obtain rfl := Option.some.inj (ho.symm.trans ho')
  rw [JsonRpcSocket.getElem?_made, hr] at hrequest
  obtain rfl := Option.some.inj hrequest
  exact hdata

/-- A response that is no error carries the reply of the DWN, if the request was one for it. -/
theorem relays_success {request m : Json} {outcomes : List DwnOutcome}
    (h : Relays request m outcomes) (hprocess : MethodIn processMethods request)
    (herror : m.own (js "error") = none) : ∃ reply host, outcomes = [.ok reply] ∧
      m = processedResponse (requestId host request) reply := by
  cases h with
  | unasked h => exact absurd herror (h hprocess)
  | replied host h => exact ⟨_, host, rfl, h⟩
  | unclaimed _ h => exact absurd herror h
  | threw host h => simp [h] at herror

/-- A promise is resolved with what came of the one call of the DWN that the server made for that
request, for the tenant and with the message in it: without an error, the result carries the reply
of the DWN. -/
theorem replies_returned (h : run step new as = some s) (hids : s.client.TellsApart)
    (hr : s.client.requests[n]? = some r) {response : Json}
    (hresolved : r.settlement = some (.resolved response)) :
    ∃ i, s.SentAs i n ∧ (repliesTo i (serverActions as)).length ≤ 1 ∧
      (∃ m, response = m.reparsed ∧ Relays r.request.received m (repliesTo i (serverActions as))) ∧
      (r.request.method ∈ processMethods → response.own (js "error") = none →
        ∃ reply, repliesTo i (serverActions as) = [.ok reply] ∧
          response.own (js "result") =
            some (reparsed (.object [(js "reply", reply.toJson)]))) := by
  have hs := linked_run h
  obtain ⟨bs, hbs, hserves⟩ := server_run h
  obtain ⟨i, m, hsent, hmem, rfl⟩ := (routes_run h hids).resolved n r response hr hresolved
  have hmem := mem_sent_of_arrived hmem
  have hdata : (textsOf bs)[i]? = some r.request.text :=
    hserves.texts ▸ hs.text_of_response hmem hsent hr
  obtain ⟨hle, -, hrelay⟩ := Connection.responses_relay hbs
  have hrelays := hrelay i m _ _ hmem hdata r.request.parse_text
  rw [hserves.repliesTo_eq] at hrelays
  refine ⟨i, hsent, hserves.repliesTo_eq i ▸ hle i, ⟨m, rfl, hrelays⟩, fun hmethod herror => ?_⟩
  have hprocess : MethodIn processMethods r.request.received := by
    refine ⟨r.request.method, hmethod, ?_⟩
    rw [JsonRpcRequest.own_method_received]
    rfl
  rw [hs.own_error hmem] at herror
  obtain ⟨reply, host, hreply, rfl⟩ :=
    relays_success hrelays hprocess (Option.map_eq_none_iff.mp herror)
  refine ⟨reply, hreply, ?_⟩
  rw [processedResponse, Json.own_reparsed_of_nodup (names_success _ _)]
  rfl

theorem replies_returned_subscribed : ∃ s r response reply,
    run step new subscribedAndClosed = some s ∧ s.client.requests[0]? = some r ∧
      r.settlement = some (.resolved response) ∧
      repliesTo 0 (serverActions subscribedAndClosed) = [.ok reply] ∧
      response.own (js "result") = some (reparsed (.object [(js "reply", reply.toJson)])) := by
  obtain ⟨s, hrun, hids, hsettled⟩ : ∃ s, run step new subscribedAndClosed = some s ∧
      s.client.TellsApart ∧ (s.client.requests[0]?.any fun (r : ClientRequest) =>
        decide (r.request.method ∈ processMethods) && r.settlement.any (·.succeeded) &&
          decide (s.SentAs 0 0)) = true := by
    apply exists_of_run
    decide +kernel
  obtain ⟨r, hr, hsettled⟩ := (Option.any_eq_true _ _).mp hsettled
  obtain ⟨hmethod, hsent⟩ := Bool.and_eq_true_iff.mp hsettled
  obtain ⟨hmethod, hsettled⟩ := Bool.and_eq_true_iff.mp hmethod
  obtain ⟨response, hresolved, herror⟩ := response_of_succeeded hsettled
  obtain ⟨i, hi, -, -, hreturned⟩ := replies_returned hrun hids hr hresolved
  obtain rfl := (linked_run hrun).sentAs_inj hi (of_decide_eq_true hsent)
  obtain ⟨reply, hreply, hresult⟩ := hreturned (of_decide_eq_true hmethod) herror
  exact ⟨s, r, response, reply, hrun, hr, hresolved, hreply, hresult⟩

/-! ## Nothing is forgotten -/

/-- Every request is sent, unless the socket threw. -/
def Sent (s : Session) : Prop :=
  ∀ (n : ℕ) (r : ClientRequest), s.client.requests[n]? = some r →
    r.settlement = some .threw ∨ ∃ i, s.SentAs i n

theorem SentAs.append {i : ℕ} (h : s.SentAs i n) {more : List Outgoing}
    (ht : t.outgoing = s.outgoing ++ more) : t.SentAs i n := by
  obtain ⟨o, ho, -⟩ := sentAs_iff.mp h
  exact (sentAs_extends ⟨more, ht.symm⟩ (List.getElem?_eq_some_iff.mp ho).1).mpr h

theorem Sent.advance {b : ClientAction} {frames : List Frame} (hs : s.Sent)
    (h : s.Advances t b frames) : t.Sent := by
  intro n r hn
  cases hold : s.client.requests[n]? with
  | some r₀ =>
    rcases hs n r₀ hold with hthrew | ⟨i, hsent⟩
    · exact Or.inl (((JsonRpcSocket.settledTo_of_settlement hold hthrew).step h.step).settlement_eq
        hn)
    · exact Or.inr ⟨i, hsent.append h.outgoing⟩
  | none =>
    by_cases hthrew : r.settlement = some .threw
    · exact Or.inl hthrew
    have hle := List.getElem?_eq_none_iff.mp hold
    have hlt := (List.getElem?_eq_some_iff.mp hn).1
    have hmem : (⟨n, r.request.text⟩ : Outgoing) ∈
        t.client.sentFrom s.client.requests.length := by
      refine List.mem_filterMap.mpr ⟨n, List.mem_range'_1.mpr (by omega), ?_⟩
      simp [hn, Option.filter, hthrew]
    obtain ⟨j, hj⟩ := List.mem_iff_getElem?.mp hmem
    refine Or.inr ⟨s.outgoing.length + j, sentAs_iff.mpr ⟨⟨n, r.request.text⟩, ?_, rfl⟩⟩
    rw [h.outgoing, List.getElem?_append_right (Nat.le_add_right _ _), Nat.add_sub_cancel_left]
    exact hj

theorem sent_run (h : run step new as = some s) : s.Sent :=
  run_invariant (fun s a t hs hstep => by
      rcases advances_of_step hstep with ⟨b, frames, hadvances, -⟩ | ⟨b, server, -, rfl⟩
      · exact hs.advance hadvances
      · exact hs)
    (by simp [Sent, new, JsonRpcSocket.new]) h

/-! ## What the socket of the server takes -/

def isSocketClose : SessionAction → Bool
  | .server .socketClose => true
  | _ => false

/-- After these actions the socket of the server is open: it has been neither closed nor
terminated, and the client has not closed it. What is sent on another socket is dropped. -/
def SocketOpen (past : List SessionAction) (s : Session) : Prop :=
  s.server.socketClosed = false ∧ s.server.terminated = false ∧
    ∀ a ∈ past, isSocketClose a = false

/-- A server that listens has its socket open. -/
theorem socketOpen_of_listening (h : run step new as = some s) (hlistening : s.server.listening) :
    s.SocketOpen as := by
  have hopen : s.server.KeepsSocket ∧ (s.server.listening = true →
      ∀ a ∈ as, isSocketClose a = false) := by
    refine run_history (I := fun past s => s.server.KeepsSocket ∧ (s.server.listening = true →
      ∀ a ∈ past, isSocketClose a = false)) (fun past u a v _ hI hstep => ?_)
      ⟨fun _ => ⟨rfl, rfl, rfl⟩, by simp⟩ h
    obtain ⟨hkeeps, hnone⟩ := hI
    have hserver : ∀ {b : Action} {server : Connection}, u.server.step b = some server →
        (b ≠ .socketClose → isSocketClose a = false) → server.KeepsSocket ∧
          (server.listening = true → ∀ c ∈ past ++ [a], isSocketClose c = false) := by
      intro b server hstep ha
      obtain ⟨hkeeps', hback⟩ := hkeeps.step hstep
      refine ⟨hkeeps', fun hl c hc => ?_⟩
      obtain ⟨hl', hne⟩ := hback hl
      rcases List.mem_append.mp hc with hold | hnew
      · exact hnone hl' c hold
      · exact List.mem_singleton.mp hnew ▸ ha hne
    cases stepped_of_step hstep with
    | client b client hb hclient =>
      refine ⟨hkeeps, fun hl c hc => ?_⟩
      rcases List.mem_append.mp hc with hold | hnew
      · exact hnone hl c hold
      · exact List.mem_singleton.mp hnew ▸ rfl
    | deliver throws sending frame client hnext hclient =>
      refine ⟨hkeeps, fun hl c hc => ?_⟩
      rcases List.mem_append.mp hc with hold | hnew
      · exact hnone hl c hold
      · exact List.mem_singleton.mp hnew ▸ rfl
    | receive host o server hnext hserver' => exact hserver hserver' fun _ => rfl
    | server b server hb hserver' =>
      refine hserver hserver' fun hne => ?_
      cases b <;> first | rfl | exact absurd rfl hne
  obtain ⟨-, hclosed, hterminated⟩ := hopen.1 hlistening
  exact ⟨hclosed, hterminated, hopen.2 hlistening⟩

theorem sent_prefix_run {front : List SessionAction} {u : Session} (h : run step new as = some s)
    (hfront : front <+: as) (hu : run step new front = some u) :
    u.server.sent <+: s.server.sent := by
  obtain ⟨back, rfl⟩ := hfront
  rw [run_append, hu] at h
  refine run_invariant (I := fun s : Session => u.server.sent <+: s.server.sent)
    (fun v a t hv hstep => hv.trans ?_) List.prefix_rfl h
  cases stepped_of_step hstep with
  | client | deliver => exact List.prefix_rfl
  | receive host o server hnext hserver =>
    obtain ⟨frames, hframes⟩ := Connection.sent_step hserver
    exact ⟨frames, hframes.symm⟩
  | server b server hb hserver =>
    obtain ⟨frames, hframes⟩ := Connection.sent_step hserver
    exact ⟨frames, hframes.symm⟩

/-- Nothing is on its way that the sockets took, and the server has handled all that it has
received. -/
structure Quiet (as : List SessionAction) (s : Session) : Prop where
  received : s.server.listening = true → s.server.requests.length = s.outgoing.length
  handled : ∀ stage ∈ s.server.requests, stage.isFinished = true
  delivered : ∀ front u, front <+: as → run step new front = some u → u.SocketOpen front →
    u.server.sent.length ≤ s.delivered

/-- No response to the request was sent while the socket of the server was open. -/
def Dropped (as : List SessionAction) (s : Session) (n : ℕ) : Prop :=
  ∃ i, s.SentAs i n ∧ ∀ front u m, front <+: as → run step new front = some u →
    u.SocketOpen front → .response i m ∉ u.server.sent

/-- When nothing is on its way, every promise of a request that the server can answer is settled:
with the response to it, unless its timer has fired or the socket threw, or the server has stopped
to listen and has not responded before its socket was closed. -/
theorem quiet_settles (h : run step new as = some s) (hids : s.client.TellsApart)
    (hquiet : Quiet as s) (hr : s.client.requests[n]? = some r)
    (hanswers : WsAnswers r.request.received) :
    r.settlement = some .threw ∨ r.settlement = some .timedOut ∨
      (∃ i m, s.SentAs i n ∧ .response i m ∈ s.server.sent ∧
        r.settlement = some (.resolved m.reparsed)) ∨
      s.server.listening = false ∧ Dropped as s n := by
  have hs := linked_run h
  rcases sent_run h n r hr with hthrew | ⟨i, hsent⟩
  · exact Or.inl hthrew
  by_cases hresponds : ∃ front u m, front <+: as ∧ run step new front = some u ∧
    u.SocketOpen front ∧ .response i m ∈ u.server.sent
  · -- a response that the socket took has arrived
    obtain ⟨front, u, m, hfront, hu, hopen, hmem⟩ := hresponds
    have hearlier := sent_prefix_run h hfront hu
    have harrived : .response i m ∈ s.arrivedFrames :=
      (List.prefix_take_iff.mpr ⟨hearlier, hquiet.delivered front u hfront hu hopen⟩).subset hmem
    rcases (requests_answered h hids hr).2 i m hsent harrived with htimedOut | hresolved
    · exact Or.inr (Or.inl htimedOut)
    · exact Or.inr (Or.inr (Or.inl ⟨i, m, hsent, hearlier.subset hmem, hresolved⟩))
  · refine Or.inr (Or.inr (Or.inr ⟨?_, i, hsent, fun front u m hfront hu hopen hmem =>
      hresponds ⟨front, u, m, hfront, hu, hopen, hmem⟩⟩))
    -- a server that listens has received the request, and has responded to it
    by_contra hlistening
    have hlistening : s.server.listening = true := by simpa using hlistening
    obtain ⟨bs, hbs, hserves⟩ := server_run h
    obtain ⟨o, ho, rfl⟩ := sentAs_iff.mp hsent
    have hlt : i < s.server.requests.length :=
      hquiet.received hlistening ▸ (List.getElem?_eq_some_iff.mp ho).1
    have hstage := List.getElem?_eq_getElem hlt
    obtain ⟨data, hdata⟩ := hs.stems.exists_text hstage
    obtain ⟨o', r', ho', hr', rfl⟩ := hs.exists_request hdata
    obtain rfl := Option.some.inj (ho.symm.trans ho')
    rw [JsonRpcSocket.getElem?_made, hr] at hr'
    obtain rfl := Option.some.inj hr'
    obtain ⟨m, hmem⟩ := Connection.exists_response hbs hstage
      (hquiet.handled _ (List.getElem_mem hlt)) (hserves.texts ▸ hdata)
      ((wsAnswerable_iff r.request.parse_text).mpr hanswers)
    exact hresponds ⟨as, s, m, List.prefix_rfl, h, socketOpen_of_listening h hlistening, hmem⟩

theorem wsAnswers_toSubscribe : WsAnswers toSubscribe.received := by
  have hmethod : toSubscribe.received.own (js "method") =
      some (.string (js "rpc.subscribe.dwn.processMessage")) := by decide +kernel
  refine ⟨_, ⟨hmethod, fun _ _ => ?_⟩, Or.inl ⟨?_, ?_, fun id hid => ?_⟩⟩
  · exact ⟨by decide +kernel, Or.inr (by decide +kernel)⟩
  · decide +kernel
  · decide +kernel
  · obtain rfl : .string (js "a") = id := by
      have hown : ownId? toSubscribe.received = some (.string (js "a")) := by decide +kernel
      exact Option.some.inj (hown.symm.trans hid)
    rfl

theorem quiet_settles_subscribed : ∃ s r, run step new subscribedAndClosed = some s ∧
    Quiet subscribedAndClosed s ∧ s.server.listening = true ∧ s.client.requests[0]? = some r ∧
      (r.settlement = some .threw ∨ r.settlement = some .timedOut ∨
        ∃ i m, s.SentAs i 0 ∧ .response i m ∈ s.server.sent ∧
          r.settlement = some (.resolved m.reparsed)) := by
  obtain ⟨s, hrun, hids, hlistening, hreceived, hhandled, hdelivered, hrequest⟩ : ∃ s,
      run step new subscribedAndClosed = some s ∧ s.client.TellsApart ∧
        s.server.listening = true ∧ s.server.requests.length = s.outgoing.length ∧
        (∀ stage ∈ s.server.requests, stage.isFinished = true) ∧
        s.delivered = s.server.sent.length ∧ (s.client.requests[0]?.any fun (r : ClientRequest) =>
          decide (r.request = toSubscribe)) = true := by
    apply exists_of_run
    decide +kernel
  obtain ⟨r, hr, hrequest⟩ := (Option.any_eq_true _ _).mp hrequest
  have hanswers : WsAnswers r.request.received :=
    of_decide_eq_true hrequest ▸ wsAnswers_toSubscribe
  have hquiet : Quiet subscribedAndClosed s := by
    refine ⟨fun _ => hreceived, hhandled, fun front u hfront hu _ => ?_⟩
    exact hdelivered ▸ (sent_prefix_run hrun hfront hu).length_le
  refine ⟨s, r, hrun, hquiet, hlistening, hr, ?_⟩
  rcases quiet_settles hrun hids hquiet hr hanswers with
    hthrew | htimedOut | hresolved | ⟨hclosed, -⟩
  · exact Or.inl hthrew
  · exact Or.inr (Or.inl htimedOut)
  · exact Or.inr (Or.inr hresolved)
  · cases hlistening.symm.trans hclosed

end Session

end DwnServer
