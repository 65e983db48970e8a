import DwnServer.Client.Settled
import DwnServer.Session.Links

/-!
# Frames find their calls

As long as the ids that the client uses come back as they were and differ from one another, a frame
of the server bears the id of the call that it belongs to and no other. So a request is settled
with what the server answered to that very request, and a subscription gets the events of its own.
-/
namespace DwnServer

open Transition
open Json (reparsed)

/-- The request is one to open a subscription. -/
def JsonRpcRequest.asks (request : JsonRpcRequest) : Bool :=
  (js "rpc.subscribe.").isPrefixOf request.method && request.method ≠ closeMethod &&
    request.subscription.truthy

namespace JsonRpcSocket

/-- The ids of the requests and of the subscriptions. -/
def usedIds (w : JsonRpcSocket) : List JsValue := w.made.map (·.id) ++ w.calls.map Prod.fst

/-- The ids that the client uses come back as they were and differ from one another, and requests
that ask for a subscription are made by `subscribe`. -/
structure TellsApart (w : JsonRpcSocket) : Prop where
  returns : ∀ id ∈ w.usedIds, id.Returns
  apart : w.usedIds.Pairwise fun id id' => id.strictEquals id' = false
  asked : ∀ i < w.made.length, ∀ r ∈ w.made[i]?, r.asks = true → i ∈ w.calls.map Prod.snd
  names : ∀ r ∈ w.made, ∀ subscription ∈ r.subscription, subscription.names.Nodup

instance (w : JsonRpcSocket) : Decidable w.TellsApart :=
  decidable_of_iff
    ((∀ id ∈ w.usedIds, id.Returns) ∧
      w.usedIds.Pairwise (fun id id' => id.strictEquals id' = false) ∧
      (∀ i < w.made.length, ∀ r ∈ w.made[i]?, r.asks = true → i ∈ w.calls.map Prod.snd) ∧
      ∀ r ∈ w.made, ∀ subscription ∈ r.subscription, subscription.names.Nodup)
    ⟨fun ⟨returns, apart, asked, names⟩ => ⟨returns, apart, asked, names⟩,
      fun h => ⟨h.returns, h.apart, h.asked, h.names⟩⟩

variable {w t : JsonRpcSocket} {a : ClientAction} {listener listener' : MessageListener}
  {v v' : JsValue}

/-! ## One id, one listener -/

/-- The place of a listener's id. -/
def place (w : JsonRpcSocket) : MessageListener → ℕ
  | .handleResponse i => i
  | .socketEventListener s => w.made.length + s

theorem getElem?_place (h : w.listenerId listener = some v) :
    w.usedIds[w.place listener]? = some v := by
  cases listener with
  | handleResponse i =>
    have hmade : (w.made.map (·.id))[i]? = some v := by
      rw [List.getElem?_map, getElem?_made, Option.map_map]
      exact h
    rw [usedIds, place, List.getElem?_append_left (List.getElem?_eq_some_iff.mp hmade).1, hmade]
  | socketEventListener s =>
    have hcalls : (w.calls.map Prod.fst)[s]? = some v := by
      rw [calls, List.map_map, List.getElem?_map]
      exact h
    rw [usedIds, place, List.getElem?_append_right (by simp)]
    simpa using hcalls

theorem place_inj (h : w.listenerId listener = some v) (h' : w.listenerId listener' = some v')
    (hplace : w.place listener = w.place listener') : listener = listener' := by
  have hlt : ∀ {i : ℕ} {v : JsValue}, w.listenerId (.handleResponse i) = some v →
      i < w.made.length := by
    intro i v hi
    obtain ⟨r, hr, -⟩ := Option.map_eq_some_iff.mp hi
    simpa [made] using (List.getElem?_eq_some_iff.mp hr).1
  cases listener with
  | handleResponse i =>
    cases listener' with
    | handleResponse j => exact congrArg _ hplace
    | socketEventListener s =>
      have hi := hlt h
      simp only [place] at hplace
      omega
  | socketEventListener s =>
    cases listener' with
    | handleResponse j =>
      have hj := hlt h'
      simp only [place] at hplace
      omega
    | socketEventListener s' =>
      simp only [place] at hplace
      exact congrArg _ (by omega)

/-- Equal ids are those of one listener. -/
theorem TellsApart.listener_eq (hw : w.TellsApart) (h : w.listenerId listener = some v)
    (h' : w.listenerId listener' = some v') (hsame : v.strictEquals v' = true) :
    listener = listener' := by
  refine place_inj h h' ?_
  obtain ⟨hlt, hv⟩ := List.getElem?_eq_some_iff.mp (getElem?_place h)
  obtain ⟨hlt', hv'⟩ := List.getElem?_eq_some_iff.mp (getElem?_place h')
  have hapart := List.pairwise_iff_getElem.mp hw.apart
  rcases lt_trichotomy (w.place listener) (w.place listener') with hless | heq | hless
  · have hne := hapart _ _ hlt hlt' hless
    rw [hv, hv', hsame] at hne
    cases hne
  · exact heq
  · have hne := hapart _ _ hlt' hlt hless
    rw [hv, hv', JsValue.strictEquals_comm hsame] at hne
    cases hne

theorem TellsApart.returns_of_listenerId (hw : w.TellsApart) (h : w.listenerId listener = some v) :
    v.Returns :=
  hw.returns v (List.mem_of_getElem? (getElem?_place h))

/-- Ids that are told apart were so before. -/
theorem TellsApart.of_step (ht : t.TellsApart) (h : w.step a = some t) : w.TellsApart := by
  obtain ⟨more, hmade, -⟩ := exists_made_step h
  obtain ⟨more', hcalls, hnew⟩ : ∃ more', t.calls = w.calls ++ more' ∧
      ∀ c ∈ more', w.made.length ≤ c.2 := by
    rcases made_step h with hadds | ⟨request, uuid, sends, -, rfl⟩
    · exact ⟨[], by simp [hadds.calls], nofun⟩
    · exact ⟨_, calls_subscribe w request uuid sends, by simp⟩
  have hsublist : w.usedIds.Sublist t.usedIds := by
    refine List.Sublist.append ?_ ?_
    · rw [hmade, List.map_append]
      exact List.sublist_append_left _ _
    · rw [hcalls, List.map_append]
      exact List.sublist_append_left _ _
  refine ⟨fun id hid => ht.returns id (hsublist.subset hid), ht.apart.sublist hsublist,
    fun i hi r hr hasks => ?_, fun r hr => ht.names r (hmade ▸ List.mem_append_left _ hr)⟩
  have hasked := ht.asked i (by rw [hmade, List.length_append]; omega) r
    (by rw [hmade, List.getElem?_append_left hi]; exact hr) hasks
  rw [hcalls, List.map_append] at hasked
  rcases List.mem_append.mp hasked with hold | hlater
  · exact hold
  · obtain ⟨c, hc, rfl⟩ := List.mem_map.mp hlater
    have hle := hnew c hc
    omega

end JsonRpcSocket

namespace Session

variable {s t : Session} {frame : Frame} {o : Outgoing} {i n : ℕ} {r : JsonRpcRequest}

/-! ## Where a frame belongs -/

/-- The request of the client that is request `i` of the server. -/
def SentAs (s : Session) (i n : ℕ) : Prop := (s.outgoing[i]?).map (·.request) = some n

theorem sentAs_iff : s.SentAs i n ↔ ∃ o, s.outgoing[i]? = some o ∧ o.request = n :=
  Option.map_eq_some_iff

/-- The text that the server has received is the one of a request of the client. -/
theorem Linked.exists_request (hs : s.Linked) {data : JsString} (h : s.received[i]? = some data) :
    ∃ o r, s.outgoing[i]? = some o ∧ s.client.made[o.request]? = some r ∧ data = r.text := by
  rw [received, List.getElem?_map] at h
  obtain ⟨o, ho, rfl⟩ := Option.map_eq_some_iff.mp h
  have hmem := List.mem_of_getElem? ho
  rw [List.getElem?_take] at ho
  split_ifs at ho
  obtain ⟨r, hr, htext⟩ := hs.outgoing o (List.mem_of_mem_take hmem)
  exact ⟨o, r, ho, hr, htext⟩

/-- Requests of the client are sent once. -/
theorem Linked.sentAs_inj (hs : s.Linked) {j : ℕ} (hi : s.SentAs i n) (hj : s.SentAs j n) :
    i = j := by
  obtain ⟨o, ho, rfl⟩ := sentAs_iff.mp hi
  obtain ⟨o', ho', hsame⟩ := sentAs_iff.mp hj
  obtain ⟨hlt, hget⟩ := List.getElem?_eq_some_iff.mp ho
  obtain ⟨hlt', hget'⟩ := List.getElem?_eq_some_iff.mp ho'
  have hincreasing := List.pairwise_iff_getElem.mp hs.increasing
  rcases lt_trichotomy i j with hless | heq | hless
  · have hne := hincreasing i j hlt hlt' hless
    rw [hget, hget'] at hne
    omega
  · exact heq
  · have hne := hincreasing j i hlt' hlt hless
    rw [hget, hget'] at hne
    omega

/-- A call of `subscribe` made one request. -/
theorem Linked.call_inj (hs : s.Linked) {k k' : ℕ} {c c' : JsValue × ℕ}
    (hk : s.client.calls[k]? = some c) (hk' : s.client.calls[k']? = some c') (h : c.2 = c'.2) :
    k = k' := by
  obtain ⟨hlt, hget⟩ := List.getElem?_eq_some_iff.mp hk
  obtain ⟨hlt', hget'⟩ := List.getElem?_eq_some_iff.mp hk'
  have hordered := List.pairwise_iff_getElem.mp hs.ordered
  rcases lt_trichotomy k k' with hless | heq | hless
  · have hne := hordered k k' hlt hlt' hless
    rw [hget, hget'] at hne
    omega
  · exact heq
  · have hne := hordered k' k hlt' hlt hless
    rw [hget, hget'] at hne
    omega

theorem Linked.findIdx?_call (hs : s.Linked) {k : ℕ} {c : JsValue × ℕ}
    (hk : s.client.calls[k]? = some c) :
    s.client.subscriptions.findIdx? (·.request = c.2) = some k := by
  have hcall : ∀ {j : ℕ} (hj : j < s.client.subscriptions.length),
      s.client.calls[j]? =
        some (s.client.subscriptions[j].id, s.client.subscriptions[j].request) := by
    intro j hj
    rw [JsonRpcSocket.calls, List.getElem?_map, List.getElem?_eq_getElem hj]
    rfl
  have hlt : k < s.client.subscriptions.length := by
    simpa [JsonRpcSocket.calls] using (List.getElem?_eq_some_iff.mp hk).1
  refine List.findIdx?_eq_some_iff_getElem.mpr ⟨hlt, ?_, fun j hj hsame => ?_⟩
  · obtain rfl := Option.some.inj (hk.symm.trans (hcall hlt))
    simp
  · have heq := hs.call_inj (hcall (hj.trans hlt)) hk (by simpa using hsame)
    omega

/-- A response in the log was made for the request that it bears the number of. -/
theorem Linked.response (hs : s.Linked) {m : Json} (h : .response i m ∈ s.server.sent) :
    ∃ o r, s.outgoing[i]? = some o ∧ s.client.made[o.request]? = some r ∧
      Connection.MadeFor r.received m := by
  obtain ⟨front, back, hsplit⟩ := List.append_of_mem h
  obtain ⟨data, hdata, hanswer⟩ := hs.stems.responses front i m back hsplit
  obtain ⟨o, r, ho, hr, rfl⟩ := hs.exists_request hdata
  refine ⟨o, r, ho, hr, ?_⟩
  rcases (hanswer r.received r.parse_text).made with hmade | hecho
  · exact hmade
  · simp at hecho

/-- A subscription that the server opened was asked for. -/
theorem Linked.opened (hs : s.Linked) {id : SubscriptionId} (h : (id, i) ∈ s.server.opened) :
    ∃ o r, s.outgoing[i]? = some o ∧ s.client.made[o.request]? = some r ∧ r.asks = true ∧
      id = subscriptionIdOf i r.received := by
  obtain ⟨data, request, hdata, hparse, rfl, ⟨⟨method, hmethod, hextends⟩, htruthy⟩,
    hprocess⟩ := hs.stems.opened id i h
  obtain ⟨o, r, ho, hr, rfl⟩ := hs.exists_request hdata
  obtain rfl := Option.some.inj (r.parse_text.symm.trans hparse)
  refine ⟨o, r, ho, hr, ?_, rfl⟩
  rw [JsonRpcRequest.own_method_received] at hmethod
  obtain rfl : r.method = method := by simpa using hmethod
  have hclose : r.method ≠ closeMethod := by
    rintro hclose
    refine Connection.not_methodIn_close hprocess ⟨r.method, by simp [hclose], ?_⟩
    rw [JsonRpcRequest.own_method_received]
    rfl
  rw [JsonRpcRequest.own_subscription_received] at htruthy
  simp [JsonRpcRequest.asks, hextends, hclose, JsValue.truthy_of_reparsed htruthy]

/-- A subscription that the server opened is the one of a call of `subscribe`. -/
theorem Linked.opened_call (hs : s.Linked) (hids : s.client.TellsApart) {id : SubscriptionId}
    (h : (id, i) ∈ s.server.opened) : ∃ k c, s.client.calls[k]? = some c ∧ s.SentAs i c.2 ∧
      s.client.listenerId (.socketEventListener k) = some c.1 ∧
      id = .of i (c.1.map reparsed) := by
  obtain ⟨o, r, ho, hr, hasks, rfl⟩ := hs.opened h
  have hasked := hids.asked o.request (List.getElem?_eq_some_iff.mp hr).1 r hr hasks
  obtain ⟨c, hc, hrequest⟩ := List.mem_map.mp hasked
  obtain ⟨k, hk⟩ := List.mem_iff_getElem?.mp hc
  obtain ⟨r', hr', hid⟩ := hs.calls c hc
  rw [hrequest, hr] at hr'
  obtain rfl := Option.some.inj hr'
  refine ⟨k, c, hk, sentAs_iff.mpr ⟨o, ho, hrequest.symm⟩, ?_, ?_⟩
  · rw [JsonRpcSocket.calls, List.getElem?_map] at hk
    obtain ⟨sub, hsub, rfl⟩ := Option.map_eq_some_iff.mp hk
    rw [JsonRpcSocket.listenerId, hsub]
    rfl
  · rw [subscriptionIdOf, JsonRpcRequest.own_subscription_received,
      JsValue.readOptional_reparsed (hids.names r (List.mem_of_getElem? hr)), ← hid]

/-- An event in the log is one of a subscription that was opened. -/
theorem Linked.event (hs : s.Linked) {m : Json} (h : .event i m ∈ s.server.sent) :
    ∃ id o r e, (id, i) ∈ s.server.opened ∧ s.outgoing[i]? = some o ∧
      s.client.made[o.request]? = some r ∧
      m = createJsonRpcSuccessResponse id.value (some (.object [(js "event", e)])) := by
  obtain ⟨id, e, hopened, hm⟩ := hs.stems.events i m h
  obtain ⟨o, r, ho, hr, -, -⟩ := hs.opened hopened
  exact ⟨id, o, r, e, hopened, ho, hr, hm⟩

/-- A frame belongs to the call whose listener waits for the id in it. -/
structure Belongs (s : Session) (frame : Frame) (listener : MessageListener) : Prop where
  origin : (s.origin frame).listener = some listener
  read : JsonRpcSocket.frameOf frame.message.stringify = some frame.message.reparsed
  bears : ∃ v, s.client.listenerId listener = some v ∧
    frame.message.reparsed.own (js "id") = v.map reparsed

theorem Linked.belongs_response (hs : s.Linked) (hids : s.client.TellsApart) {m : Json}
    (h : .response i m ∈ s.server.sent) :
    ∃ n, s.SentAs i n ∧ s.Belongs (.response i m) (.handleResponse n) := by
  obtain ⟨o, r, ho, hr, host, hmade⟩ := hs.response h
  have hlistener : s.client.listenerId (.handleResponse o.request) = some r.id := by
    rw [JsonRpcSocket.getElem?_made] at hr
    obtain ⟨c, hc, rfl⟩ := Option.map_eq_some_iff.mp hr
    rw [JsonRpcSocket.listenerId, hc]
    rfl
  have hreturns := hids.returns_of_listenerId hlistener
  have hid := JsonRpcRequest.requestId_received (hs.ids r (List.mem_of_getElem? hr)) hreturns host
  refine ⟨o.request, sentAs_iff.mpr ⟨o, ho, rfl⟩, ?_, ?_, r.id, hlistener, ?_⟩
  · simp [origin, ho, Origin.listener]
  · rcases hmade with ⟨code, text, rfl⟩ | ⟨result, rfl⟩ <;> exact frameOf_stringify
  · rcases hmade with ⟨code, text, rfl⟩ | ⟨result, rfl⟩
    · rw [Frame.message, Json.own_reparsed_of_nodup (names_error _ _ _), own_id_error, hid,
        hreturns.map_map]
    · rw [Frame.message, Json.own_reparsed_of_nodup (names_success _ _), own_id_success, hid,
        hreturns.map_map]

theorem Linked.belongs_event (hs : s.Linked) (hids : s.client.TellsApart) {m : Json}
    (h : .event i m ∈ s.server.sent) : ∃ k c, s.client.calls[k]? = some c ∧ s.SentAs i c.2 ∧
      s.Belongs (.event i m) (.socketEventListener k) := by
  obtain ⟨id, _, _, e, hopened, -, -, rfl⟩ := hs.event h
  obtain ⟨k, c, hk, hsent, hlistener, rfl⟩ := hs.opened_call hids hopened
  obtain ⟨o, ho, hrequest⟩ := sentAs_iff.mp hsent
  have hfind := hs.findIdx?_call hk
  rw [← hrequest] at hfind
  refine ⟨k, c, hk, hsent, ?_, frameOf_stringify, c.1, hlistener, ?_⟩
  · simp [origin, ho, hfind, Origin.listener]
  · rw [Frame.message, Json.own_reparsed_of_nodup (names_success _ _), own_id_success,
      SubscriptionId.of, (hids.returns_of_listenerId hlistener).map_map]

/-- A frame bears the id of its call and no other. -/
theorem Belongs.guard {listener : MessageListener} (h : s.Belongs frame listener)
    (hids : s.client.TellsApart) (throws : ℕ → Bool) (sending : ℕ → Sending) :
    s.client.Truthful (s.arrival frame throws sending) ∧
      s.client.Unambiguous (s.arrival frame throws sending) := by
  obtain ⟨v, hlistener, hown⟩ := h.bears
  have hreturns : JsValue.strictEquals (v.map reparsed) v = true :=
    hids.returns_of_listenerId hlistener
  constructor
  · intro message hmessage
    obtain rfl := Option.some.inj (h.read.symm.trans hmessage)
    refine ⟨fun listener' horigin => ?_, fun hother => ?_⟩
    · obtain rfl := Option.some.inj (h.origin.symm.trans horigin)
      simp [JsonRpcSocket.bears, hlistener, hown, hreturns]
    · have horigin := h.origin
      rw [hother] at horigin
      cases horigin
  · intro message hmessage listener' hmem hbears
    obtain rfl := Option.some.inj (h.read.symm.trans hmessage)
    rw [JsonRpcSocket.bears, Option.any_eq_true] at hbears
    obtain ⟨v', hlistener', hsame⟩ := hbears
    rw [hown] at hsame
    rw [h.origin, hids.listener_eq hlistener hlistener'
      (JsValue.strictEquals_of_both hreturns hsame)]

theorem Linked.belongs (hs : s.Linked) (hids : s.client.TellsApart)
    (h : frame ∈ s.server.sent) : ∃ listener, s.Belongs frame listener := by
  cases frame with
  | response i m =>
    obtain ⟨n, -, hbelongs⟩ := hs.belongs_response hids h
    exact ⟨_, hbelongs⟩
  | event i m =>
    obtain ⟨k, c, -, -, hbelongs⟩ := hs.belongs_event hids h
    exact ⟨_, hbelongs⟩

/-- The steps of the client in a session. -/
theorem Linked.guard (hs : s.Linked) (hids : s.client.TellsApart)
    (h : frame ∈ s.server.sent) (throws : ℕ → Bool) (sending : ℕ → Sending) :
    s.client.Truthful (s.arrival frame throws sending) ∧
      s.client.Unambiguous (s.arrival frame throws sending) := by
  obtain ⟨listener, hbelongs⟩ := hs.belongs hids h
  exact hbelongs.guard hids throws sending

/-! ## What has come of the calls -/

instance (s : Session) (i n : ℕ) : Decidable (s.SentAs i n) := inferInstanceAs (Decidable (_ = _))

/-- The events of the subscription that request `n` of the client asked for, among some frames. -/
def eventsIn (s : Session) (n : ℕ) (frames : List Frame) : List Json :=
  frames.filterMap fun
    | .event i m => if s.SentAs i n then some m.reparsed else none
    | .response _ _ => none

/-- The frames that have arrived. -/
def arrivedFrames (s : Session) : List Frame := s.server.sent.take s.delivered

/-- What has come of the requests and the subscriptions of the client. -/
structure Routes (s : Session) : Prop where
  attended : s.client.Attended
  sent : ∀ o ∈ s.outgoing, ∀ r, s.client.requests[o.request]? = some r →
    r.settlement ≠ some .threw
  resolved : ∀ n r response, s.client.requests[n]? = some r →
    r.settlement = some (.resolved response) →
    ∃ i m, s.SentAs i n ∧ .response i m ∈ s.arrivedFrames ∧ response = m.reparsed
  settled : ∀ i n m r, s.SentAs i n → .response i m ∈ s.arrivedFrames →
    s.client.requests[n]? = some r → r.settlement ≠ none
  delivered : ∀ (k : ℕ) (sub : ClientSubscription), s.client.subscriptions[k]? = some sub →
    sub.delivered <+: s.eventsIn sub.request s.arrivedFrames
  complete : ∀ (k : ℕ) (sub : ClientSubscription), s.client.subscriptions[k]? = some sub →
    .socketEventListener k ∈ s.client.listeners →
    sub.delivered = s.eventsIn sub.request s.arrivedFrames

theorem routes_new : new.Routes where
  attended := by simp [JsonRpcSocket.Attended, new, JsonRpcSocket.new]
  sent := by simp [new]
  resolved := by simp [new, JsonRpcSocket.new]
  settled := by simp [new, JsonRpcSocket.new]
  delivered := by simp [new, JsonRpcSocket.new]
  complete := by simp [new, JsonRpcSocket.new]

/-- What happens to the client in a step of it: `frames` arrive, at most one. -/
structure Advances (s t : Session) (a : ClientAction) (frames : List Frame) : Prop where
  step : s.client.step a = some t.client
  server : t.server = s.server
  outgoing : t.outgoing = s.outgoing ++ t.client.sentFrom s.client.requests.length
  arrived : t.arrivedFrames = s.arrivedFrames ++ frames
  frames : frames = [] ∧ a.isMessage = false ∨ ∃ frame throws sending, frames = [frame] ∧
    a = s.arrival frame throws sending ∧ frame ∈ s.server.sent

section Advance

variable {a : ClientAction} {frames : List Frame}

theorem mem_sent_of_arrived (h : frame ∈ s.arrivedFrames) : frame ∈ s.server.sent :=
  List.mem_of_mem_take h

theorem Advances.guard (h : s.Advances t a frames) (hs : s.Linked) (ht : t.client.TellsApart) :
    s.client.Truthful a ∧ s.client.Unambiguous a := by
  rcases h.frames with ⟨-, hquiet⟩ | ⟨frame, throws, sending, -, rfl, hmem⟩
  · cases a <;> first | exact ⟨trivial, trivial⟩ | cases hquiet
  · exact hs.guard (ht.of_step h.step) hmem throws sending

theorem Advances.extends (h : s.Advances t a frames) : s.outgoing <+: t.outgoing :=
  ⟨_, h.outgoing.symm⟩

theorem sentAs_extends {n : ℕ} (hextends : s.outgoing <+: t.outgoing)
    (hi : i < s.outgoing.length) : t.SentAs i n ↔ s.SentAs i n := by
  obtain ⟨more, hmore⟩ := hextends
  rw [SentAs, SentAs, ← hmore, List.getElem?_append_left hi]

/-- The request of a frame was sent. -/
theorem Linked.lt_of_mem_sent (hs : s.Linked) :
    (∀ i m, .response i m ∈ s.server.sent → i < s.outgoing.length) ∧
      ∀ i m, .event i m ∈ s.server.sent → i < s.outgoing.length := by
  constructor
  · intro i m h
    obtain ⟨o, -, ho, -⟩ := hs.response h
    exact (List.getElem?_eq_some_iff.mp ho).1
  · intro i m h
    obtain ⟨_, o, _, _, -, ho, -⟩ := hs.event h
    exact (List.getElem?_eq_some_iff.mp ho).1

theorem eventsIn_extends (hs : s.Linked) (hextends : s.outgoing <+: t.outgoing) (n : ℕ)
    (hframes : ∀ frame ∈ frames, frame ∈ s.server.sent) :
    t.eventsIn n frames = s.eventsIn n frames := by
  refine List.filterMap_congr fun frame hframe => ?_
  cases frame with
  | response => rfl
  | event i m =>
    have hi := hs.lt_of_mem_sent.2 i m (hframes _ hframe)
    simp only [sentAs_extends hextends hi]

theorem eventsIn_append (s : Session) (n : ℕ) (frames frames' : List Frame) :
    s.eventsIn n (frames ++ frames') = s.eventsIn n frames ++ s.eventsIn n frames' :=
  List.filterMap_append

/-- No event is one of a request that has not been made. -/
theorem Linked.eventsIn_eq_nil (hs : s.Linked) (hextends : s.outgoing <+: t.outgoing)
    (hframes : ∀ frame ∈ frames, frame ∈ s.server.sent) :
    t.eventsIn s.client.requests.length frames = [] := by
  rw [eventsIn_extends hs hextends _ hframes]
  refine List.filterMap_eq_nil_iff.mpr fun frame hframe => ?_
  cases frame with
  | response => rfl
  | event i m =>
    obtain ⟨_, o, r, _, -, ho, hr, -⟩ := hs.event (hframes _ hframe)
    have hlt := (List.getElem?_eq_some_iff.mp hr).1
    have hne : ¬s.SentAs i s.client.requests.length := by
      intro hsent
      obtain ⟨o', ho', hrequest⟩ := sentAs_iff.mp hsent
      obtain rfl := Option.some.inj (ho.symm.trans ho')
      simp only [JsonRpcSocket.made, List.length_map] at hlt
      omega
    simp [hne]

/-- The event that a listener gets is the one of its subscription that arrives. -/
theorem Advances.eventOf (h : s.Advances t a frames) (hs : s.Linked) (ht : t.client.TellsApart)
    {k : ℕ} {sub : ClientSubscription} (hk : s.client.subscriptions[k]? = some sub) :
    JsonRpcSocket.eventOf k a = s.eventsIn sub.request frames := by
  rcases h.frames with ⟨rfl, hquiet⟩ | ⟨frame, throws, sending, rfl, rfl, hmem⟩
  · cases a <;> first | rfl | cases hquiet
  have hids := ht.of_step h.step
  have hcall : s.client.calls[k]? = some (sub.id, sub.request) := by
    rw [JsonRpcSocket.calls, List.getElem?_map, hk]
    rfl
  cases frame with
  | response i m =>
    obtain ⟨n, -, hbelongs⟩ := hs.belongs_response hids hmem
    have horigin := hbelongs.origin
    cases hor : s.origin (.response i m) with
    | other => simp [hor, Origin.listener] at horigin
    | event k' => simp [hor, Origin.listener] at horigin
    | response n' => simp [arrival, hor, JsonRpcSocket.eventOf, eventsIn]
  | event i m =>
    obtain ⟨k', c, hk', hsent, hbelongs⟩ := hs.belongs_event hids hmem
    have horigin := hbelongs.origin
    cases hor : s.origin (.event i m) with
    | other => simp [hor, Origin.listener] at horigin
    | response n' => simp [hor, Origin.listener] at horigin
    | event k'' =>
      obtain rfl : k'' = k' := by simpa [hor, Origin.listener] using horigin
      have hread := hbelongs.read
      have hiff : s.SentAs i sub.request ↔ k'' = k := by
        constructor
        · intro hsame
          have heq : sub.request = c.2 := Option.some.inj (hsame.symm.trans hsent)
          exact hs.call_inj hk' hcall heq.symm
        · rintro rfl
          obtain rfl := Option.some.inj (hk'.symm.trans hcall)
          exact hsent
      simp only [arrival, hor, JsonRpcSocket.eventOf, eventsIn, hread, Option.toList_some,
        List.filterMap_cons, List.filterMap_nil, hiff]
      split_ifs <;> rfl

/-- A subscription after a step was there before, or is the one of a call. -/
theorem Advances.subscription (h : s.Advances t a frames) (hs : s.Linked)
    (ht : t.client.TellsApart) {k : ℕ} {sub : ClientSubscription}
    (hk : t.client.subscriptions[k]? = some sub) :
    (∃ sub₀, s.client.subscriptions[k]? = some sub₀ ∧
      JsonRpcSocket.Follows k s.client a t.client sub₀ sub) ∨
    (a.isMessage = false ∧ sub.delivered = [] ∧ sub.request = s.client.requests.length ∧
      .socketEventListener k ∈ t.client.listeners) := by
  by_cases hlt : k < s.client.subscriptions.length
  · have hold := List.getElem?_eq_getElem hlt
    obtain ⟨sub', hfollows⟩ :=
      JsonRpcSocket.follows_step hs.listed hold
        (JsonRpcSocket.identifies_of_unambiguous (h.guard hs ht) _) h.step
    obtain rfl := Option.some.inj (hfollows.here.symm.trans hk)
    exact Or.inl ⟨_, hold, hfollows⟩
  · refine Or.inr ?_
    rcases JsonRpcSocket.made_step h.step with hadds | ⟨request, uuid, sends, rfl, hclient⟩
    · have hlength := congrArg List.length hadds.calls
      simp only [JsonRpcSocket.calls, List.length_map] at hlength
      have hk' := (List.getElem?_eq_some_iff.mp hk).1
      omega
    · rw [hclient] at hk
      rcases Numbered.getElem?_append_singleton hk with hold | ⟨rfl, rfl⟩
      · exact absurd (List.getElem?_eq_some_iff.mp hold).1 hlt
      · refine ⟨rfl, rfl, rfl, ?_⟩
        simp [hclient, JsonRpcSocket.subscribe, JsonRpcSocket.addSubscription,
          JsonRpcSocket.request]

theorem Routes.advance (hr : s.Routes) (hs : s.Linked) (h : s.Advances t a frames)
    (ht : t.client.TellsApart) : t.Routes := by
  have hguard := h.guard hs ht
  have hids := ht.of_step h.step
  have hold : ∀ frame ∈ s.arrivedFrames, frame ∈ s.server.sent := fun _ => mem_sent_of_arrived
  have hnew : ∀ frame ∈ frames, frame ∈ s.server.sent := by
    rcases h.frames with ⟨rfl, -⟩ | ⟨frame, _, _, rfl, -, hmem⟩
    · simp
    · simpa using hmem
  have hevents (n : ℕ) : t.eventsIn n t.arrivedFrames =
      s.eventsIn n s.arrivedFrames ++ s.eventsIn n frames := by
    rw [h.arrived, eventsIn_append, eventsIn_extends hs h.extends n hold,
      eventsIn_extends hs h.extends n hnew]
  refine
    { attended := hr.attended.step hs.listed hguard h.step
      sent := fun o ho r hn hthrew => ?_
      resolved := fun n r response hn hresolved => ?_
      settled := fun i n m r hsent hmem hn => ?_
      delivered := fun k sub hk => ?_
      complete := fun k sub hk hlistens => ?_ }
  · rcases List.mem_append.mp (h.outgoing ▸ ho) with ho | ho
    · obtain ⟨r', hr', -⟩ := hs.outgoing o ho
      have hlt := (List.getElem?_eq_some_iff.mp hr').1
      obtain ⟨r₀, hr₀, hbefore⟩ := JsonRpcSocket.threw_step hr.attended hs.listed hguard h.step hn
        (by simpa [JsonRpcSocket.made] using hlt) hthrew
      exact hr.sent o ho r₀ hr₀ hbefore
    · obtain ⟨-, r', hr', hsent, -⟩ := JsonRpcSocket.mem_sentFrom ho
      obtain rfl := Option.some.inj (hr'.symm.trans hn)
      exact hsent hthrew
  · rcases JsonRpcSocket.resolved_step hr.attended hs.listed hguard h.step hn hresolved with
      ⟨r₀, hr₀, hbefore⟩ | ⟨data, throws, sending, rfl, hframe⟩
    · obtain ⟨i, m, hsent, hmem, hm⟩ := hr.resolved n r₀ response hr₀ hbefore
      have hlt := hs.lt_of_mem_sent.1 i m (hold _ hmem)
      exact ⟨i, m, (sentAs_extends h.extends hlt).mpr hsent,
        h.arrived ▸ List.mem_append_left _ hmem, hm⟩
    · rcases h.frames with ⟨-, hquiet⟩ | ⟨frame, _, _, rfl, harrival, hmem⟩
      · cases hquiet
      obtain ⟨hdata, horigin⟩ : data = frame.message.stringify ∧ .response n = s.origin frame := by
        simp only [arrival, ClientAction.message.injEq] at harrival
        exact ⟨harrival.1, harrival.2.1⟩
      cases frame with
      | event i m =>
        obtain ⟨k, c, -, -, hbelongs⟩ := hs.belongs_event hids hmem
        have hlistener := hbelongs.origin
        rw [← horigin] at hlistener
        cases hlistener
      | response i m =>
        obtain ⟨n', hsent, hbelongs⟩ := hs.belongs_response hids hmem
        have hlistener := hbelongs.origin
        rw [← horigin] at hlistener
        obtain rfl := MessageListener.handleResponse.inj (Option.some.inj hlistener)
        have hlt := hs.lt_of_mem_sent.1 i m hmem
        refine ⟨i, m, (sentAs_extends h.extends hlt).mpr hsent, ?_, ?_⟩
        · rw [h.arrived]
          exact List.mem_append_right _ (List.mem_singleton_self _)
        · exact Option.some.inj (hframe.symm.trans (hdata ▸ hbelongs.read))
  · rw [h.arrived] at hmem
    rcases List.mem_append.mp hmem with hmem | hmem
    · obtain ⟨o, r₀, ho, hr₀, -⟩ := hs.response (hold _ hmem)
      have hlt := (List.getElem?_eq_some_iff.mp ho).1
      have hsent₀ := (sentAs_extends h.extends hlt).mp hsent
      obtain ⟨o', ho', rfl⟩ := sentAs_iff.mp hsent₀
      obtain rfl := Option.some.inj (ho.symm.trans ho')
      rw [JsonRpcSocket.getElem?_made] at hr₀
      obtain ⟨c, hc, -⟩ := Option.map_eq_some_iff.mp hr₀
      cases hsettled : c.settlement with
      | none => exact absurd hsettled (hr.settled i _ m c hsent₀ hmem hc)
      | some settlement =>
        rw [((JsonRpcSocket.settledTo_of_settlement hc hsettled).step h.step).settlement_eq hn]
        simp
    · rcases h.frames with ⟨rfl, -⟩ | ⟨frame, throws, sending, rfl, rfl, hframe⟩
      · cases hmem
      obtain rfl := List.mem_singleton.mp hmem
      obtain ⟨n', hsent', hbelongs⟩ := hs.belongs_response hids hframe
      have hlt := hs.lt_of_mem_sent.1 i m hframe
      have hsent₀ := (sentAs_extends h.extends hlt).mp hsent
      obtain rfl : n' = n := Option.some.inj (hsent'.symm.trans hsent₀)
      have horigin : s.origin (.response i m) = .response n' := by
        have hlistener := hbelongs.origin
        cases hor : s.origin (.response i m) <;> simp [hor, Origin.listener] at hlistener
        rw [hlistener]
      have hstep := h.step
      rw [arrival, horigin] at hguard hstep
      exact JsonRpcSocket.settled_step hr.attended hs.listed hguard hstep hbelongs.read hn
  · rcases h.subscription hs ht hk with ⟨sub₀, hk₀, hfollows⟩ | ⟨-, hnone, -⟩
    · rw [hfollows.delivered, hfollows.request, hevents]
      split_ifs with hlistens
      · rw [hr.complete k sub₀ hk₀ hlistens, h.eventOf hs ht hk₀]
      · rw [List.append_nil]
        exact (hr.delivered k sub₀ hk₀).trans (List.prefix_append _ _)
    · rw [hnone]
      exact List.nil_prefix
  · rcases h.subscription hs ht hk with ⟨sub₀, hk₀, hfollows⟩ | ⟨hquiet, hnone, hrequest, -⟩
    · have hlistened := (hfollows.gone hlistens).1
      rw [hfollows.delivered, hfollows.request, hevents, if_pos hlistened,
        hr.complete k sub₀ hk₀ hlistened, h.eventOf hs ht hk₀]
    · have hframes : t.arrivedFrames = s.arrivedFrames := by
        rw [h.arrived]
        rcases h.frames with ⟨rfl, -⟩ | ⟨_, _, _, -, rfl, -⟩
        · exact List.append_nil _
        · cases hquiet
      rw [hnone, hrequest, hframes, hs.eventsIn_eq_nil h.extends hold]

end Advance

theorem Routes.server {server : Connection} {a : Action} (hr : s.Routes) (hs : s.Linked)
    (h : s.server.step a = some server) : Routes { s with server } := by
  obtain ⟨frames, hsent⟩ := Connection.sent_step h
  have harrived : arrivedFrames { s with server } = s.arrivedFrames := by
    simp only [arrivedFrames, hsent]
    exact List.take_append_of_le_length hs.delivered
  exact
    { attended := hr.attended
      sent := hr.sent
      resolved := fun n r response hn hresolved => harrived ▸ hr.resolved n r response hn hresolved
      settled := fun i n m r hsent hmem hn => hr.settled i n m r hsent (harrived ▸ hmem) hn
      delivered := fun k sub hk => harrived ▸ hr.delivered k sub hk
      complete := fun k sub hk hlistens => harrived ▸ hr.complete k sub hk hlistens }

/-! ## Runs -/

/-- A step is one of the client or one of the server. -/
theorem advances_of_step {a : SessionAction} (h : s.step a = some t) :
    (∃ b frames, s.Advances t b frames ∧ (b.isMessage = false → a = .client b)) ∨
    ∃ b server, s.server.step b = some server ∧ t = { s with server } := by
  cases stepped_of_step h with
  | client b client hb hstep =>
    exact Or.inl ⟨b, [], ⟨hstep, rfl, rfl, (List.append_nil _).symm, Or.inl ⟨rfl, hb⟩⟩,
      fun _ => rfl⟩
  | receive host o server hnext hstep => exact Or.inr ⟨_, server, hstep, rfl⟩
  | server b server hb hstep => exact Or.inr ⟨b, server, hstep, rfl⟩
  | deliver throws sending frame client hnext hstep =>
    refine Or.inl ⟨_, [frame], ⟨hstep, rfl, rfl, ?_, Or.inr ⟨frame, throws, sending, rfl, rfl,
      List.mem_of_getElem? hnext⟩⟩, fun hquiet => by cases hquiet⟩
    rw [arrivedFrames, List.take_add_one, hnext]
    rfl

theorem Routes.step (hr : s.Routes) (hs : s.Linked) {a : SessionAction} (h : s.step a = some t)
    (ht : t.client.TellsApart) : t.Routes := by
  rcases advances_of_step h with ⟨b, frames, hadvances, -⟩ | ⟨b, server, hstep, rfl⟩
  · exact hr.advance hs hadvances ht
  · exact hr.server hs hstep

/-- Ids that are told apart were so before. -/
theorem tellsApart_of_step {a : SessionAction} (h : s.step a = some t)
    (ht : t.client.TellsApart) : s.client.TellsApart := by
  rcases advances_of_step h with ⟨b, frames, hadvances, -⟩ | ⟨b, server, hstep, rfl⟩
  · exact ht.of_step hadvances.step
  · exact ht

theorem routes_run {as : List SessionAction} (h : run step new as = some s)
    (hids : s.client.TellsApart) : s.Routes :=
  run_history (I := fun _ s => s.client.TellsApart → s.Routes)
    (fun _ _ _ _ hpast hs hstep ht =>
      (hs (tellsApart_of_step hstep ht)).step (linked_run hpast) hstep ht)
    (fun _ => routes_new) h hids

/-- No event is an error, so a listener is there until its subscription is closed or refused. -/
theorem Advances.ends {b : ClientAction} {frames : List Frame} (h : s.Advances t b frames)
    (hs : s.Linked) (ht : t.client.TellsApart) {k : ℕ}
    (hends : JsonRpcSocket.ends k b = true) : ∃ sending, b = .close k sending := by
  rcases h.frames with ⟨-, hquiet⟩ | ⟨frame, throws, sending, rfl, rfl, hmem⟩
  · cases b with
    | close k' sending =>
      obtain rfl : k' = k := by simpa [JsonRpcSocket.ends] using hends
      exact ⟨sending, rfl⟩
    | message => cases hquiet
    | _ => cases hends
  · obtain ⟨listener, hbelongs⟩ := hs.belongs (ht.of_step h.step) hmem
    cases hor : s.origin frame with
    | response | other => simp [arrival, hor, JsonRpcSocket.ends] at hends
    | event k' =>
      cases frame with
      | response i m =>
        obtain ⟨o, r, ho, -⟩ := hs.response hmem
        simp [origin, ho] at hor
      | event i m =>
        obtain ⟨_, _, _, _, -, -, -, hm⟩ := hs.event hmem
        have hread : JsonRpcSocket.frameOf m.stringify = some m.reparsed := hbelongs.read
        have herror : m.reparsed.own (js "error") = none := by
          rw [hm, Json.own_reparsed_of_nodup (names_success _ _), own_error_success]
          rfl
        simp [arrival, hor, JsonRpcSocket.ends, Frame.message, hread, herror] at hends

/-- The listener of a subscription that was neither closed nor refused is there. -/
def Attached (as : List SessionAction) (s : Session) : Prop :=
  ∀ (k : ℕ) (sub : ClientSubscription), s.client.subscriptions[k]? = some sub →
    (∀ response, sub.outcome ≠ some (.refused response)) →
    (∀ sending, .client (.close k sending) ∉ as) → .socketEventListener k ∈ s.client.listeners

theorem Attached.step {as : List SessionAction} {a : SessionAction} (hattached : Attached as s)
    (hs : s.Linked) (h : s.step a = some t) (ht : t.client.TellsApart) :
    Attached (as ++ [a]) t := by
  intro k sub hk hrefused hclosed
  rcases advances_of_step h with ⟨b, frames, hadvances, haction⟩ | ⟨b, server, hstep, rfl⟩
  · rcases hadvances.subscription hs ht hk with ⟨sub₀, hk₀, hfollows⟩ | ⟨-, -, -, hlistens⟩
    · have hlistened : .socketEventListener k ∈ s.client.listeners := by
        refine hattached k sub₀ hk₀ (fun response hbefore => ?_) fun sending hmem =>
          hclosed sending (List.mem_append_left _ hmem)
        exact hrefused response (hfollows.settled _ hbefore)
      have hopen : JsonRpcSocket.ends k b = false := by
        by_contra hends
        obtain ⟨sending, rfl⟩ := hadvances.ends hs ht (by simpa using hends)
        obtain rfl := haction rfl
        exact hclosed sending (by simp)
      rcases hfollows.stays hlistened hopen with hstays | ⟨response, hresponse⟩
      · exact hstays
      · exact absurd hresponse (hrefused response)
    · exact hlistens
  · exact hattached k sub hk hrefused fun sending hmem =>
      hclosed sending (List.mem_append_left _ hmem)

end Session

end DwnServer
