import DwnServer.Session.Machine

/-!
# What holds of every session

Nothing here depends on the ids that the client uses: the calls of the client keep their requests,
what is on its way to the server is the text of one of them, and the connection has received what
was sent first.
-/
namespace DwnServer

open Transition

namespace JsonRpcSocket

/-- The requests as they were made. -/
def made (w : JsonRpcSocket) : List JsonRpcRequest := w.requests.map (·.request)

/-- The calls of `subscribe`: the id of the subscription and the number of the request. -/
def calls (w : JsonRpcSocket) : List (JsValue × ℕ) :=
  w.subscriptions.map fun sub => (sub.id, sub.request)

variable {w t u : JsonRpcSocket} {a : ClientAction} {i n : ℕ}

theorem getElem?_made (w : JsonRpcSocket) (i : ℕ) :
    w.made[i]? = w.requests[i]?.map (·.request) :=
  List.getElem?_map

/-- Requests with an id were added, and no call of `subscribe`. -/
structure Adds (w t : JsonRpcSocket) : Prop where
  made : ∃ more, t.made = w.made ++ more ∧ ∀ r ∈ more, r.id.isNullish = false
  calls : t.calls = w.calls

theorem Adds.of_eq (hmade : t.made = w.made) (hcalls : t.calls = w.calls) : Adds w t :=
  ⟨⟨[], by simp [hmade], nofun⟩, hcalls⟩

theorem Adds.trans (h : Adds w u) (h' : Adds u t) : Adds w t := by
  obtain ⟨more, hmore, hids⟩ := h.made
  obtain ⟨more', hmore', hids'⟩ := h'.made
  refine ⟨⟨more ++ more', by rw [hmore', hmore, List.append_assoc], fun r hr => ?_⟩,
    h'.calls.trans h.calls⟩
  exact (List.mem_append.mp hr).elim (hids r) (hids' r)

theorem isNullish_withId (request : JsonRpcRequest) (uuid : JsString) :
    (withId request uuid).id.isNullish = false := by
  unfold withId
  dsimp only
  split_ifs with hnull
  · rfl
  · simpa using hnull

theorem adds_request (w : JsonRpcSocket) (request : JsonRpcRequest) (uuid : JsString)
    (sends : Bool) : Adds w (w.request request uuid sends) where
  made := ⟨[withId request uuid], by simp [JsonRpcSocket.made, JsonRpcSocket.request], by
    simp [isNullish_withId]⟩
  calls := rfl

theorem made_settle (w : JsonRpcSocket) (i : ℕ) (settlement : RequestSettlement) :
    (w.settle i settlement).made = w.made := by
  refine Numbered.map_modify (fun r => ?_) w.requests i
  rfl

theorem made_stopTimer (w : JsonRpcSocket) (i : ℕ) : (w.stopTimer i).made = w.made := by
  refine Numbered.map_modify (fun r => ?_) w.requests i
  rfl

theorem calls_setOutcome (w : JsonRpcSocket) (s : ℕ) (outcome : SubscribeOutcome) :
    (w.setOutcome s outcome).calls = w.calls := by
  refine Numbered.map_modify (fun sub => ?_) w.subscriptions s
  rfl

theorem calls_deliver (w : JsonRpcSocket) (s : ℕ) (frame : Json) :
    (w.deliver s frame).calls = w.calls := by
  refine Numbered.map_modify (fun sub => ?_) w.subscriptions s
  rfl

/-- Listeners that are removed change neither. -/
theorem adds_removeEventListener (w : JsonRpcSocket) (listener : MessageListener) :
    Adds w (w.removeEventListener listener) :=
  .of_eq rfl rfl

theorem adds_handleResponse (w : JsonRpcSocket) (i : ℕ) (frame : Json) :
    Adds w (w.handleResponse i frame) := by
  rcases w.handleResponse_cases i frame with hsame | hsettles
  · rw [hsame]
    exact .of_eq rfl rfl
  · rw [hsettles]
    exact .of_eq (made_settle _ i _) rfl

theorem adds_socketEventListener (w : JsonRpcSocket) (s : ℕ) (id : JsValue) (frame : Json)
    (sending : Sending) : Adds w (w.socketEventListener s id frame sending) := by
  unfold socketEventListener
  split_ifs
  · exact ((w.adds_removeEventListener _).trans (adds_request _ _ _ _)).trans
      (.of_eq rfl (calls_deliver _ s frame))
  · exact .of_eq rfl (calls_deliver w s frame)

/-- A step adds requests, or it is a call of `subscribe` and adds that. -/
theorem made_step (h : w.step a = some t) : Adds w t ∨ ∃ request uuid sends,
    a = .subscribe request uuid sends ∧ t = w.subscribe request uuid sends := by
  cases stepped_of_step h with
  | request request uuid sends => exact Or.inl (adds_request w request uuid sends)
  | invalid | unreadable => exact Or.inl (.of_eq rfl rfl)
  | subscribe request uuid sends => exact Or.inr ⟨request, uuid, sends, rfl, rfl⟩
  | subscribed s _ _ settlement =>
    refine Or.inl ?_
    obtain ⟨outcome, hstays | hremoved⟩ := w.subscribed_cases s settlement
    · rw [hstays]
      exact .of_eq rfl (calls_setOutcome w s outcome)
    · rw [hremoved]
      exact .of_eq rfl (calls_setOutcome _ s outcome)
  | close s sending sub =>
    exact Or.inl ((w.adds_removeEventListener _).trans (adds_request _ _ _ _))
  | message _ _ throws sending frame =>
    exact Or.inl (dispatch_invariant (P := Adds w)
      (fun _ i _ hw => hw.trans (adds_handleResponse _ i frame))
      (fun _ s id sending hw => hw.trans (adds_socketEventListener _ s id frame sending))
      (.of_eq rfl rfl))
  | timeout i =>
    refine Or.inl (.of_eq ?_ rfl)
    rw [timeout, made_stopTimer, made_settle]
    rfl

theorem made_subscribe (w : JsonRpcSocket) (request : JsonRpcRequest) (uuid : JsString)
    (sends : Bool) : (w.subscribe request uuid sends).made = w.made ++ [withId request uuid] := by
  simp [made, subscribe, JsonRpcSocket.request, addSubscription]

theorem calls_subscribe (w : JsonRpcSocket) (request : JsonRpcRequest) (uuid : JsString)
    (sends : Bool) : (w.subscribe request uuid sends).calls =
      w.calls ++ [(request.subscription.readOptional "id", w.made.length)] := by
  simp [made, calls, subscribe, JsonRpcSocket.request, addSubscription]

theorem exists_made_step (h : w.step a = some t) :
    ∃ more, t.made = w.made ++ more ∧ ∀ r ∈ more, r.id.isNullish = false := by
  rcases made_step h with hadds | ⟨request, uuid, sends, -, rfl⟩
  · exact hadds.made
  · exact ⟨_, made_subscribe w request uuid sends, by simp [isNullish_withId]⟩

/-! ## What is sent -/

theorem mem_sentFrom {o : Outgoing} (h : o ∈ w.sentFrom n) :
    n ≤ o.request ∧ ∃ r, w.requests[o.request]? = some r ∧ r.settlement ≠ some .threw ∧
      o.text = r.request.text := by
  obtain ⟨i, hi, ho⟩ := List.mem_filterMap.mp h
  obtain ⟨r, hr, rfl⟩ := Option.map_eq_some_iff.mp ho
  obtain ⟨hr, hsent⟩ := Option.filter_eq_some_iff.mp hr
  exact ⟨(List.mem_range'_1.mp hi).1, r, hr, by simpa using hsent, rfl⟩

theorem sentFrom_pairwise (w : JsonRpcSocket) (n : ℕ) :
    (w.sentFrom n).Pairwise fun o o' => o.request < o'.request := by
  refine List.Pairwise.filterMap _ (fun i j hij o ho o' ho' => ?_) List.pairwise_lt_range'
  obtain ⟨r, -, rfl⟩ := Option.map_eq_some_iff.mp ho
  obtain ⟨r', -, rfl⟩ := Option.map_eq_some_iff.mp ho'
  exact hij

end JsonRpcSocket

namespace Session

/-- What every session satisfies. -/
structure Linked (s : Session) : Prop where
  listed : s.client.Listed
  ids : ∀ r ∈ s.client.made, r.id.isNullish = false
  calls : ∀ c ∈ s.client.calls, ∃ r, s.client.made[c.2]? = some r ∧
    c.1 = r.subscription.readOptional "id"
  ordered : s.client.calls.Pairwise fun c c' => c.2 < c'.2
  outgoing : ∀ o ∈ s.outgoing, ∃ r, s.client.made[o.request]? = some r ∧ o.text = r.text
  increasing : s.outgoing.Pairwise fun o o' => o.request < o'.request
  wellFormed : s.server.WellFormed
  once : s.server.AnswersOnce
  responds : s.server.RespondsToReceived
  stems : s.server.Stems s.received
  arrived : s.server.requests.length ≤ s.outgoing.length
  delivered : s.delivered ≤ s.server.sent.length

theorem linked_new : new.Linked where
  listed := ⟨List.nodup_nil, by simp [new, JsonRpcSocket.new], by simp [new, JsonRpcSocket.new]⟩
  ids := by simp [new, JsonRpcSocket.new, JsonRpcSocket.made]
  calls := by simp [new, JsonRpcSocket.new, JsonRpcSocket.calls]
  ordered := List.Pairwise.nil
  outgoing := by simp [new]
  increasing := List.Pairwise.nil
  wellFormed := Connection.wellFormed_new
  once := by simp [Connection.AnswersOnce, new, Connection.new]
  responds := by simp [Connection.RespondsToReceived, new, Connection.new]
  stems := Connection.stems_new
  arrived := le_rfl
  delivered := le_rfl

variable {s t : Session} {client : JsonRpcSocket} {a : ClientAction}

theorem getElem?_extends {α : Type*} {l l' : List α} {i : ℕ} {x : α} (h : l[i]? = some x)
    (hextends : l <+: l') : l'[i]? = some x := by
  obtain ⟨more, rfl⟩ := hextends
  rw [List.getElem?_append_left (List.getElem?_eq_some_iff.mp h).1, h]

/-- A step of the client, with `n` frames delivered. -/
theorem Linked.clientStep (hs : s.Linked) (h : s.client.step a = some client) {n : ℕ}
    (hn : n ≤ s.server.sent.length) :
    Linked ⟨client, s.server, s.outgoing ++ client.sentFrom s.client.requests.length, n⟩ := by
  obtain ⟨more, hmore, hids⟩ := JsonRpcSocket.exists_made_step h
  have hextends : s.client.made <+: client.made := ⟨more, hmore.symm⟩
  have hlength : s.client.made.length = s.client.requests.length := List.length_map ..
  have hkept : ∀ c ∈ s.client.calls, c.2 < s.client.made.length := by
    intro c hc
    obtain ⟨r, hr, -⟩ := hs.calls c hc
    exact (List.getElem?_eq_some_iff.mp hr).1
  have hsent : ∀ o ∈ s.outgoing, o.request < s.client.made.length := by
    intro o ho
    obtain ⟨r, hr, -⟩ := hs.outgoing o ho
    exact (List.getElem?_eq_some_iff.mp hr).1
  have hold : ∀ c ∈ s.client.calls, ∃ r, client.made[c.2]? = some r ∧
      c.1 = r.subscription.readOptional "id" := by
    intro c hc
    obtain ⟨r, hr, hid⟩ := hs.calls c hc
    exact ⟨r, getElem?_extends hr hextends, hid⟩
  have hcalls : (∀ c ∈ client.calls, ∃ r, client.made[c.2]? = some r ∧
      c.1 = r.subscription.readOptional "id") ∧ client.calls.Pairwise fun c c' => c.2 < c'.2 := by
    rcases JsonRpcSocket.made_step h with hadds | ⟨request, uuid, sends, -, rfl⟩
    · rw [hadds.calls]
      exact ⟨hold, hs.ordered⟩
    · rw [JsonRpcSocket.calls_subscribe]
      refine ⟨fun c hc => ?_, List.pairwise_append.mpr ⟨hs.ordered, List.pairwise_singleton _ _,
        fun c hc c' hc' => List.mem_singleton.mp hc' ▸ hkept c hc⟩⟩
      rcases List.mem_append.mp hc with hc | hc
      · exact hold c hc
      · rw [List.mem_singleton.mp hc, JsonRpcSocket.made_subscribe]
        exact ⟨_, List.getElem?_concat_length, rfl⟩
  exact {
    listed := hs.listed.step h
    ids := fun r hr => (List.mem_append.mp (hmore ▸ hr)).elim (hs.ids r) (hids r)
    calls := hcalls.1
    ordered := hcalls.2
    outgoing := by
      intro o ho
      rcases List.mem_append.mp ho with ho | ho
      · obtain ⟨r, hr, htext⟩ := hs.outgoing o ho
        exact ⟨r, getElem?_extends hr hextends, htext⟩
      · obtain ⟨-, r, hr, -, htext⟩ := JsonRpcSocket.mem_sentFrom ho
        exact ⟨r.request, by rw [JsonRpcSocket.getElem?_made, hr]; rfl, htext⟩
    increasing := by
      refine List.pairwise_append.mpr
        ⟨hs.increasing, client.sentFrom_pairwise _, fun o ho o' ho' => ?_⟩
      have hlt := hsent o ho
      have hle := (JsonRpcSocket.mem_sentFrom ho').1
      omega
    wellFormed := hs.wellFormed
    once := hs.once
    responds := hs.responds
    stems := by
      have hreceived : received ⟨client, s.server,
          s.outgoing ++ client.sentFrom s.client.requests.length, n⟩ = s.received := by
        simp only [received]
        rw [List.take_append_of_le_length hs.arrived]
      rw [hreceived]
      exact hs.stems
    arrived := hs.arrived.trans (by simp)
    delivered := hn }

/-- A step of the server, which has received another text or none. -/
theorem Linked.serverStep {a : Action} {server : Connection} (hs : s.Linked)
    (h : s.server.step a = some server)
    (htexts : received { s with server } = s.received ++ a.text?.toList)
    (harrived : server.requests.length ≤ s.outgoing.length) : Linked { s with server } := by
  obtain ⟨frames, hframes⟩ := Connection.sent_step h
  exact { hs with
    wellFormed := hs.wellFormed.step h
    once := hs.once.step hs.responds h
    responds := hs.responds.step h
    stems := htexts ▸ hs.stems.step hs.wellFormed h
    arrived := harrived
    delivered := hs.delivered.trans (by simp [hframes]) }

theorem Linked.step {a : SessionAction} (hs : s.Linked) (h : s.step a = some t) : t.Linked := by
  cases stepped_of_step h with
  | client a client ha hstep => exact hs.clientStep hstep hs.delivered
  | receive host o server hnext hstep =>
    have hlength : server.requests.length = s.server.requests.length + 1 :=
      Connection.requests_length_step hstep
    have hlt := (List.getElem?_eq_some_iff.mp hnext).1
    refine hs.serverStep hstep ?_ (by omega)
    simp only [received, hlength, List.take_add_one, hnext]
    simp [Action.text?]
  | server a server ha hstep =>
    have hlength : server.requests.length = s.server.requests.length := by
      simpa [ha] using Connection.requests_length_step hstep
    refine hs.serverStep hstep ?_ (hlength.trans_le hs.arrived)
    simp [received, hlength, ha]
  | deliver throws sending frame client hnext hstep =>
    exact hs.clientStep hstep (List.getElem?_eq_some_iff.mp hnext).1

theorem linked_run {as : List SessionAction} (h : run step new as = some s) : s.Linked :=
  run_invariant (fun _ _ _ hs hstep => hs.step hstep) linked_new h

end Session

end DwnServer
