import DwnServer.Client.Subscriptions

/-!
# Calls that fail

A call of `request` or `subscribe` leaves no listener behind when an error response ends it. A send
that throws leaves the listener of its request, and when the request of a `subscribe` is rejected,
nobody removes the listener of the subscription.
-/
namespace DwnServer

open Transition

/-- The promise is rejected, or resolved with an error response. -/
def RequestSettlement.failed : RequestSettlement → Bool
  | .resolved response => (response.own (js "error")).isSome
  | .timedOut | .threw => true

def SubscribeOutcome.failed : SubscribeOutcome → Bool
  | .opened _ => false
  | .refused _ | .rejected => true

namespace JsonRpcSocket

/-- No listener of a call that has failed is attached. -/
structure CleansUp (w : JsonRpcSocket) : Prop where
  requests : ∀ (i : ℕ) (r : ClientRequest), w.requests[i]? = some r →
    r.settlement.any (·.failed) = true → .handleResponse i ∉ w.listeners
  subscriptions : ∀ (s : ℕ) (sub : ClientSubscription), w.subscriptions[s]? = some sub →
    sub.outcome.any (·.failed) = true →
    .handleResponse sub.request ∉ w.listeners ∧ .socketEventListener s ∉ w.listeners

/-- The listeners of subscriptions that have failed are not called. -/
def Hushed (w t : JsonRpcSocket) : Prop :=
  ∀ (s : ℕ) (sub sub' : ClientSubscription), w.subscriptions[s]? = some sub →
    sub.outcome.any (·.failed) = true → t.subscriptions[s]? = some sub' →
      sub'.delivered = sub.delivered

/-- The subscriptions that an error frame makes close, of those with a listener that it reaches. -/
def closing (w : JsonRpcSocket) (frame : Json) (throws : ℕ → Bool) : List MessageListener → List ℕ
  | [] => []
  | .handleResponse _ :: rest => closing w frame throws rest
  | .socketEventListener s :: rest =>
    if (w.subscriptions[s]?).any fun sub => (frame.own (js "id")).strictEquals sub.id then
      (if (frame.own (js "error")).isSome then [s] else []) ++
        if throws s then [] else closing w frame throws rest
    else closing w frame throws rest

/-- No send throws, and a `subscribe` whose request is rejected has lost its listener before. -/
def Spares (w : JsonRpcSocket) : ClientAction → Prop
  | .request _ _ sends => sends = true
  | .subscribe request _ sends => subscribeError request = none → sends = true
  | .subscribed s => ∀ sub ∈ w.subscriptions[s]?, ∀ r ∈ w.requests[sub.request]?,
      (r.settlement = some .timedOut ∨ r.settlement = some .threw) →
        .socketEventListener s ∉ w.listeners
  | .close _ sending => sending.sends = true
  | .message data _ throws sending => ∀ frame ∈ frameOf data,
      ∀ s ∈ w.closing frame throws w.listeners, (sending s).sends = true
  | .timeout _ => True

variable {w u t : JsonRpcSocket} {i s : ℕ} {frame : Json} {throws : ℕ → Bool}
  {sending : ℕ → Sending} {a : ClientAction}

/-! ## What guarded steps keep -/

/-- A settled request has no listener, a `subscribe` settles after its request, and one that has
failed has no listener. -/
structure Cleared (w : JsonRpcSocket) : Prop where
  listed : w.Listed
  settled : ∀ (i : ℕ) (r : ClientRequest), w.requests[i]? = some r → r.settlement ≠ none →
    .handleResponse i ∉ w.listeners
  answered : ∀ (s : ℕ) (sub : ClientSubscription), w.subscriptions[s]? = some sub →
    sub.outcome ≠ none → ∃ r : ClientRequest, w.requests[sub.request]? = some r ∧
      r.settlement ≠ none
  failed : ∀ (s : ℕ) (sub : ClientSubscription), w.subscriptions[s]? = some sub →
    sub.outcome.any (·.failed) = true → .socketEventListener s ∉ w.listeners

theorem cleared_new : new.Cleared where
  listed := ⟨List.nodup_nil, by simp [new], by simp [new]⟩
  settled := by simp [new]
  answered := by simp [new]
  failed := by simp [new]

theorem Cleared.cleansUp (hw : w.Cleared) : w.CleansUp where
  requests i r hr hfailed := hw.settled i r hr (by rintro h; simp [h] at hfailed)
  subscriptions s sub hsub hfailed := by
    obtain ⟨r, hr, hsettled⟩ := hw.answered s sub hsub (by rintro h; simp [h] at hfailed)
    exact ⟨hw.settled _ r hr hsettled, hw.failed s sub hsub hfailed⟩

/-- Listeners may go, and requests and subscriptions change in what does not matter here. -/
theorem Cleared.of_same (hw : w.Cleared) (hlisted : t.Listed)
    (hlisteners : ∀ listener ∈ t.listeners, listener ∈ w.listeners)
    (hrequests : ∀ i : ℕ, t.requests[i]?.map (·.settlement) = w.requests[i]?.map (·.settlement))
    (hsubscriptions : ∀ s : ℕ, t.subscriptions[s]?.map (fun sub => (sub.request, sub.outcome)) =
      w.subscriptions[s]?.map fun sub => (sub.request, sub.outcome)) : t.Cleared := by
  have hrequest : ∀ (i : ℕ) (r : ClientRequest), t.requests[i]? = some r →
      ∃ r' : ClientRequest, w.requests[i]? = some r' ∧ r'.settlement = r.settlement := by
    intro i r hr
    have hsame := hrequests i
    rw [hr] at hsame
    exact Option.map_eq_some_iff.mp hsame.symm
  have hsubscription : ∀ (s : ℕ) (sub : ClientSubscription), t.subscriptions[s]? = some sub →
      ∃ sub' : ClientSubscription, w.subscriptions[s]? = some sub' ∧ sub'.request = sub.request ∧
        sub'.outcome = sub.outcome := by
    intro s sub hsub
    have hsame := hsubscriptions s
    rw [hsub] at hsame
    obtain ⟨sub', hsub', heq⟩ := Option.map_eq_some_iff.mp hsame.symm
    exact ⟨sub', hsub', (Prod.mk.inj heq).1, (Prod.mk.inj heq).2⟩
  refine ⟨hlisted, fun i r hr hsettled hmem => ?_, fun s sub hsub houtcome => ?_,
    fun s sub hsub hfailed hmem => ?_⟩
  · obtain ⟨r', hr', heq⟩ := hrequest i r hr
    exact hw.settled i r' hr' (heq ▸ hsettled) (hlisteners _ hmem)
  · obtain ⟨sub', hsub', hsame, heq⟩ := hsubscription s sub hsub
    obtain ⟨r, hr, hsettled⟩ := hw.answered s sub' hsub' (heq ▸ houtcome)
    have hmap := hrequests sub.request
    rw [← hsame, hr] at hmap
    obtain ⟨r', hr', heq'⟩ := Option.map_eq_some_iff.mp hmap
    exact ⟨r', hsame ▸ hr', heq' ▸ hsettled⟩
  · obtain ⟨sub', hsub', -, heq⟩ := hsubscription s sub hsub
    exact hw.failed s sub' hsub' (heq ▸ hfailed) (hlisteners _ hmem)

theorem Cleared.removeEventListener (hw : w.Cleared) (listener : MessageListener) :
    (w.removeEventListener listener).Cleared :=
  hw.of_same (hw.listed.removeEventListener listener) (fun _ => List.mem_of_mem_erase)
    (fun _ => rfl) fun _ => rfl

/-- A new request that the socket takes. -/
theorem Cleared.request (hw : w.Cleared) (request : JsonRpcRequest) (uuid : JsString) :
    (w.request request uuid true).Cleared := by
  refine ⟨hw.listed.request request uuid true, fun i r hr hsettled hmem => ?_,
    fun s sub hsub houtcome => ?_, fun s sub hsub hfailed hmem => ?_⟩
  · rcases List.mem_append.mp hmem with hold | hnew
    · have hlt := hw.listed.requests i hold
      exact hw.settled i r ((List.getElem?_append_left hlt).symm.trans hr) hsettled hold
    · obtain rfl := MessageListener.handleResponse.inj (List.mem_singleton.mp hnew)
      obtain rfl := Option.some.inj (List.getElem?_concat_length.symm.trans hr)
      exact hsettled rfl
  · obtain ⟨r, hr, hsettled⟩ := hw.answered s sub hsub houtcome
    have hlt := (List.getElem?_eq_some_iff.mp hr).1
    exact ⟨r, (List.getElem?_append_left hlt).trans hr, hsettled⟩
  · refine hw.failed s sub hsub hfailed ?_
    simpa [JsonRpcSocket.request] using hmem

theorem Cleared.addSubscription (hw : w.Cleared) (id : JsValue) :
    (w.addSubscription id).Cleared := by
  have hold : ∀ (s : ℕ) (sub : ClientSubscription),
      (w.addSubscription id).subscriptions[s]? = some sub → sub.outcome ≠ none →
        w.subscriptions[s]? = some sub := by
    intro s sub hsub houtcome
    rcases lt_trichotomy s w.subscriptions.length with hlt | rfl | hgt
    · exact (List.getElem?_append_left hlt).symm.trans hsub
    · obtain rfl := Option.some.inj (List.getElem?_concat_length.symm.trans hsub)
      exact absurd rfl houtcome
    · have hlt := (List.getElem?_eq_some_iff.mp hsub).1
      simp only [JsonRpcSocket.addSubscription, List.length_append, List.length_singleton] at hlt
      omega
  refine ⟨hw.listed.addSubscription id, fun i r hr hsettled hmem => ?_,
    fun s sub hsub houtcome => hw.answered s sub (hold s sub hsub houtcome) houtcome,
    fun s sub hsub hfailed hmem => ?_⟩
  · refine hw.settled i r hr hsettled ?_
    simpa [JsonRpcSocket.addSubscription] using hmem
  · have hsome : sub.outcome ≠ none := by
      rintro h
      simp [h] at hfailed
    have hsub' := hold s sub hsub hsome
    have hlt := (List.getElem?_eq_some_iff.mp hsub').1
    refine hw.failed s sub hsub' hfailed ?_
    simpa [JsonRpcSocket.addSubscription, hlt.ne] using hmem

/-- The listener of a request is removed before its promise is settled. -/
theorem Cleared.settle (hw : w.Cleared) (i : ℕ) (settlement : RequestSettlement) :
    ((w.removeEventListener (.handleResponse i)).settle i settlement).Cleared := by
  have hremoved := hw.removeEventListener (.handleResponse i)
  refine ⟨hremoved.listed.of_sublist (List.Sublist.refl _)
    (by simp [JsonRpcSocket.settle]) rfl, fun j r hr hsettled => ?_, fun s sub hsub houtcome => ?_,
    hremoved.failed⟩
  · by_cases hj : i = j
    · exact hj ▸ hw.listed.not_mem_removeEventListener _
    · refine hremoved.settled j r ?_ hsettled
      simpa [JsonRpcSocket.settle, hj] using hr
  · obtain ⟨r, hr, hsettled⟩ := hremoved.answered s sub hsub houtcome
    simp only [JsonRpcSocket.settle, List.getElem?_modify, hr]
    split_ifs
    · exact ⟨_, rfl, by simp⟩
    · exact ⟨_, rfl, hsettled⟩

theorem Cleared.handleResponse (hw : w.Cleared) (i : ℕ) (frame : Json) :
    (w.handleResponse i frame).Cleared := by
  rcases w.handleResponse_cases i frame with hsame | hsettles
  · rwa [hsame]
  · exact hsettles ▸ hw.settle i _

theorem Cleared.deliver (hw : w.Cleared) (s : ℕ) (frame : Json) : (w.deliver s frame).Cleared := by
  refine hw.of_same (hw.listed.of_sublist (List.Sublist.refl _) rfl
    (by simp [JsonRpcSocket.deliver])) (fun _ hmem => hmem) (fun _ => rfl) fun s' => ?_
  simp only [JsonRpcSocket.deliver, List.getElem?_modify]
  cases w.subscriptions[s']? <;> simp
  split_ifs <;> exact ⟨rfl, rfl⟩

theorem Cleared.socketEventListener (hw : w.Cleared) (s : ℕ) (id : JsValue)
    {sending : Sending} (hsends : (frame.own (js "error")).isSome = true → sending.sends = true) :
    (w.socketEventListener s id frame sending).Cleared := by
  unfold JsonRpcSocket.socketEventListener
  split_ifs with herror
  · have hclosed : ((w.removeEventListener (.socketEventListener s)).closeSubscription id
        sending).Cleared := by
      unfold closeSubscription
      rw [hsends herror]
      exact (hw.removeEventListener _).request _ _
    exact hclosed.deliver s frame
  · exact hw.deliver s frame

/-- What a frame makes close depends on the ids of the subscriptions only. -/
theorem closing_congr (h : ∀ s : ℕ, u.subscriptions[s]?.map (·.id) = w.subscriptions[s]?.map (·.id))
    (listeners : List MessageListener) :
    u.closing frame throws listeners = w.closing frame throws listeners := by
  have hbears (s : ℕ) : (u.subscriptions[s]?).any (fun sub => (frame.own (js "id")).strictEquals
      sub.id) = (w.subscriptions[s]?).any fun sub => (frame.own (js "id")).strictEquals sub.id := by
    have hany : ∀ o : Option ClientSubscription,
        o.any (fun sub => (frame.own (js "id")).strictEquals sub.id) =
          (o.map (·.id)).any fun id => (frame.own (js "id")).strictEquals id := by
      intro o
      cases o <;> rfl
    rw [hany, hany, h s]
  induction listeners with
  | nil => rfl
  | cons listener rest ih =>
    cases listener with
    | handleResponse i => exact ih
    | socketEventListener s => simp only [closing, hbears s, ih]

theorem socketEventListener_ids (w : JsonRpcSocket) (s : ℕ) (id : JsValue) (frame : Json)
    (sending : Sending) (s' : ℕ) :
    (w.socketEventListener s id frame sending).subscriptions[s']?.map (·.id) =
      w.subscriptions[s']?.map (·.id) := by
  have hdeliver (u : JsonRpcSocket) (hu : u.subscriptions = w.subscriptions) :
      (u.deliver s frame).subscriptions[s']?.map (·.id) = w.subscriptions[s']?.map (·.id) := by
    simp only [deliver, hu, List.getElem?_modify]
    cases w.subscriptions[s']? <;> simp
    split_ifs <;> rfl
  unfold socketEventListener
  split_ifs
  · exact hdeliver _ rfl
  · exact hdeliver _ rfl

/-- A frame that no close request throws for. -/
theorem Cleared.dispatch {listeners : List MessageListener} (hw : w.Cleared)
    (hsends : ∀ s ∈ w.closing frame throws listeners, (sending s).sends = true) :
    (dispatch frame throws sending listeners w).Cleared := by
  induction listeners generalizing w with
  | nil => exact hw
  | cons listener rest ih =>
    cases listener with
    | handleResponse i =>
      have hsame : (w.handleResponse i frame).closing frame throws rest =
          w.closing frame throws rest :=
        closing_congr (fun s => by rw [handleResponse_subscriptions]) rest
      exact ih (hw.handleResponse i frame) fun s hs => hsends s (hsame ▸ hs)
    | socketEventListener s =>
      rw [JsonRpcSocket.dispatch]
      rw [closing] at hsends
      cases hsub : w.subscriptions[s]? with
      | none => exact ih hw (by simpa [hsub] using hsends)
      | some sub =>
        cases hmatches : (frame.own (js "id")).strictEquals sub.id with
        | false =>
          simp only [hmatches, Bool.false_eq_true, if_false]
          exact ih hw (by simpa [hsub, hmatches] using hsends)
        | true =>
          simp only [hsub, Option.any_some, hmatches, if_true, List.mem_append] at hsends
          have hheard : (w.socketEventListener s sub.id frame (sending s)).Cleared :=
            hw.socketEventListener s sub.id fun herror => hsends s (Or.inl (by simp [herror]))
          simp only [hmatches, if_true]
          split_ifs with hthrows
          · exact hheard
          · refine ih hheard fun s' hs' => hsends s' (Or.inr ?_)
            rw [if_neg hthrows]
            rwa [closing_congr (socketEventListener_ids w s sub.id frame (sending s))] at hs'

theorem setOutcome_self {sub : ClientSubscription} (hsub : w.subscriptions[s]? = some sub)
    (outcome : SubscribeOutcome) :
    (w.setOutcome s outcome).subscriptions[s]? = some { sub with outcome := some outcome } := by
  simp [setOutcome, hsub]

theorem setOutcome_of_ne {s' : ℕ} (hne : s ≠ s') (w : JsonRpcSocket) (outcome : SubscribeOutcome) :
    (w.setOutcome s outcome).subscriptions[s']? = w.subscriptions[s']? := by
  simp [setOutcome, hne]

/-- After the wait of `subscribe` for its request. -/
theorem Cleared.subscribed {sub : ClientSubscription} {r : ClientRequest}
    {settlement : RequestSettlement} (hw : w.Cleared) (hsub : w.subscriptions[s]? = some sub)
    (hr : w.requests[sub.request]? = some r) (hsettlement : r.settlement = some settlement)
    (hspares : settlement = .timedOut ∨ settlement = .threw →
      .socketEventListener s ∉ w.listeners) : (w.subscribed s settlement).Cleared := by
  have hset {u : JsonRpcSocket} (hu : u.Cleared) (hsubs : u.subscriptions = w.subscriptions)
      (hrequests : u.requests = w.requests) {outcome : SubscribeOutcome}
      (hfailed : outcome.failed = true → .socketEventListener s ∉ u.listeners) :
      (u.setOutcome s outcome).Cleared := by
    have hself : (u.setOutcome s outcome).subscriptions[s]? =
        some { sub with outcome := some outcome } := setOutcome_self (hsubs ▸ hsub) outcome
    refine ⟨hu.listed.of_sublist (List.Sublist.refl _) rfl (by simp [setOutcome]), hu.settled,
      fun s' sub' hsub' houtcome => ?_, fun s' sub' hsub' hfailed' => ?_⟩ <;> by_cases hs : s = s'
    · subst hs
      obtain rfl := Option.some.inj (hself.symm.trans hsub')
      exact ⟨r, hrequests ▸ hr, by simp [hsettlement]⟩
    · rw [setOutcome_of_ne hs] at hsub'
      exact hu.answered s' sub' hsub' houtcome
    · subst hs
      obtain rfl := Option.some.inj (hself.symm.trans hsub')
      exact hfailed hfailed'
    · rw [setOutcome_of_ne hs] at hsub'
      exact hu.failed s' sub' hsub' hfailed'
  unfold JsonRpcSocket.subscribed
  split
  · split_ifs
    · exact hset (hw.removeEventListener _) rfl rfl fun _ =>
        hw.listed.not_mem_removeEventListener _
    · exact hset hw rfl rfl fun h => by cases h
  · exact hset hw rfl rfl fun _ => hspares (Or.inl rfl)
  · exact hset hw rfl rfl fun _ => hspares (Or.inr rfl)

theorem Cleared.step (hw : w.Cleared) (hspares : w.Spares a) (h : w.step a = some t) :
    t.Cleared := by
  cases stepped_of_step h with
  | request request uuid sends =>
    obtain rfl : sends = true := hspares
    exact hw.request request uuid
  | invalid | unreadable => exact hw
  | subscribe request uuid sends hvalid =>
    obtain rfl : sends = true := hspares hvalid
    exact (hw.addSubscription _).request request uuid
  | subscribed s sub r settlement hsub _ hr hsettled =>
    refine hw.subscribed hsub hr hsettled fun hrejected => hspares _ hsub r hr ?_
    rcases hrejected with rfl | rfl
    · exact Or.inl hsettled
    · exact Or.inr hsettled
  | close s sending =>
    have hsends : sending.sends = true := hspares
    unfold JsonRpcSocket.close closeSubscription
    rw [hsends]
    exact (hw.removeEventListener _).request _ _
  | message data origin throws sending frame hframe => exact hw.dispatch (hspares frame hframe)
  | timeout i =>
    have hsettled := hw.settle i .timedOut
    refine hsettled.of_same (hsettled.listed.of_sublist (List.Sublist.refl _)
      (by simp [timeout, stopTimer]) rfl) (fun _ hmem => hmem) (fun j => ?_) fun _ => rfl
    simp only [timeout, stopTimer, List.getElem?_modify]
    cases (((w.removeEventListener (.handleResponse i)).settle i .timedOut).requests)[j]? <;> simp
    split_ifs <;> rfl

/-! ## What an unguarded step leaves -/

/-- The send of request `i` threw, and its listener is attached. -/
def Stuck (i : ℕ) (w : JsonRpcSocket) : Prop :=
  ∃ r : ClientRequest, w.requests[i]? = some r ∧ r.settlement = some .threw ∧
    .handleResponse i ∈ w.listeners

theorem Stuck.not_cleansUp (hw : Stuck i w) : ¬w.CleansUp := by
  obtain ⟨r, hr, hthrew, hmem⟩ := hw
  exact fun h => h.requests i r hr (by rw [hthrew]; rfl) hmem

theorem Stuck.keeps (hw : Stuck i w) (h : Keeps i w t) : Stuck i t := by
  obtain ⟨r, hr, hthrew, hmem⟩ := hw
  refine ⟨r, h.request.trans hr, hthrew, ?_⟩
  rwa [← List.count_pos_iff, h.listener, List.count_pos_iff]

theorem stuck_request (w : JsonRpcSocket) (request : JsonRpcRequest) (uuid : JsString) :
    Stuck w.requests.length (w.request request uuid false) :=
  ⟨_, List.getElem?_concat_length, rfl, by simp [JsonRpcSocket.request]⟩

theorem stuck_socketEventListener (w : JsonRpcSocket) (s : ℕ) (id : JsValue) {sending : Sending}
    (herror : (frame.own (js "error")).isSome = true) (hthrows : sending.sends = false) :
    Stuck w.requests.length (w.socketEventListener s id frame sending) := by
  unfold JsonRpcSocket.socketEventListener closeSubscription
  rw [if_pos herror, hthrows]
  exact (stuck_request (w.removeEventListener (.socketEventListener s)) _ _).keeps ⟨rfl, rfl⟩

theorem handleResponse_length (w : JsonRpcSocket) (i : ℕ) (frame : Json) :
    (w.handleResponse i frame).requests.length = w.requests.length := by
  rcases w.handleResponse_cases i frame with hsame | hsettles
  · rw [hsame]
  · simp [hsettles, JsonRpcSocket.settle, JsonRpcSocket.removeEventListener]

theorem socketEventListener_length (w : JsonRpcSocket) (s : ℕ) (id : JsValue) (frame : Json)
    (sending : Sending) :
    w.requests.length ≤ (w.socketEventListener s id frame sending).requests.length := by
  unfold JsonRpcSocket.socketEventListener
  split_ifs <;> simp [deliver, closeSubscription, JsonRpcSocket.request,
    JsonRpcSocket.removeEventListener]

/-- A close request that throws while a frame is handed out. -/
theorem stuck_dispatch {listeners : List MessageListener}
    (hlisteners : ∀ i, .handleResponse i ∈ listeners → i < w.requests.length)
    (hs : s ∈ w.closing frame throws listeners) (hthrows : (sending s).sends = false) :
    ∃ i, Stuck i (dispatch frame throws sending listeners w) := by
  induction listeners generalizing w with
  | nil => simp [closing] at hs
  | cons listener rest ih =>
    have hrest : ∀ i, .handleResponse i ∈ rest → i < w.requests.length :=
      fun i hi => hlisteners i (List.mem_cons_of_mem _ hi)
    cases listener with
    | handleResponse i =>
      have hsame : (w.handleResponse i frame).closing frame throws rest =
          w.closing frame throws rest :=
        closing_congr (fun s => by rw [handleResponse_subscriptions]) rest
      exact ih (fun j hj => (hrest j hj).trans_eq (handleResponse_length w i frame).symm)
        (hsame ▸ hs)
    | socketEventListener s' =>
      rw [JsonRpcSocket.dispatch]
      rw [closing] at hs
      cases hsub : w.subscriptions[s']? with
      | none => exact ih hrest (by simpa [hsub] using hs)
      | some sub =>
        cases hmatches : (frame.own (js "id")).strictEquals sub.id with
        | false =>
          simp only [hmatches, Bool.false_eq_true, if_false]
          exact ih hrest (by simpa [hsub, hmatches] using hs)
        | true =>
          simp only [hsub, Option.any_some, hmatches, if_true, List.mem_append] at hs
          simp only [hmatches, if_true]
          rcases hs with hfirst | hlater
          · split_ifs at hfirst with herror
            · -- the close request has the next number, so no listener of the frame removes its own
              obtain rfl := List.mem_singleton.mp hfirst
              have hstuck := stuck_socketEventListener w s sub.id herror hthrows
              have hthrew := hstuck
              obtain ⟨r, hr, -⟩ := hthrew
              refine ⟨w.requests.length, ?_⟩
              split_ifs
              · exact hstuck
              · exact hstuck.keeps (keeps_dispatch hr fun hmem =>
                  absurd (hrest _ hmem) (lt_irrefl _))
            · cases hfirst
          · split_ifs at hlater ⊢ with hstop
            · cases hlater
            · refine ih (fun i hi => (hrest i hi).trans_le (socketEventListener_length ..)) ?_
              rwa [closing_congr (socketEventListener_ids w s' sub.id frame (sending s'))]

/-- A step that leaves no listener of a failed call meets the guard. -/
theorem Cleared.spares_of_step (hw : w.Cleared) (h : w.step a = some t) (ht : t.CleansUp) :
    w.Spares a := by
  cases stepped_of_step h with
  | request request uuid sends =>
    cases sends with
    | true => rfl
    | false => exact absurd ht (stuck_request w request uuid).not_cleansUp
  | invalid _ _ _ hinvalid => exact fun hvalid => absurd hvalid hinvalid
  | subscribe request uuid sends =>
    intro _
    cases sends with
    | true => rfl
    | false => exact absurd ht (stuck_request _ request uuid).not_cleansUp
  | subscribed s sub r settlement hsub _ hr hsettled =>
    intro sub' hsub' r' hr' hrejected hmem
    obtain rfl := Option.some.inj (hsub.symm.trans hsub')
    obtain rfl := Option.some.inj (hr.symm.trans hr')
    have hsubscribed : w.subscribed s settlement = w.setOutcome s .rejected := by
      rcases hrejected with h' | h' <;> obtain rfl := Option.some.inj (hsettled.symm.trans h') <;>
        rfl
    rw [hsubscribed] at ht
    exact (ht.subscriptions s _ (setOutcome_self hsub _) rfl).2 hmem
  | close s sending =>
    cases hsends : sending.sends with
    | true => exact hsends
    | false =>
      unfold JsonRpcSocket.close closeSubscription at ht
      rw [hsends] at ht
      exact absurd ht (stuck_request _ _ _).not_cleansUp
  | unreadable _ _ _ _ hframe => exact fun frame hframe' => by simp [hframe] at hframe'
  | message data origin throws sending frame hframe =>
    intro frame' hframe' s hs
    obtain rfl := Option.some.inj (hframe.symm.trans hframe')
    by_contra hsends
    have hthrows : (sending s).sends = false := by simpa using hsends
    obtain ⟨i, hstuck⟩ := stuck_dispatch hw.listed.requests hs hthrows
    exact hstuck.not_cleansUp ht
  | timeout i => trivial

/-! ## The caller's listener -/

/-- A frame is not delivered to a subscription whose listener is not among those it reaches. -/
theorem dispatch_subscriptions {listeners : List MessageListener}
    (hs : .socketEventListener s ∉ listeners) :
    (dispatch frame throws sending listeners w).subscriptions[s]? = w.subscriptions[s]? := by
  induction listeners generalizing w with
  | nil => rfl
  | cons listener rest ih =>
    obtain ⟨hne, hrest⟩ := List.ne_and_not_mem_of_not_mem_cons hs
    cases listener with
    | handleResponse i =>
      exact (ih hrest).trans (by rw [handleResponse_subscriptions])
    | socketEventListener s' =>
      have hs' : s' ≠ s := by
        rintro rfl
        exact hne rfl
      have hheard : ∀ id sending, (w.socketEventListener s' id frame sending).subscriptions[s]? =
          w.subscriptions[s]? := by
        intro id sending
        unfold JsonRpcSocket.socketEventListener
        split_ifs <;> simp [deliver, hs', closeSubscription, JsonRpcSocket.request,
          JsonRpcSocket.removeEventListener]
      rw [JsonRpcSocket.dispatch]
      split
      · split_ifs
        · exact hheard _ _
        · exact (ih hrest).trans (hheard _ _)
        · exact ih hrest
      · exact ih hrest

theorem Cleared.hushed (hw : w.Cleared) (h : w.step a = some t) : w.Hushed t := by
  intro s sub sub' hsub hfailed hsub'
  have hlt := (List.getElem?_eq_some_iff.mp hsub).1
  have hsame (hsubscriptions : t.subscriptions[s]? = w.subscriptions[s]?) :
      sub'.delivered = sub.delivered := by
    rw [hsubscriptions, hsub] at hsub'
    exact congrArg _ (Option.some.inj hsub').symm
  cases stepped_of_step h with
  | request | invalid | close | unreadable | timeout => exact hsame rfl
  | subscribe => exact hsame (List.getElem?_append_left hlt)
  | subscribed s' _ _ settlement hwaiting hnone =>
    have hne : s' ≠ s := by
      rintro rfl
      obtain rfl := Option.some.inj (hwaiting.symm.trans hsub)
      simp [hnone] at hfailed
    exact hsame (subscribed_of_ne hne settlement).1
  | message => exact hsame (dispatch_subscriptions (hw.failed s sub hsub hfailed))

/-- In every run, a call that has failed has none of its listeners left and the caller's listener is
not called any more, exactly if no send throws and each `subscribe` whose request is rejected has
lost its listener before. -/
theorem cleansUp_iff_spares (as : List ClientAction) :
    (Throughout JsonRpcSocket.step CleansUp new as ∧
      Along JsonRpcSocket.step (fun w _ t => w.Hushed t) new as) ↔
    Along JsonRpcSocket.step (fun w a _ => w.Spares a) new as := by
  have hcleans : Throughout JsonRpcSocket.step CleansUp new as ↔
      Along JsonRpcSocket.step (fun w a _ => w.Spares a) new as :=
    throughout_iff_along (I := Cleared) (fun _ hw => hw.cleansUp)
      (fun _ _ _ hw hspares h => hw.step hspares h)
      (fun _ _ _ hw h ht => hw.spares_of_step h ht) cleared_new
  rw [hcleans]
  refine ⟨And.left, fun hspares => ⟨hspares, ?_⟩⟩
  exact along_of_invariant (fun _ _ _ hw hspares h => ⟨hw.step hspares h, hw.hushed h⟩)
    cleared_new hspares

/-- A request to subscribe is not answered in time. -/
def unanswered : List ClientAction :=
  [.subscribe (subscribeTo 7) [] true, .timeout 0, .subscribed 0]

/-- When `subscribe` has been rejected, the listener is there and gets the next frame. -/
theorem not_cleansUp_unanswered :
    ¬Throughout JsonRpcSocket.step CleansUp new (unanswered ++ [frameWith "7" (.event 0)]) ∧
    ¬Along JsonRpcSocket.step (fun w _ t => w.Hushed t) new
      (unanswered ++ [frameWith "7" (.event 0)]) := by
  obtain ⟨w, hrun, sub, hsub, houtcome, hmem, hheard⟩ : ∃ w,
      run JsonRpcSocket.step new unanswered = some w ∧ ∃ sub ∈ w.subscriptions[0]?,
        sub.outcome = some .rejected ∧ .socketEventListener 0 ∈ w.listeners ∧
          ∃ t ∈ w.step (frameWith "7" (.event 0)), ∃ sub' ∈ t.subscriptions[0]?,
            sub'.delivered ≠ sub.delivered := exists_of_run (by decide +kernel)
  obtain ⟨t, hstep, sub', hsub', hdelivered⟩ := hheard
  have hfailed : sub.outcome.any (·.failed) = true := by
    rw [houtcome]
    rfl
  constructor
  · intro h
    have hcleans := throughout_iff.mp h unanswered w (List.prefix_append ..) hrun
    exact (hcleans.subscriptions 0 sub hsub hfailed).2 hmem
  · intro h
    exact hdelivered (h.at hrun hstep 0 sub sub' hsub hfailed hsub')

end JsonRpcSocket

end DwnServer
