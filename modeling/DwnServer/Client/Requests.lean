import DwnServer.Client.JsonRpcSocket

/-!
# Requests over one socket

Each request has a listener and a timer of its own. A frame reaches all the listeners that are
there, unless the caller's listener of a subscription throws before; so a request whose id is not
the one of a subscription is settled by the first of its own events.
-/
namespace DwnServer

open Transition

theorem JsValue.strictEquals_iff {v w : JsValue} : v.strictEquals w = true ↔
    v.normalizeZero = w.normalizeZero ∧ (∀ elements, v.normalizeZero ≠ some (.array elements)) ∧
      ∀ members, v.normalizeZero ≠ some (.object members) := by
  unfold strictEquals
  split <;> simp_all

/-- Two values that equal a third one. -/
theorem JsValue.strictEquals_of_both {u v w : JsValue} (hv : u.strictEquals v = true)
    (hw : u.strictEquals w = true) : v.strictEquals w = true := by
  rw [strictEquals_iff] at hv hw ⊢
  obtain ⟨huv, harray, hobject⟩ := hv
  rw [← huv]
  exact ⟨hw.1, harray, hobject⟩

namespace JsonRpcSocket

/-- What an action has to say about a request, if it is one of the request's own. -/
def settles (i : ℕ) (id : JsValue) : ClientAction → Option RequestSettlement
  | .message data _ _ _ =>
    ((frameOf data).filter fun frame => (frame.own (js "id")).strictEquals id).map .resolved
  | .timeout j => if j = i then some .timedOut else none
  | _ => none

/-- The actions that can settle a request. -/
def concerns (i : ℕ) : ClientAction → Bool
  | .message _ _ _ _ => true
  | .timeout j => j = i
  | _ => false

def subscriptionOf (w : JsonRpcSocket) : MessageListener → Option ClientSubscription
  | .socketEventListener s => w.subscriptions[s]?
  | .handleResponse _ => none

/-- `id` is not the one of a subscription whose listener is there. -/
def NoSubscription (w : JsonRpcSocket) (id : JsValue) : Prop :=
  ∀ listener ∈ w.listeners, ∀ sub ∈ w.subscriptionOf listener, sub.id.strictEquals id = false

instance (w : JsonRpcSocket) (id : JsValue) : Decidable (w.NoSubscription id) :=
  inferInstanceAs (Decidable (∀ _ ∈ _, _))

/-! ## What does not concern a request -/

/-- Request `i` stands in `t` as it does in `w`, and so does its listener. -/
structure Keeps (i : ℕ) (w t : JsonRpcSocket) : Prop where
  request : t.requests[i]? = w.requests[i]?
  listener : t.listeners.count (.handleResponse i) = w.listeners.count (.handleResponse i)

variable {w u t : JsonRpcSocket} {i j s : ℕ} {frame : Json} {id : JsValue} {throws : ℕ → Bool}
  {sending : ℕ → Sending}

theorem Keeps.refl (i : ℕ) (w : JsonRpcSocket) : Keeps i w w := ⟨rfl, rfl⟩

theorem Keeps.trans (h : Keeps i w u) (h' : Keeps i u t) : Keeps i w t :=
  ⟨h'.request.trans h.request, h'.listener.trans h.listener⟩

theorem keeps_request (hi : i < w.requests.length) (request : JsonRpcRequest) (uuid : JsString)
    (sends : Bool) : Keeps i w (w.request request uuid sends) where
  request := List.getElem?_append_left hi
  listener := by
    have hne : w.requests.length ≠ i := by omega
    simp [JsonRpcSocket.request, List.count_append, hne]

theorem keeps_removeEventListener {listener : MessageListener}
    (h : listener ≠ .handleResponse i) : Keeps i w (w.removeEventListener listener) where
  request := rfl
  listener := List.count_erase_of_ne (Ne.symm h)

theorem keeps_removeSubscription (i : ℕ) (w : JsonRpcSocket) (s : ℕ) :
    Keeps i w (w.removeEventListener (.socketEventListener s)) :=
  keeps_removeEventListener (by simp)

theorem keeps_settle (h : j ≠ i) (settlement : RequestSettlement) :
    Keeps i w (w.settle j settlement) where
  request := by simp [settle, h]
  listener := rfl

theorem keeps_addSubscription (i : ℕ) (w : JsonRpcSocket) (id : JsValue) :
    Keeps i w (w.addSubscription id) :=
  ⟨rfl, by simp [addSubscription, List.count_append]⟩

theorem keeps_stopTimer (h : j ≠ i) : Keeps i w (w.stopTimer j) where
  request := by simp [stopTimer, h]
  listener := rfl

theorem keeps_handleResponse (h : j ≠ i) (frame : Json) : Keeps i w (w.handleResponse j frame) := by
  rcases w.handleResponse_cases j frame with hsame | hsettles
  · rw [hsame]
    exact .refl i w
  · rw [hsettles]
    exact (keeps_removeEventListener (by simpa using h)).trans (keeps_settle h _)

theorem handleResponse_subscriptions (w : JsonRpcSocket) (i : ℕ) (frame : Json) :
    (w.handleResponse i frame).subscriptions = w.subscriptions := by
  rcases w.handleResponse_cases i frame with hsame | hsettles
  · rw [hsame]
  · rw [hsettles]
    rfl

/-- A frame with another id. -/
theorem handleResponse_of_ne {r : ClientRequest} (hi : w.requests[i]? = some r)
    (h : (frame.own (js "id")).strictEquals r.request.id = false) :
    w.handleResponse i frame = w := by
  simp [handleResponse, hi, h]

theorem keeps_socketEventListener (hi : i < w.requests.length) (s : ℕ) (id : JsValue) (frame : Json)
    (sending : Sending) : Keeps i w (w.socketEventListener s id frame sending) := by
  unfold socketEventListener
  split_ifs
  · exact ((keeps_removeSubscription i w s).trans
      (keeps_request (w := w.removeEventListener _) hi _ _ _)).trans ⟨rfl, rfl⟩
  · exact ⟨rfl, rfl⟩

/-- A frame that the listener of a request does not get, or that has another id. -/
theorem keeps_dispatch {r : ClientRequest} {listeners : List MessageListener}
    (hi : w.requests[i]? = some r) (h : .handleResponse i ∈ listeners →
      (frame.own (js "id")).strictEquals r.request.id = false) :
    Keeps i w (dispatch frame throws sending listeners w) := by
  induction listeners generalizing w with
  | nil => exact .refl i w
  | cons listener rest ih =>
    have hrest : .handleResponse i ∈ rest →
        (frame.own (js "id")).strictEquals r.request.id = false :=
      fun hmem => h (List.mem_cons_of_mem _ hmem)
    have hnext {u : JsonRpcSocket} (hu : Keeps i w u) :
        Keeps i w (dispatch frame throws sending rest u) :=
      hu.trans (ih (hu.request.trans hi) hrest)
    cases listener with
    | handleResponse j =>
      by_cases hj : j = i
      · subst hj
        have hsame := handleResponse_of_ne hi (h List.mem_cons_self)
        rw [dispatch, hsame]
        exact hnext (.refl _ w)
      · exact hnext (keeps_handleResponse hj frame)
    | socketEventListener s =>
      have hlt := (List.getElem?_eq_some_iff.mp hi).1
      rw [dispatch]
      split
      · split_ifs
        · exact keeps_socketEventListener hlt s _ frame (sending s)
        · exact hnext (keeps_socketEventListener hlt s _ frame (sending s))
        · exact hnext (.refl i w)
      · exact hnext (.refl i w)

/-! ## The events of a request -/

/-- The promise of request `i` is not settled, and its listener and its timer are there. -/
def Waits (w : JsonRpcSocket) (i : ℕ) (request : JsonRpcRequest) : Prop :=
  w.requests[i]? = some ⟨request, none, true⟩ ∧ w.listeners.count (.handleResponse i) = 1

/-- The promise of request `i` is settled, and its listener is there `n` times at most. -/
def SettledTo (n : ℕ) (w : JsonRpcSocket) (i : ℕ) (request : JsonRpcRequest)
    (settlement : RequestSettlement) : Prop :=
  (∃ timer, w.requests[i]? = some ⟨request, some settlement, timer⟩) ∧
    w.listeners.count (.handleResponse i) ≤ n

/-- The promise of request `i` is settled, and its listener is gone. -/
def Done (w : JsonRpcSocket) (i : ℕ) (request : JsonRpcRequest)
    (settlement : RequestSettlement) : Prop :=
  SettledTo 0 w i request settlement

variable {request : JsonRpcRequest} {settlement : RequestSettlement} {n : ℕ}

theorem Waits.keeps (hw : w.Waits i request) (h : Keeps i w t) : t.Waits i request :=
  ⟨h.request.trans hw.1, h.listener.trans hw.2⟩

theorem SettledTo.keeps (hw : SettledTo n w i request settlement) (h : Keeps i w t) :
    SettledTo n t i request settlement := by
  obtain ⟨⟨timer, hi⟩, hlistener⟩ := hw
  exact ⟨⟨timer, h.request.trans hi⟩, h.listener.trans_le hlistener⟩

/-- Its listener is removed and its promise settled. -/
theorem Waits.settle (hw : w.Waits i request) (settlement : RequestSettlement) :
    ((w.removeEventListener (.handleResponse i)).settle i settlement).Done i request
      settlement := by
  obtain ⟨hi, hlistener⟩ := hw
  refine ⟨⟨true, ?_⟩, ?_⟩
  · simp [JsonRpcSocket.settle, removeEventListener, hi]
  · simp [JsonRpcSocket.settle, removeEventListener, hlistener]

theorem Waits.handleResponse (hw : w.Waits i request)
    (h : (frame.own (js "id")).strictEquals request.id = true) :
    (w.handleResponse i frame).Done i request (.resolved frame) := by
  simp only [JsonRpcSocket.handleResponse, hw.1, h, if_true]
  exact hw.settle _

/-- The first settlement stays. -/
theorem SettledTo.settle (hw : SettledTo n w i request settlement) (listener : MessageListener)
    (j : ℕ) (other : RequestSettlement) :
    SettledTo n ((w.removeEventListener listener).settle j other) i request settlement := by
  obtain ⟨⟨timer, hi⟩, hlistener⟩ := hw
  refine ⟨⟨timer, ?_⟩, (List.erase_sublist.count_le _).trans hlistener⟩
  simp only [JsonRpcSocket.settle, removeEventListener, List.getElem?_modify, hi]
  split_ifs <;> rfl

theorem SettledTo.handleResponse (hw : SettledTo n w i request settlement) (j : ℕ) (frame : Json) :
    SettledTo n (w.handleResponse j frame) i request settlement := by
  rcases w.handleResponse_cases j frame with hsame | hsettles
  · rwa [hsame]
  · exact hsettles ▸ hw.settle _ j _

theorem SettledTo.lt (hw : SettledTo n w i request settlement) : i < w.requests.length := by
  obtain ⟨⟨timer, hi⟩, -⟩ := hw
  exact (List.getElem?_eq_some_iff.mp hi).1

theorem SettledTo.dispatch (hw : SettledTo n w i request settlement)
    (listeners : List MessageListener) :
    SettledTo n (dispatch frame throws sending listeners w) i request settlement :=
  dispatch_invariant (P := fun w => SettledTo n w i request settlement)
    (fun _ j _ hw => hw.handleResponse j frame)
    (fun _ s id sending hw => hw.keeps (keeps_socketEventListener hw.lt s id frame sending)) hw

/-- A frame with the id of the request reaches its listener. -/
theorem Waits.dispatch {listeners : List MessageListener} (hw : w.Waits i request)
    (hmem : .handleResponse i ∈ listeners)
    (hmatches : (frame.own (js "id")).strictEquals request.id = true)
    (hothers : ∀ s sub, .socketEventListener s ∈ listeners → w.subscriptions[s]? = some sub →
      (frame.own (js "id")).strictEquals sub.id = false) :
    (dispatch frame throws sending listeners w).Done i request (.resolved frame) := by
  induction listeners generalizing w with
  | nil => cases hmem
  | cons listener rest ih =>
    have hrest : ∀ s sub, .socketEventListener s ∈ rest → w.subscriptions[s]? = some sub →
        (frame.own (js "id")).strictEquals sub.id = false :=
      fun s sub hs => hothers s sub (List.mem_cons_of_mem _ hs)
    cases listener with
    | handleResponse j =>
      by_cases hj : j = i
      · subst hj
        exact SettledTo.dispatch (hw.handleResponse hmatches) rest
      · have hmem' : .handleResponse i ∈ rest := by
          rcases List.mem_cons.mp hmem with heq | hmem
          · exact absurd (MessageListener.handleResponse.inj heq).symm hj
          · exact hmem
        refine ih (hw.keeps (keeps_handleResponse hj frame)) hmem' fun s sub hs hsub => ?_
        rw [handleResponse_subscriptions] at hsub
        exact hrest s sub hs hsub
    | socketEventListener s =>
      have hmem' : .handleResponse i ∈ rest := by simpa using hmem
      rw [JsonRpcSocket.dispatch]
      split
      · rename_i sub hsub
        rw [if_neg (by simp [hothers s sub List.mem_cons_self hsub])]
        exact ih hw hmem' hrest
      · exact ih hw hmem' hrest

theorem Waits.lt (hw : w.Waits i request) : i < w.requests.length :=
  (List.getElem?_eq_some_iff.mp hw.1).1

/-- Actions that settle nothing. -/
theorem keeps_step {a : ClientAction} (hi : i < w.requests.length)
    (ha : concerns i a = false) (h : w.step a = some t) : Keeps i w t := by
  cases stepped_of_step h with
  | request other uuid sends => exact keeps_request hi other uuid sends
  | invalid => exact .refl i w
  | subscribe other uuid sends =>
    exact (keeps_addSubscription i w _).trans
      (keeps_request (w := w.addSubscription _) hi other uuid sends)
  | subscribed s _ _ settlement =>
    obtain ⟨outcome, hstays | hremoved⟩ := w.subscribed_cases s settlement
    · rw [hstays]
      exact ⟨rfl, rfl⟩
    · rw [hremoved]
      exact (keeps_removeSubscription i w s).trans ⟨rfl, rfl⟩
  | close s =>
    exact (keeps_removeSubscription i w s).trans
      (keeps_request (w := w.removeEventListener _) hi _ _ _)
  | unreadable | message => cases ha
  | timeout j =>
    have hj : j ≠ i := of_decide_eq_false ha
    exact ((keeps_removeEventListener (by simpa using hj)).trans
      (keeps_settle hj .timedOut)).trans (keeps_stopTimer hj)

/-- An action that is no event of the request. -/
theorem Waits.step_of_none {a : ClientAction} (hw : w.Waits i request)
    (ha : settles i request.id a = none) (h : w.step a = some t) : t.Waits i request := by
  cases stepped_of_step h with
  | unreadable => exact hw
  | message data origin throws sending frame hframe =>
    exact hw.keeps (keeps_dispatch hw.1 fun _ => by simpa [settles, hframe] using ha)
  | timeout j =>
    have hj : concerns i (.timeout j) = false := by
      simpa [settles, concerns] using ha
    exact hw.keeps (keeps_step hw.lt hj h)
  | request | invalid | subscribe | subscribed | close =>
    exact hw.keeps (keeps_step hw.lt rfl h)

/-- Its timer fires. -/
theorem Waits.step_timeout (hw : w.Waits i request) (h : w.step (.timeout i) = some t) :
    t.Done i request .timedOut := by
  cases stepped_of_step h with
  | timeout =>
    obtain ⟨⟨timer, hi⟩, hlistener⟩ := hw.settle .timedOut
    exact ⟨⟨false, by simp [timeout, stopTimer, hi]⟩, hlistener⟩

/-- The first event of the request settles it. -/
theorem Waits.step_of_some {a : ClientAction} (hw : w.Waits i request)
    (hids : w.NoSubscription request.id) (ha : settles i request.id a = some settlement)
    (h : w.step a = some t) : t.Done i request settlement := by
  cases a with
  | message data origin throws sending =>
    obtain ⟨frame, hfilter, rfl⟩ := Option.map_eq_some_iff.mp ha
    obtain ⟨hframe, hmatches⟩ := Option.filter_eq_some_iff.mp hfilter
    simp only [step, hframe] at h
    refine Option.some.inj h ▸ hw.dispatch ?_ hmatches fun s sub hs hsub => ?_
    · exact List.count_pos_iff.mp (by rw [hw.2]; exact Nat.one_pos)
    · by_contra hsub'
      have := JsValue.strictEquals_of_both (by simpa using hsub') hmatches
      simp [hids _ hs sub hsub] at this
  | timeout j =>
    obtain ⟨rfl, hsettlement⟩ := Option.ite_none_right_eq_some.mp ha
    exact Option.some.inj hsettlement ▸ hw.step_timeout h
  | request | subscribe | subscribed | close => cases ha

theorem SettledTo.step {a : ClientAction} (hw : SettledTo n w i request settlement)
    (h : w.step a = some t) : SettledTo n t i request settlement := by
  cases stepped_of_step h with
  | unreadable => exact hw
  | message => exact hw.dispatch _
  | timeout j =>
    obtain ⟨⟨timer, hi⟩, hlistener⟩ := hw.settle (.handleResponse j) j .timedOut
    refine ⟨?_, hlistener⟩
    simp only [timeout, stopTimer, List.getElem?_modify, hi]
    split_ifs
    · exact ⟨false, rfl⟩
    · exact ⟨timer, rfl⟩
  | request | invalid | subscribe | subscribed | close =>
    exact hw.keeps (keeps_step hw.lt rfl h)

/-! ## From the call on -/

theorem SettledTo.run {as : List ClientAction} (hw : SettledTo n w i request settlement)
    (h : run JsonRpcSocket.step w as = some t) : SettledTo n t i request settlement :=
  run_invariant (I := fun w => SettledTo n w i request settlement)
    (fun _ _ _ hw h => hw.step h) hw h

/-- A promise is settled by the first event of its request. -/
theorem Waits.run {as : List ClientAction} (hw : w.Waits i request)
    (hids : Along JsonRpcSocket.step (fun w _ _ => w.NoSubscription request.id) w as)
    (h : run JsonRpcSocket.step w as = some t) :
    match as.findSome? (settles i request.id) with
    | some settlement => t.Done i request settlement
    | none => t.Waits i request := by
  induction as generalizing w with
  | nil => exact Option.some.inj h ▸ hw
  | cons a as ih =>
    obtain ⟨u, hu, hrest⟩ := Option.bind_eq_some_iff.mp h
    obtain ⟨hid, hids⟩ := hids u hu
    cases ha : settles i request.id a with
    | some settlement =>
      rw [List.findSome?_cons_of_isSome (by simp [ha]), ha]
      exact (hw.step_of_some hid ha hu).run hrest
    | none =>
      rw [List.findSome?_cons_of_isNone (by simp [ha])]
      exact ih (hw.step_of_none ha hu) hids hrest

/-! ## The call itself -/

/-- Listeners of requests belong to calls that were made. The calls from `n` on wait, unless the
socket did not take their request. -/
structure Fresh (n : ℕ) (w : JsonRpcSocket) : Prop where
  listeners : ∀ i, .handleResponse i ∈ w.listeners → i < w.requests.length
  waits : ∀ i r, n ≤ i → w.requests[i]? = some r → r.settlement ≠ some .threw →
    w.Waits i r.request

theorem Fresh.of_keeps {n : ℕ} (hw : Fresh n w) (hlength : t.requests.length = w.requests.length)
    (hlisteners : ∀ i, .handleResponse i ∈ t.listeners → .handleResponse i ∈ w.listeners)
    (hkeeps : ∀ i, n ≤ i → Keeps i w t) : Fresh n t where
  listeners i hi := hlength ▸ hw.listeners i (hlisteners i hi)
  waits i r hn hr hthrew :=
    (hw.waits i r hn ((hkeeps i hn).request.symm.trans hr) hthrew).keeps (hkeeps i hn)

theorem Fresh.afterRequest {n : ℕ} (hw : Fresh n w) (request : JsonRpcRequest) (uuid : JsString)
    (sends : Bool) : Fresh n (w.request request uuid sends) where
  listeners i hi := by
    rcases List.mem_append.mp hi with hold | hnew
    · have hlt := hw.listeners i hold
      simp only [JsonRpcSocket.request, List.length_append, List.length_singleton]
      omega
    · obtain rfl := MessageListener.handleResponse.inj (List.mem_singleton.mp hnew)
      simp [JsonRpcSocket.request]
  waits i r hn hr hthrew := by
    rcases lt_trichotomy i w.requests.length with hlt | rfl | hgt
    · have hkeeps := keeps_request hlt request uuid sends
      exact (hw.waits i r hn (hkeeps.request.symm.trans hr) hthrew).keeps hkeeps
    · obtain rfl := Option.some.inj (List.getElem?_concat_length.symm.trans hr)
      have hfresh : w.listeners.count (.handleResponse w.requests.length) = 0 :=
        List.count_eq_zero.mpr fun hmem => lt_irrefl _ (hw.listeners _ hmem)
      cases sends with
      | false => exact absurd rfl hthrew
      | true =>
        exact ⟨List.getElem?_concat_length, by simp [JsonRpcSocket.request, hfresh]⟩
    · have hlt := (List.getElem?_eq_some_iff.mp hr).1
      simp only [JsonRpcSocket.request, List.length_append, List.length_singleton] at hlt
      omega

theorem Fresh.removeSubscription {n : ℕ} (hw : Fresh n w) (s : ℕ) :
    Fresh n (w.removeEventListener (.socketEventListener s)) :=
  hw.of_keeps rfl (fun _ => List.mem_of_mem_erase) fun i _ => keeps_removeSubscription i w s

theorem Fresh.of_eq {n : ℕ} (hw : Fresh n w) (hlisteners : t.listeners = w.listeners)
    (hrequests : t.requests = w.requests) : Fresh n t :=
  hw.of_keeps (by rw [hrequests]) (fun _ hi => hlisteners ▸ hi)
    fun i _ => ⟨by rw [hrequests], by rw [hlisteners]⟩

/-- An earlier request is settled, or left alone. -/
theorem Fresh.settle {n : ℕ} (hw : Fresh n w) (hj : j < n) (settlement : RequestSettlement) :
    Fresh n ((w.removeEventListener (.handleResponse j)).settle j settlement) := by
  refine hw.of_keeps (by simp [JsonRpcSocket.settle, removeEventListener])
    (fun _ => List.mem_of_mem_erase) fun i hi => ?_
  have hne : j ≠ i := by omega
  exact (keeps_removeEventListener (by simpa using hne)).trans (keeps_settle hne _)

theorem Fresh.dispatch {n : ℕ} {listeners : List MessageListener} (hw : Fresh n w)
    (hlt : ∀ i, .handleResponse i ∈ listeners → i < n) :
    Fresh n (dispatch frame throws sending listeners w) := by
  refine dispatch_invariant (P := Fresh n) (fun w j hj hw => ?_) (fun w s id sending hw => ?_) hw
  · rcases w.handleResponse_cases j frame with hsame | hsettles
    · rwa [hsame]
    · exact hsettles ▸ hw.settle (hlt j hj) _
  · unfold JsonRpcSocket.socketEventListener
    split_ifs
    · exact ((hw.removeSubscription s).afterRequest _ _ _).of_eq rfl rfl
    · exact hw.of_eq rfl rfl

/-- The requests that a step makes wait, unless the socket did not take them. -/
theorem Fresh.step {a : ClientAction} (hw : Fresh w.requests.length w) (h : w.step a = some t) :
    Fresh w.requests.length t := by
  cases stepped_of_step h with
  | request other uuid sends => exact hw.afterRequest other uuid sends
  | invalid | unreadable => exact hw
  | subscribe other uuid sends =>
    have hadd : Fresh w.requests.length
        (w.addSubscription (other.subscription.readOptional "id")) :=
      hw.of_keeps rfl (fun i hi => by simpa [addSubscription] using hi)
        fun i _ => keeps_addSubscription i w _
    exact hadd.afterRequest other uuid sends
  | subscribed s _ _ settlement =>
    obtain ⟨outcome, hstays | hremoved⟩ := w.subscribed_cases s settlement
    · exact hstays ▸ hw.of_eq rfl rfl
    · exact hremoved ▸ (hw.removeSubscription s).of_eq rfl rfl
  | close s => exact (hw.removeSubscription s).afterRequest _ _ _
  | message => exact hw.dispatch hw.listeners
  | timeout j r hr =>
    have hlt := (List.getElem?_eq_some_iff.mp hr).1
    exact (hw.settle hlt .timedOut).of_keeps (by simp [timeout, stopTimer])
      (fun _ => id) fun i hi => keeps_stopTimer (by omega)

theorem fresh_of_run {as : List ClientAction} (h : run JsonRpcSocket.step new as = some w) :
    Fresh w.requests.length w := by
  have hlisteners : ∀ i, .handleResponse i ∈ w.listeners → i < w.requests.length := by
    refine run_invariant
      (I := fun w => ∀ i, .handleResponse i ∈ w.listeners → i < w.requests.length)
      (fun w a t hw hstep => ?_) nofun h
    have hfresh : Fresh w.requests.length w :=
      ⟨hw, fun i r hi hr => absurd (List.getElem?_eq_some_iff.mp hr).1 (by omega)⟩
    exact (hfresh.step hstep).listeners
  exact ⟨hlisteners, fun i r hi hr => absurd (List.getElem?_eq_some_iff.mp hr).1 (by omega)⟩

/-- A request that the socket takes is settled by the first of its own events: a frame that bears
its id, or its timer. Until then its listener and its timer are there, and then the listener is
gone. -/
theorem request_settles {before after : List ClientAction} {a : ClientAction} {r : ClientRequest}
    (hbefore : run JsonRpcSocket.step new before = some w) (hcall : w.step a = some u)
    (hnew : w.requests.length ≤ i) (hr : u.requests[i]? = some r)
    (hsent : r.settlement ≠ some .threw) (hafter : run JsonRpcSocket.step u after = some t)
    (hids : Along JsonRpcSocket.step (fun w _ _ => w.NoSubscription r.request.id) u after) :
    match after.findSome? (settles i r.request.id) with
    | some settlement => t.Done i r.request settlement
    | none => t.Waits i r.request :=
  (((fresh_of_run hbefore).step hcall).waits i r hnew hr hsent).run hids hafter

/-- A frame with this id, which belongs to `origin`. -/
def frameWith (id : String) (origin : Origin) : ClientAction :=
  .message (js "\x7b\"id\":" ++ js id ++ js "\x7d") origin (fun _ => false) fun _ => ⟨[], true⟩

def ping : JsonRpcRequest := ⟨some (.number (.ofInt 1)), js "ping", none, none⟩

def pong : RequestSettlement := .resolved (.object [(js "id", .number (.ofInt 1))])

/-- A request is answered before its timer fires, and after another one. -/
theorem request_settles_answered : ∃ t, run JsonRpcSocket.step (new.request ping [] true)
    [frameWith "2" .other, frameWith "1" (.response 0), .timeout 0] = some t ∧
      t.Done 0 ping pong := by
  have hsome : (run JsonRpcSocket.step (new.request ping [] true)
      [frameWith "2" .other, frameWith "1" (.response 0), .timeout 0]).isSome = true := by
    decide +kernel
  have hfirst : [frameWith "2" .other, frameWith "1" (.response 0), .timeout 0].findSome?
      (settles 0 ping.id) = some pong := by decide +kernel
  have hids : Along JsonRpcSocket.step (fun w _ _ => w.NoSubscription ping.id)
      (new.request ping [] true)
      [frameWith "2" .other, frameWith "1" (.response 0), .timeout 0] := by
    decide +kernel
  obtain ⟨t, hrun⟩ := Option.isSome_iff_exists.mp hsome
  have hr : (new.request ping [] true).requests[0]? = some ⟨ping, none, true⟩ := rfl
  have hcall : new.step (.request ping [] true) = some (new.request ping [] true) := rfl
  have hdone : ∀ after t, after.findSome? (settles 0 ping.id) = some pong →
      Along JsonRpcSocket.step (fun w _ _ => w.NoSubscription ping.id) (new.request ping [] true)
        after →
      run JsonRpcSocket.step (new.request ping [] true) after = some t → t.Done 0 ping pong := by
    intro after t hfirst hids hrun
    have hsettles := request_settles (run_nil _ new) hcall (Nat.le_refl 0) hr nofun hrun hids
    rwa [hfirst] at hsettles
  exact ⟨t, hrun, hdone _ t hfirst hids hrun⟩

end JsonRpcSocket

end DwnServer
