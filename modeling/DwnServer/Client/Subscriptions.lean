import DwnServer.Client.Requests

/-!
# Subscriptions over one socket

A listener takes every frame that bears the id of its subscription. As long as a frame bears no
other id than the one of the call that it belongs to, the caller's listener gets the events of its
own subscription, in order, until the subscription is closed or an error frame comes.
-/
namespace DwnServer

open Transition

/-- The listener of the call that a frame belongs to. -/
def Origin.listener : Origin → Option MessageListener
  | .response i => some (.handleResponse i)
  | .event s => some (.socketEventListener s)
  | .other => none

namespace JsonRpcSocket

/-- The id that a listener waits for. -/
def listenerId (w : JsonRpcSocket) : MessageListener → Option JsValue
  | .handleResponse i => w.requests[i]?.map (·.request.id)
  | .socketEventListener s => w.subscriptions[s]?.map (·.id)

def bears (w : JsonRpcSocket) (frame : Json) (listener : MessageListener) : Bool :=
  (w.listenerId listener).any fun id => (frame.own (js "id")).strictEquals id

/-- A frame bears the id of the call that it belongs to, and none of those waited for if it belongs
to no call. -/
def Truthful (w : JsonRpcSocket) : ClientAction → Prop
  | .message data origin _ _ => ∀ frame ∈ frameOf data,
      (∀ listener ∈ origin.listener, w.bears frame listener = true) ∧
        (origin = .other → ∀ listener ∈ w.listeners, w.bears frame listener = false)
  | _ => True

/-- A frame bears, of the ids that are waited for, no other than the one of its own call. -/
def Unambiguous (w : JsonRpcSocket) : ClientAction → Prop
  | .message data origin _ _ => ∀ frame ∈ frameOf data, ∀ listener ∈ w.listeners,
      w.bears frame listener = true → origin.listener = some listener
  | _ => True

/-- As long as a listener is attached, a frame bears its id just when it belongs to its call, and
then bears the id of no other listener. -/
def Identifies (w : JsonRpcSocket) (listener : MessageListener) : ClientAction → Prop
  | .message data origin _ _ => listener ∈ w.listeners → ∀ frame ∈ frameOf data,
      (w.bears frame listener = true ↔ origin.listener = some listener) ∧
        (origin.listener = some listener →
          ∀ other ∈ w.listeners, w.bears frame other = true → other = listener)
  | _ => True

instance (w : JsonRpcSocket) : ∀ a, Decidable (w.Truthful a)
  | .message _ _ _ _ => inferInstanceAs (Decidable (∀ _ ∈ _, _))
  | .request .. | .subscribe .. | .subscribed _ | .close .. | .timeout _ => .isTrue trivial

instance (w : JsonRpcSocket) : ∀ a, Decidable (w.Unambiguous a)
  | .message _ _ _ _ => inferInstanceAs (Decidable (∀ _ ∈ _, _))
  | .request .. | .subscribe .. | .subscribed _ | .close .. | .timeout _ => .isTrue trivial

instance (w : JsonRpcSocket) (listener : MessageListener) :
    ∀ a, Decidable (w.Identifies listener a)
  | .message _ _ _ _ => inferInstanceAs (Decidable (_ → ∀ _ ∈ _, _))
  | .request .. | .subscribe .. | .subscribed _ | .close .. | .timeout _ => .isTrue trivial

/-- The event of subscription `s` that an action brings. -/
def eventOf (s : ℕ) : ClientAction → List Json
  | .message data (.event s') _ _ => if s' = s then (frameOf data).toList else []
  | _ => []

/-- The subscription is closed, or an error frame comes. -/
def ends (s : ℕ) : ClientAction → Bool
  | .close s' _ => s' = s
  | .message data (.event s') _ _ =>
    s' = s && (frameOf data).any fun frame => (frame.own (js "error")).isSome
  | _ => false

/-- The events of subscription `s` until its end. -/
def events (s : ℕ) : List ClientAction → List Json
  | [] => []
  | a :: as => eventOf s a ++ if ends s a then [] else events s as

/-- The listener of subscription `s` was called with the events of the subscription until its end,
and with nothing else. Only the answer to request `i`, an error, makes it miss any. -/
structure Routed (s i : ℕ) (as : List ClientAction) (sub : ClientSubscription) : Prop where
  inOrder : sub.delivered <+: events s as
  complete : (∀ response, sub.outcome ≠ some (.refused response)) → sub.delivered = events s as
  refused : ∀ response, sub.outcome = some (.refused response) →
    (response.own (js "error")).truthy = true ∧ ∃ data throws sending,
      .message data (.response i) throws sending ∈ as ∧ frameOf data = some response

variable {w u t : JsonRpcSocket} {i j s : ℕ} {frame : Json} {throws : ℕ → Bool}
  {sending : ℕ → Sending} {listener : MessageListener}

/-! ## The listeners of a socket -/

/-- No listener is there twice, and each belongs to a call that was made. -/
structure Listed (w : JsonRpcSocket) : Prop where
  nodup : w.listeners.Nodup
  requests : ∀ i, .handleResponse i ∈ w.listeners → i < w.requests.length
  subscriptions : ∀ s, .socketEventListener s ∈ w.listeners → s < w.subscriptions.length

theorem Listed.of_sublist (hw : w.Listed) (hlisteners : t.listeners.Sublist w.listeners)
    (hrequests : t.requests.length = w.requests.length)
    (hsubscriptions : t.subscriptions.length = w.subscriptions.length) : t.Listed where
  nodup := hlisteners.nodup hw.nodup
  requests i hi := hrequests ▸ hw.requests i (hlisteners.subset hi)
  subscriptions s hs := hsubscriptions ▸ hw.subscriptions s (hlisteners.subset hs)

theorem Listed.append {w t : JsonRpcSocket} (hw : w.Listed)
    (hlisteners : t.listeners = w.listeners ++ [listener])
    (hrequests : w.requests.length ≤ t.requests.length)
    (hsubscriptions : w.subscriptions.length ≤ t.subscriptions.length)
    (hnew : listener ∉ w.listeners) (hi : ∀ i, listener = .handleResponse i → i < t.requests.length)
    (hs : ∀ s, listener = .socketEventListener s → s < t.subscriptions.length) : t.Listed where
  nodup := by
    rw [hlisteners]
    exact List.nodup_append.mpr ⟨hw.nodup, List.nodup_singleton _, fun x hx y hy => by
      rintro rfl
      exact hnew (List.mem_singleton.mp hy ▸ hx)⟩
  requests i hmem := by
    rcases List.mem_append.mp (hlisteners ▸ hmem) with hold | hnew
    · exact (hw.requests i hold).trans_le hrequests
    · exact hi i (List.mem_singleton.mp hnew).symm
  subscriptions s hmem := by
    rcases List.mem_append.mp (hlisteners ▸ hmem) with hold | hnew
    · exact (hw.subscriptions s hold).trans_le hsubscriptions
    · exact hs s (List.mem_singleton.mp hnew).symm

theorem Listed.request (hw : w.Listed) (request : JsonRpcRequest) (uuid : JsString)
    (sends : Bool) : (w.request request uuid sends).Listed := by
  refine hw.append rfl (by simp [JsonRpcSocket.request]) le_rfl
    (fun hmem => lt_irrefl _ (hw.requests _ hmem)) ?_ nofun
  intro i hi
  obtain rfl := MessageListener.handleResponse.inj hi
  simp [JsonRpcSocket.request]

theorem Listed.addSubscription (hw : w.Listed) (id : JsValue) : (w.addSubscription id).Listed := by
  refine hw.append rfl le_rfl (by simp [JsonRpcSocket.addSubscription])
    (fun hmem => lt_irrefl _ (hw.subscriptions _ hmem)) nofun ?_
  intro s hs
  obtain rfl := MessageListener.socketEventListener.inj hs
  simp [JsonRpcSocket.addSubscription]

theorem Listed.removeEventListener (hw : w.Listed) (listener : MessageListener) :
    (w.removeEventListener listener).Listed :=
  hw.of_sublist List.erase_sublist rfl rfl

theorem Listed.handleResponse (hw : w.Listed) (i : ℕ) (frame : Json) :
    (w.handleResponse i frame).Listed := by
  rcases w.handleResponse_cases i frame with hsame | hsettles
  · rwa [hsame]
  · rw [hsettles]
    exact hw.of_sublist List.erase_sublist
      (by simp [settle, JsonRpcSocket.removeEventListener]) rfl

theorem Listed.socketEventListener (hw : w.Listed) (s : ℕ) (id : JsValue) (frame : Json)
    (sending : Sending) : (w.socketEventListener s id frame sending).Listed := by
  unfold JsonRpcSocket.socketEventListener
  split_ifs
  · exact ((hw.removeEventListener _).request _ _ _).of_sublist (List.Sublist.refl _) rfl
      (by simp [deliver, closeSubscription])
  · exact hw.of_sublist (List.Sublist.refl _) rfl (by simp [deliver])

theorem Listed.step {a : ClientAction} (hw : w.Listed) (h : w.step a = some t) : t.Listed := by
  cases stepped_of_step h with
  | request request uuid sends => exact hw.request request uuid sends
  | invalid | unreadable => exact hw
  | subscribe request uuid sends => exact (hw.addSubscription _).request request uuid sends
  | subscribed s _ _ settlement =>
    obtain ⟨outcome, hstays | hremoved⟩ := w.subscribed_cases s settlement
    · rw [hstays]
      exact hw.of_sublist (List.Sublist.refl _) rfl (by simp [setOutcome])
    · rw [hremoved]
      exact hw.of_sublist List.erase_sublist rfl
        (by simp [setOutcome, JsonRpcSocket.removeEventListener])
  | close => exact (hw.removeEventListener _).request _ _ _
  | message =>
    exact dispatch_invariant (P := Listed) (fun _ i _ hw => hw.handleResponse i _)
      (fun _ s id sending hw => hw.socketEventListener s id _ sending) hw
  | timeout =>
    exact hw.of_sublist List.erase_sublist
      (by simp [timeout, stopTimer, settle, JsonRpcSocket.removeEventListener]) rfl

theorem listed_of_run {as : List ClientAction} (h : run JsonRpcSocket.step new as = some w) :
    w.Listed :=
  run_invariant (fun _ _ _ hw h => hw.step h) ⟨List.nodup_nil, by simp [new], by simp [new]⟩ h

/-! ## A frame that one listener takes -/

/-- What a listener does with a frame that bears its id. -/
def hear (frame : Json) (sending : ℕ → Sending) (w : JsonRpcSocket) :
    MessageListener → JsonRpcSocket
  | .handleResponse i => w.handleResponse i frame
  | .socketEventListener s =>
    match w.subscriptions[s]? with
    | some sub => w.socketEventListener s sub.id frame (sending s)
    | none => w

/-- Listeners whose id a frame does not bear pass it on. -/
theorem dispatch_append {pre rest : List MessageListener}
    (h : ∀ listener ∈ pre, w.bears frame listener = false) :
    dispatch frame throws sending (pre ++ rest) w = dispatch frame throws sending rest w := by
  induction pre with
  | nil => rfl
  | cons listener pre ih =>
    obtain ⟨hlistener, hpre⟩ := List.forall_mem_cons.mp h
    rw [List.cons_append]
    cases listener with
    | handleResponse i =>
      have hsame : w.handleResponse i frame = w := by
        cases hi : w.requests[i]? with
        | none => simp [handleResponse, hi]
        | some r =>
          exact handleResponse_of_ne hi (by simpa [bears, listenerId, hi] using hlistener)
      rw [dispatch, hsame]
      exact ih hpre
    | socketEventListener s =>
      rw [dispatch]
      cases hs : w.subscriptions[s]? with
      | none => exact ih hpre
      | some sub =>
        have hne : (frame.own (js "id")).strictEquals sub.id = false := by
          simpa [bears, listenerId, hs] using hlistener
        simp only [hne, Bool.false_eq_true, if_false]
        exact ih hpre

/-- Nobody takes the frame. -/
theorem dispatch_eq_self {listeners : List MessageListener}
    (h : ∀ listener ∈ listeners, w.bears frame listener = false) :
    dispatch frame throws sending listeners w = w := by
  have happend : dispatch frame throws sending (listeners ++ []) w =
      dispatch frame throws sending [] w := dispatch_append h
  simpa [dispatch] using happend

/-- Listeners keep the ids that they wait for. -/
theorem listenerId_hear (hw : w.Listed) {other : MessageListener} (hother : other ∈ w.listeners) :
    (hear frame sending w listener).listenerId other = w.listenerId other := by
  have hresponse (i : ℕ) : (w.handleResponse i frame).listenerId other = w.listenerId other := by
    rcases w.handleResponse_cases i frame with hsame | hsettles
    · rw [hsame]
    · rw [hsettles]
      cases other with
      | handleResponse j =>
        simp only [listenerId, settle, removeEventListener, List.getElem?_modify]
        cases w.requests[j]? <;> simp
        split_ifs <;> rfl
      | socketEventListener => rfl
  have hevent (s : ℕ) (id : JsValue) (sending : Sending) :
      (w.socketEventListener s id frame sending).listenerId other = w.listenerId other := by
    unfold socketEventListener
    cases other with
    | handleResponse j =>
      have hlt := hw.requests j hother
      split_ifs
      · simp [listenerId, deliver, closeSubscription, JsonRpcSocket.request, removeEventListener,
          List.getElem?_append_left hlt]
      · rfl
    | socketEventListener s' =>
      have hsubs (u : JsonRpcSocket) (hu : u.subscriptions = w.subscriptions) :
          (u.deliver s frame).listenerId (.socketEventListener s') =
            w.listenerId (.socketEventListener s') := by
        simp only [listenerId, deliver, hu, List.getElem?_modify]
        cases w.subscriptions[s']? <;> simp
        split_ifs <;> rfl
      split_ifs
      · exact hsubs _ rfl
      · exact hsubs _ rfl
  unfold hear
  split
  · exact hresponse _
  · split
    · exact hevent _ _ _
    · rfl

/-- A frame that bears the id of one listener only is taken by that listener. -/
theorem dispatch_eq_hear (hw : w.Listed) (hmem : listener ∈ w.listeners)
    (hbears : w.bears frame listener = true)
    (honly : ∀ other ∈ w.listeners, w.bears frame other = true → other = listener) :
    dispatch frame throws sending w.listeners w = hear frame sending w listener := by
  obtain ⟨pre, post, hsplit⟩ := List.append_of_mem hmem
  have hnodup := hw.nodup
  rw [hsplit] at hnodup
  have hne : ∀ other ∈ pre ++ post, other ∈ w.listeners ∧ w.bears frame other = false := by
    intro other hother
    have hin : other ∈ w.listeners := by
      rw [hsplit]
      rcases List.mem_append.mp hother with h | h <;> simp [h]
    refine ⟨hin, ?_⟩
    by_contra hbears'
    obtain rfl := honly other hin (by simpa using hbears')
    exact (List.nodup_middle.mp hnodup).notMem hother
  have hpost : dispatch frame throws sending post (hear frame sending w listener) =
      hear frame sending w listener := by
    refine dispatch_eq_self fun other hother => ?_
    obtain ⟨hin, hfalse⟩ := hne other (List.mem_append_right _ hother)
    rw [bears, listenerId_hear hw hin]
    exact hfalse
  rw [hsplit, dispatch_append fun other hother => (hne other (List.mem_append_left _ hother)).2]
  cases listener with
  | handleResponse i => exact hpost
  | socketEventListener s =>
    cases hs : w.subscriptions[s]? with
    | none => simp [bears, listenerId, hs] at hbears
    | some sub =>
      have hmatches : (frame.own (js "id")).strictEquals sub.id = true := by
        simpa [bears, listenerId, hs] using hbears
      simp only [hear, hs] at hpost
      simp only [dispatch, hear, hs, hmatches, if_true]
      split_ifs
      · rfl
      · exact hpost

/-- What a step does with a frame that bears no other id than the one of its own call. -/
theorem step_message {data : JsString} {origin : Origin} (hw : w.Listed)
    (htruthful : w.Truthful (.message data origin throws sending))
    (hunambiguous : w.Unambiguous (.message data origin throws sending))
    (h : w.step (.message data origin throws sending) = some t) :
    (t = w ∧ ∀ frame ∈ frameOf data, ∀ listener ∈ origin.listener, listener ∉ w.listeners) ∨
      ∃ frame listener, frameOf data = some frame ∧ origin.listener = some listener ∧
        listener ∈ w.listeners ∧ t = hear frame sending w listener := by
  cases stepped_of_step h with
  | unreadable _ _ _ _ hframe =>
    exact Or.inl ⟨rfl, fun frame hframe' => by simp [hframe] at hframe'⟩
  | message _ _ _ _ frame hframe =>
    by_cases hlistener : ∃ listener ∈ origin.listener, listener ∈ w.listeners
    · obtain ⟨listener, horigin, hmem⟩ := hlistener
      refine Or.inr ⟨frame, listener, hframe, horigin, hmem, ?_⟩
      refine dispatch_eq_hear hw hmem ((htruthful frame hframe).1 listener horigin)
        fun other hother hbears => ?_
      exact Option.some.inj ((hunambiguous frame hframe other hother hbears).symm.trans horigin)
    · refine Or.inl ⟨dispatch_eq_self fun listener hmem => ?_, fun _ _ listener horigin hmem =>
        hlistener ⟨listener, horigin, hmem⟩⟩
      by_contra hbears
      have horigin := hunambiguous frame hframe listener hmem (by simpa using hbears)
      exact hlistener ⟨listener, horigin, hmem⟩

theorem identifies_of_unambiguous {a : ClientAction} (hguard : w.Truthful a ∧ w.Unambiguous a)
    (listener : MessageListener) : w.Identifies listener a := by
  cases a with
  | message data origin throws sending =>
    intro hmem frame hframe
    refine ⟨⟨fun hbears => hguard.2 frame hframe listener hmem hbears,
      fun horigin => (hguard.1 frame hframe).1 listener horigin⟩,
      fun horigin other hother hbears => ?_⟩
    have hother' := hguard.2 frame hframe other hother hbears
    exact Option.some.inj (hother'.symm.trans horigin)
  | _ => trivial

/-! ## One subscription -/

/-- What a step does to subscription `s`. -/
structure Follows (s : ℕ) (w : JsonRpcSocket) (a : ClientAction) (t : JsonRpcSocket)
    (sub sub' : ClientSubscription) : Prop where
  here : t.subscriptions[s]? = some sub'
  request : sub'.request = sub.request
  delivered : sub'.delivered = sub.delivered ++
    if .socketEventListener s ∈ w.listeners then eventOf s a else []
  stays : .socketEventListener s ∈ w.listeners → ends s a = false →
    .socketEventListener s ∈ t.listeners ∨ ∃ response, sub'.outcome = some (.refused response)
  gone : .socketEventListener s ∈ t.listeners →
    .socketEventListener s ∈ w.listeners ∧ ends s a = false
  settled : ∀ outcome, sub.outcome = some outcome → sub'.outcome = some outcome
  refused : ∀ response, sub'.outcome = some (.refused response) →
    sub.outcome = some (.refused response) ∨ a = .subscribed s ∧
      (response.own (js "error")).truthy = true ∧ ∃ r, w.requests[sub.request]? = some r ∧
        r.settlement = some (.resolved response)

variable {a : ClientAction} {sub : ClientSubscription}

/-- A step that does not concern the subscription. -/
theorem follows_of_same (hs : w.subscriptions[s]? = some sub)
    (hsame : t.subscriptions[s]? = w.subscriptions[s]?)
    (hlisteners : .socketEventListener s ∈ t.listeners ↔ .socketEventListener s ∈ w.listeners)
    (hevent : .socketEventListener s ∈ w.listeners → eventOf s a = [] ∧ ends s a = false) :
    Follows s w a t sub sub where
  here := hsame.trans hs
  request := rfl
  delivered := by
    split_ifs with hmem
    · simp [(hevent hmem).1]
    · simp
  stays hmem _ := Or.inl (hlisteners.mpr hmem)
  gone hmem := ⟨hlisteners.mp hmem, (hevent (hlisteners.mp hmem)).2⟩
  settled _ h := h
  refused _ h := Or.inl h

theorem mem_removeEventListener_iff {other : MessageListener} (hne : other ≠ listener) :
    other ∈ (w.removeEventListener listener).listeners ↔ other ∈ w.listeners :=
  List.mem_erase_of_ne hne

theorem Listed.not_mem_removeEventListener (hw : w.Listed) (listener : MessageListener) :
    listener ∉ (w.removeEventListener listener).listeners :=
  hw.nodup.not_mem_erase

theorem follows_subscribed {settlement : RequestSettlement} (hw : w.Listed)
    (hs : w.subscriptions[s]? = some sub) (houtcome : sub.outcome = none)
    {r : ClientRequest} (hr : w.requests[sub.request]? = some r)
    (hsettlement : r.settlement = some settlement) :
    ∃ sub', Follows s w (.subscribed s) (w.subscribed s settlement) sub sub' := by
  have hset (u : JsonRpcSocket) (outcome : SubscribeOutcome)
      (hu : u.subscriptions = w.subscriptions) :
      (u.setOutcome s outcome).subscriptions[s]? = some { sub with outcome := some outcome } := by
    simp [setOutcome, hu, hs]
  have hnothing : ∀ outcome, sub.outcome = some outcome →
      ∀ o : Option SubscribeOutcome, o = some outcome :=
    fun _ h => nomatch houtcome.symm.trans h
  unfold subscribed
  split
  · rename_i response
    split_ifs with herror
    · refine ⟨_, ⟨hset _ _ rfl, rfl, by simp [eventOf], fun _ _ => Or.inr ⟨response, rfl⟩,
        fun hmem => absurd hmem (hw.not_mem_removeEventListener _), fun o h => hnothing o h _, ?_⟩⟩
      rintro response' ⟨⟩
      exact Or.inr ⟨rfl, herror, r, hr, hsettlement⟩
    · exact ⟨_, ⟨hset _ _ rfl, rfl, by simp [eventOf], fun hmem _ => Or.inl hmem,
        fun hmem => ⟨hmem, rfl⟩, fun o h => hnothing o h _, nofun⟩⟩
  · exact ⟨_, ⟨hset _ _ rfl, rfl, by simp [eventOf], fun hmem _ => Or.inl hmem,
      fun hmem => ⟨hmem, rfl⟩, fun o h => hnothing o h _, nofun⟩⟩
  · exact ⟨_, ⟨hset _ _ rfl, rfl, by simp [eventOf], fun hmem _ => Or.inl hmem,
      fun hmem => ⟨hmem, rfl⟩, fun o h => hnothing o h _, nofun⟩⟩

/-- An event of the subscription. -/
theorem follows_event {data : JsString} (hw : w.Listed) (hs : w.subscriptions[s]? = some sub)
    (hmem : .socketEventListener s ∈ w.listeners) (hframe : frameOf data = some frame) :
    Follows s w (.message data (.event s) throws sending)
      (w.socketEventListener s sub.id frame (sending s)) sub
      { sub with delivered := sub.delivered ++ [frame] } where
  here := by
    have hdeliver (u : JsonRpcSocket) (hu : u.subscriptions = w.subscriptions) :
        (u.deliver s frame).subscriptions[s]? =
          some { sub with delivered := sub.delivered ++ [frame] } := by
      simp [deliver, hu, hs]
    unfold socketEventListener
    split_ifs
    · exact hdeliver _ rfl
    · exact hdeliver _ rfl
  request := rfl
  delivered := by simp [hmem, eventOf, hframe]
  stays _ hends := by
    simp only [ends, hframe, decide_true, Bool.true_and, Option.any_some] at hends
    simp only [socketEventListener, hends, Bool.false_eq_true, if_false]
    exact Or.inl hmem
  gone hmem' := by
    refine ⟨hmem, ?_⟩
    cases herror : (frame.own (js "error")).isSome with
    | false => simp [ends, hframe, herror]
    | true =>
      simp only [socketEventListener, herror, if_true] at hmem'
      have hremoved : .socketEventListener s ∈
          (w.removeEventListener (.socketEventListener s)).listeners := by
        simpa [deliver, closeSubscription, JsonRpcSocket.request] using hmem'
      exact absurd hremoved (hw.not_mem_removeEventListener _)
  settled _ h := h
  refused _ h := Or.inl h

/-- The end of another call of `subscribe`. -/
theorem subscribed_of_ne {s' : ℕ} (hne : s' ≠ s) (settlement : RequestSettlement) :
    (w.subscribed s' settlement).subscriptions[s]? = w.subscriptions[s]? ∧
      (.socketEventListener s ∈ (w.subscribed s' settlement).listeners ↔
        .socketEventListener s ∈ w.listeners) := by
  obtain ⟨outcome, hstays | hremoved⟩ := w.subscribed_cases s' settlement
  · rw [hstays]
    exact ⟨by simp [setOutcome, hne], Iff.rfl⟩
  · rw [hremoved]
    exact ⟨by simp [setOutcome, removeEventListener, hne],
      mem_removeEventListener_iff (by simpa using Ne.symm hne)⟩

/-- The response to a request. -/
theorem handleResponse_spares (i : ℕ) (frame : Json) :
    (w.handleResponse i frame).subscriptions[s]? = w.subscriptions[s]? ∧
      (.socketEventListener s ∈ (w.handleResponse i frame).listeners ↔
        .socketEventListener s ∈ w.listeners) := by
  rcases w.handleResponse_cases i frame with hsame | hsettles
  · rw [hsame]
    exact ⟨rfl, Iff.rfl⟩
  · rw [hsettles]
    exact ⟨rfl, mem_removeEventListener_iff (by simp)⟩

/-- An event of another subscription. -/
theorem socketEventListener_spares {s' : ℕ} (hne : s' ≠ s) (id : JsValue) (frame : Json)
    (sending : Sending) :
    (w.socketEventListener s' id frame sending).subscriptions[s]? = w.subscriptions[s]? ∧
      (.socketEventListener s ∈ (w.socketEventListener s' id frame sending).listeners ↔
        .socketEventListener s ∈ w.listeners) := by
  unfold socketEventListener
  split_ifs
  · have hmem : .socketEventListener s ∈
        (w.removeEventListener (.socketEventListener s')).listeners ↔ _ :=
      mem_removeEventListener_iff (by simpa using Ne.symm hne)
    refine ⟨?_, ?_⟩
    · simp [deliver, closeSubscription, JsonRpcSocket.request, removeEventListener, hne]
    · rw [← hmem]
      simp [deliver, closeSubscription, JsonRpcSocket.request]
  · exact ⟨by simp [deliver, hne], Iff.rfl⟩

/-- Listeners that a frame goes to leave a subscription alone whose id it does not bear. -/
theorem dispatch_spares (throws : ℕ → Bool) (sending : ℕ → Sending)
    {listeners : List MessageListener}
    (h : .socketEventListener s ∈ listeners → w.bears frame (.socketEventListener s) = false) :
    (dispatch frame throws sending listeners w).subscriptions[s]? = w.subscriptions[s]? ∧
      (.socketEventListener s ∈ (dispatch frame throws sending listeners w).listeners ↔
        .socketEventListener s ∈ w.listeners) := by
  induction listeners generalizing w with
  | nil => exact ⟨rfl, Iff.rfl⟩
  | cons listener rest ih =>
    have hnext {u : JsonRpcSocket} (hu : u.subscriptions[s]? = w.subscriptions[s]?)
        (hlisteners : .socketEventListener s ∈ u.listeners ↔ .socketEventListener s ∈ w.listeners) :
        (dispatch frame throws sending rest u).subscriptions[s]? = w.subscriptions[s]? ∧
          (.socketEventListener s ∈ (dispatch frame throws sending rest u).listeners ↔
            .socketEventListener s ∈ w.listeners) := by
      obtain ⟨hsame, hiff⟩ := ih (w := u) fun hmem => by
        simpa only [bears, listenerId, hu] using h (List.mem_cons_of_mem _ hmem)
      exact ⟨hsame.trans hu, hiff.trans hlisteners⟩
    cases listener with
    | handleResponse i =>
      obtain ⟨hsame, hlisteners⟩ := handleResponse_spares (w := w) (s := s) i frame
      exact hnext hsame hlisteners
    | socketEventListener s' =>
      rw [dispatch]
      split
      · rename_i sub hs'
        have hne (hmatches : (frame.own (js "id")).strictEquals sub.id = true) : s' ≠ s := by
          rintro rfl
          have hbears := h List.mem_cons_self
          simp [bears, listenerId, hs', hmatches] at hbears
        split_ifs with hmatches
        · exact socketEventListener_spares (hne hmatches) ..
        · obtain ⟨hsame, hlisteners⟩ :=
            socketEventListener_spares (w := w) (hne hmatches) sub.id frame (sending s')
          exact hnext hsame hlisteners
        · exact hnext rfl Iff.rfl
      · exact hnext rfl Iff.rfl

/-- A frame of the server. -/
theorem follows_message {data : JsString} {origin : Origin} (hw : w.Listed)
    (hs : w.subscriptions[s]? = some sub)
    (hguard : w.Identifies (.socketEventListener s) (.message data origin throws sending))
    (hframe : frameOf data = some frame) :
    ∃ sub', Follows s w (.message data origin throws sending)
      (dispatch frame throws sending w.listeners w) sub sub' := by
  by_cases hown : .socketEventListener s ∈ w.listeners ∧
      origin.listener = some (.socketEventListener s)
  · obtain ⟨hmem, horigin⟩ := hown
    obtain ⟨hbears, honly⟩ := hguard hmem frame hframe
    rw [dispatch_eq_hear hw hmem (hbears.mpr horigin) (honly horigin)]
    cases origin with
    | response | other => cases horigin
    | event s' =>
      obtain rfl := MessageListener.socketEventListener.inj (Option.some.inj horigin)
      simp only [hear, hs]
      exact ⟨_, follows_event hw hs hmem hframe⟩
  · obtain ⟨hsame, hlisteners⟩ := dispatch_spares throws sending fun hmem =>
      Bool.eq_false_iff.mpr fun hbears => hown ⟨hmem, (hguard hmem frame hframe).1.mp hbears⟩
    refine ⟨sub, follows_of_same hs hsame hlisteners fun hmem => ?_⟩
    cases origin with
    | response | other => exact ⟨rfl, rfl⟩
    | event s' =>
      have hne : s' ≠ s := by
        rintro rfl
        exact hown ⟨hmem, rfl⟩
      simp [eventOf, ends, hne]

theorem follows_step (hw : w.Listed) (hs : w.subscriptions[s]? = some sub)
    (hguard : w.Identifies (.socketEventListener s) a) (h : w.step a = some t) :
    ∃ sub', Follows s w a t sub sub' := by
  have hlt := (List.getElem?_eq_some_iff.mp hs).1
  cases stepped_of_step h with
  | request request uuid sends =>
    exact ⟨sub, follows_of_same hs rfl (by simp [JsonRpcSocket.request]) fun _ => ⟨rfl, rfl⟩⟩
  | invalid => exact ⟨sub, follows_of_same hs rfl Iff.rfl fun _ => ⟨rfl, rfl⟩⟩
  | subscribe request uuid sends =>
    have hne : s ≠ w.subscriptions.length := by omega
    exact ⟨sub, follows_of_same hs (List.getElem?_append_left hlt)
      (by simp [subscribe, JsonRpcSocket.request, addSubscription, hne]) fun _ => ⟨rfl, rfl⟩⟩
  | subscribed s' sub' r settlement hs' houtcome hr hsettled =>
    by_cases hne : s' = s
    · subst hne
      obtain rfl := Option.some.inj (hs.symm.trans hs')
      exact follows_subscribed hw hs houtcome hr hsettled
    · obtain ⟨hsame, hlisteners⟩ := subscribed_of_ne hne settlement
      exact ⟨sub, follows_of_same hs hsame hlisteners fun _ => ⟨rfl, rfl⟩⟩
  | close s' sending sub' =>
    have hmem : .socketEventListener s ∈ (w.close s' sub'.id sending).listeners ↔
        .socketEventListener s ∈ (w.removeEventListener (.socketEventListener s')).listeners := by
      simp [close, closeSubscription, JsonRpcSocket.request]
    by_cases hne : s' = s
    · subst hne
      refine ⟨sub, hs, rfl, by simp [eventOf], fun _ hends => by simp [ends] at hends,
        fun hin => absurd (hmem.mp hin) (hw.not_mem_removeEventListener _), fun _ h => h,
        fun _ h => Or.inl h⟩
    · exact ⟨sub, follows_of_same hs rfl
        (hmem.trans (mem_removeEventListener_iff (by simpa using Ne.symm hne)))
        fun _ => ⟨rfl, by simpa [ends] using hne⟩⟩
  | unreadable data origin _ _ hframe =>
    refine ⟨sub, follows_of_same hs rfl Iff.rfl fun _ => ?_⟩
    cases origin <;> simp [eventOf, ends, hframe]
  | message _ _ _ _ frame hframe => exact follows_message hw hs hguard hframe
  | timeout =>
    exact ⟨sub, follows_of_same hs rfl (mem_removeEventListener_iff (by simp))
      fun _ => ⟨rfl, rfl⟩⟩

/-! ## From the call on -/

/-- The frames that the listener of a subscription gets, and what a refusal comes from. -/
structure Hears (s : ℕ) (w : JsonRpcSocket) (as : List ClientAction) (t : JsonRpcSocket)
    (sub sub' : ClientSubscription) : Prop where
  here : t.subscriptions[s]? = some sub'
  request : sub'.request = sub.request
  delivered : ∃ heard, sub'.delivered = sub.delivered ++ heard ∧
    (.socketEventListener s ∉ w.listeners → heard = []) ∧ heard <+: events s as ∧
    (.socketEventListener s ∈ w.listeners → (∀ response, sub'.outcome ≠ some (.refused response)) →
      heard = events s as)
  settled : ∀ outcome, sub.outcome = some outcome → sub'.outcome = some outcome
  refused : ∀ response, sub'.outcome = some (.refused response) →
    sub.outcome = some (.refused response) ∨ (response.own (js "error")).truthy = true ∧
      ∃ before after u r, as = before ++ after ∧ run JsonRpcSocket.step w before = some u ∧
        u.requests[sub.request]? = some r ∧ r.settlement = some (.resolved response)

theorem hears_run {as : List ClientAction} (hw : w.Listed) (hs : w.subscriptions[s]? = some sub)
    (hguard : Along JsonRpcSocket.step (fun w a _ => w.Identifies (.socketEventListener s) a) w as)
    (h : run JsonRpcSocket.step w as = some t) : ∃ sub', Hears s w as t sub sub' := by
  induction as generalizing w sub with
  | nil =>
    obtain rfl := Option.some.inj h
    exact ⟨sub, hs, rfl, ⟨[], by simp, fun _ => rfl, List.nil_prefix, fun _ _ => rfl⟩, fun _ h => h,
      fun _ h => Or.inl h⟩
  | cons a as ih =>
    obtain ⟨u, hu, hrest⟩ := Option.bind_eq_some_iff.mp h
    obtain ⟨hfirst, hguard⟩ := hguard u hu
    obtain ⟨sub₁, hstep⟩ := follows_step hw hs hfirst hu
    obtain ⟨sub₂, hrun⟩ := ih (hw.step hu) hstep.here hguard hrest
    refine ⟨sub₂, hrun.here, hrun.request.trans hstep.request, ?_,
      fun o ho => hrun.settled o (hstep.settled o ho), fun response hrefused => ?_⟩
    · obtain ⟨heard, hheard, hdeaf, hleading, hall⟩ := hrun.delivered
      by_cases hmem : .socketEventListener s ∈ w.listeners
      · refine ⟨eventOf s a ++ heard, ?_, fun hnot => absurd hmem hnot, ?_, fun _ hopen => ?_⟩
        · rw [hheard, hstep.delivered, if_pos hmem, List.append_assoc]
        · refine (List.prefix_append_right_inj _).mpr ?_
          cases hends : ends s a with
          | false => simpa using hleading
          | true =>
            rw [hdeaf fun hin => by simp [(hstep.gone hin).2] at hends]
            exact List.nil_prefix
        · rw [events]
          refine congrArg _ ?_
          cases hends : ends s a with
          | true => simpa using hdeaf fun hin => by simp [(hstep.gone hin).2] at hends
          | false =>
            rcases hstep.stays hmem hends with hin | ⟨response, hrefused⟩
            · simpa using hall hin hopen
            · exact absurd (hrun.settled _ hrefused) (hopen response)
      · have hnot : .socketEventListener s ∉ u.listeners := fun hin => hmem (hstep.gone hin).1
        refine ⟨[], ?_, fun _ => rfl, List.nil_prefix, fun hin => absurd hin hmem⟩
        rw [hheard, hdeaf hnot, hstep.delivered, if_neg hmem]
        simp
    · rcases hrun.refused response hrefused with
        hbefore | ⟨herror, before, after, v, r, rfl, hv, hr⟩
      · rcases hstep.refused response hbefore with hbefore | ⟨rfl, herror, r, hr⟩
        · exact Or.inl hbefore
        · exact Or.inr ⟨herror, [], _, w, r, rfl, rfl, hr⟩
      · refine Or.inr ⟨herror, a :: before, after, v, r, rfl, ?_, hstep.request ▸ hr⟩
        rw [run_cons, hu]
        exact hv

/-! ## Where a response comes from -/

variable {request : JsonRpcRequest}

/-- A request is settled by its own response or by its timer. -/
theorem Waits.step_or {i : ℕ} (hw : w.Waits i request) (hlisted : w.Listed)
    (hguard : w.Identifies (.handleResponse i) a) (h : w.step a = some t) :
    t.Waits i request ∨ t.Done i request .timedOut ∨
      ∃ data throws sending frame, a = .message data (.response i) throws sending ∧
        frameOf data = some frame ∧ t.Done i request (.resolved frame) := by
  cases a with
  | request | subscribe | subscribed | close => exact Or.inl (hw.keeps (keeps_step hw.lt rfl h))
  | timeout j =>
    by_cases hj : j = i
    · subst hj
      exact Or.inr (Or.inl (hw.step_timeout h))
    · have hother : concerns i (.timeout j) = false := decide_eq_false hj
      exact Or.inl (hw.keeps (keeps_step hw.lt hother h))
  | message data origin throws sending =>
    have hmem : .handleResponse i ∈ w.listeners :=
      List.count_pos_iff.mp (by rw [hw.2]; exact Nat.one_pos)
    cases stepped_of_step h with
    | unreadable => exact Or.inl hw
    | message _ _ _ _ frame hframe =>
      obtain ⟨hbears, honly⟩ := hguard hmem frame hframe
      have hmatches : w.bears frame (.handleResponse i) =
          (frame.own (js "id")).strictEquals request.id := by
        simp [bears, listenerId, hw.1]
      by_cases horigin : origin.listener = some (.handleResponse i)
      · have hheard := hw.handleResponse (hmatches ▸ hbears.mpr horigin)
        rw [dispatch_eq_hear hlisted hmem (hbears.mpr horigin) (honly horigin)]
        cases origin with
        | event | other => cases horigin
        | response j =>
          obtain rfl := MessageListener.handleResponse.inj (Option.some.inj horigin)
          exact Or.inr (Or.inr ⟨data, throws, sending, frame, rfl, hframe, hheard⟩)
      · have hnot := Bool.eq_false_iff.mpr fun htrue => horigin (hbears.mp htrue)
        exact Or.inl (hw.keeps (keeps_dispatch hw.1 fun _ => hmatches ▸ hnot))

/-- The response that a request is settled with has arrived as its response. -/
theorem Waits.response_of_run {i : ℕ} {as : List ClientAction} {r : ClientRequest} {response : Json}
    (hw : w.Waits i request) (hlisted : w.Listed)
    (hguard : Along JsonRpcSocket.step (fun w a _ => w.Identifies (.handleResponse i) a) w as)
    (h : Transition.run JsonRpcSocket.step w as = some t) (hr : t.requests[i]? = some r)
    (hresponse : r.settlement = some (.resolved response)) :
    ∃ data throws sending, .message data (.response i) throws sending ∈ as ∧
      frameOf data = some response := by
  induction as generalizing w with
  | nil =>
    obtain rfl := Option.some.inj h
    obtain rfl := Option.some.inj (hw.1.symm.trans hr)
    cases hresponse
  | cons a as ih =>
    obtain ⟨u, hu, hrest⟩ := Option.bind_eq_some_iff.mp h
    obtain ⟨hfirst, hguard⟩ := hguard u hu
    have hstays {settlement : RequestSettlement} (hdone : u.Done i request settlement) :
        settlement = .resolved response := by
      obtain ⟨⟨timer, hi⟩, -⟩ := SettledTo.run hdone hrest
      obtain rfl := Option.some.inj (hi.symm.trans hr)
      exact Option.some.inj hresponse
    rcases hw.step_or hlisted hfirst hu with
      hwaits | hdone | ⟨data, throws, sending, frame, rfl, hframe, hdone⟩
    · obtain ⟨data, throws, sending, hmem, hframe⟩ := ih hwaits (hlisted.step hu) hguard hrest
      exact ⟨data, throws, sending, List.mem_cons_of_mem _ hmem, hframe⟩
    · cases hstays hdone
    · obtain rfl := RequestSettlement.resolved.inj (hstays hdone)
      exact ⟨data, throws, sending, List.mem_cons_self, hframe⟩

/-- The listener of a subscription is called with the events of the subscription and with nothing
else, as long as its id and the one of its request identify the frames of the call. -/
theorem subscription_routed {before after : List ClientAction} {uuid : JsString} {sends : Bool}
    (hbefore : run JsonRpcSocket.step new before = some w) (hvalid : subscribeError request = none)
    (hcall : w.step (.subscribe request uuid sends) = some u)
    (hafter : run JsonRpcSocket.step u after = some t)
    (hids : Along JsonRpcSocket.step (fun v a _ =>
      v.Identifies (.socketEventListener w.subscriptions.length) a ∧
        v.Identifies (.handleResponse w.requests.length) a) u after) :
    ∃ sub, t.subscriptions[w.subscriptions.length]? = some sub ∧
      Routed w.subscriptions.length w.requests.length after sub := by
  have hw := listed_of_run hbefore
  simp only [step, hvalid, Option.some.injEq] at hcall
  subst hcall
  have hs : (w.subscribe request uuid sends).subscriptions[w.subscriptions.length]? =
      some ⟨request.subscription.readOptional "id", w.requests.length, [], none⟩ :=
    List.getElem?_concat_length
  have hmem : .socketEventListener w.subscriptions.length ∈
      (w.subscribe request uuid sends).listeners := by
    simp [subscribe, addSubscription, JsonRpcSocket.request]
  have hlisted : (w.subscribe request uuid sends).Listed :=
    (hw.addSubscription _).request request uuid sends
  obtain ⟨sub, hhears⟩ := hears_run hlisted hs (hids.mono fun _ _ _ h => h.1) hafter
  obtain ⟨heard, hdelivered, -, hleading, hall⟩ := hhears.delivered
  rw [List.nil_append] at hdelivered
  refine ⟨sub, hhears.here, hdelivered ▸ hleading, fun hopen => hdelivered.trans (hall hmem hopen),
    fun response hrefused => ?_⟩
  rcases hhears.refused response hrefused with
    hnone | ⟨herror, before', after', v, r, rfl, hv, hr, hresolved⟩
  · cases hnone
  · refine ⟨herror, ?_⟩
    have hfirst : (w.subscribe request uuid sends).requests[w.requests.length]? =
        some ⟨withId request uuid, if sends then none else some .threw, sends⟩ :=
      List.getElem?_concat_length
    have hlistener : .handleResponse w.requests.length ∈
        (w.subscribe request uuid sends).listeners := by
      simp [subscribe, addSubscription, JsonRpcSocket.request]
    have hcount := List.count_eq_one_of_mem hlisted.nodup hlistener
    cases sends with
    | false =>
      have hthrew : SettledTo 1 (w.subscribe request uuid false) w.requests.length
          (withId request uuid) .threw := ⟨⟨false, hfirst⟩, hcount.le⟩
      obtain ⟨⟨timer, hi⟩, -⟩ := hthrew.run hv
      obtain rfl := Option.some.inj (hi.symm.trans hr)
      cases hresolved
    | true =>
      have hwaits : (w.subscribe request uuid true).Waits w.requests.length (withId request uuid) :=
        ⟨hfirst, hcount⟩
      obtain ⟨data, throws, sending, hmem, hframe⟩ :=
        hwaits.response_of_run hlisted (hids.of_append.mono fun _ _ _ h => h.2) hv hr hresolved
      exact ⟨data, throws, sending, List.mem_append_left _ hmem, hframe⟩

/-! ## Two subscribe requests -/

/-- A subscribe request with id 1. -/
def subscribeTo (id : ℤ) : JsonRpcRequest :=
  createJsonRpcSubscriptionRequest (some (.number (.ofInt 1)))
    (js "rpc.subscribe.dwn.processMessage") none (some (.number (.ofInt id)))

def answer (id : ℤ) : Json := .object [(js "id", .number (.ofInt id))]

/-- The request is answered, an event comes, and the subscription is closed. -/
def opened : List ClientAction :=
  [frameWith "1" (.response 0), .subscribed 0, frameWith "7" (.event 0), .close 0 ⟨js "c", true⟩]

/-- Subscription 7 gets its event and nothing else. -/
theorem subscription_routed_opened : ∃ t sub,
    run JsonRpcSocket.step (new.subscribe (subscribeTo 7) [] true) opened = some t ∧
      t.subscriptions[0]? = some sub ∧ sub.delivered = [answer 7] := by
  obtain ⟨t, hrun, houtcome⟩ : ∃ t,
      run JsonRpcSocket.step (new.subscribe (subscribeTo 7) [] true) opened = some t ∧
        t.subscriptions[0]?.map (·.outcome) = some (some (.opened (answer 1))) :=
    exists_of_run (by decide +kernel)
  have hvalid : subscribeError (subscribeTo 7) = none := by decide +kernel
  have hcall : new.step (.subscribe (subscribeTo 7) [] true) =
      some (new.subscribe (subscribeTo 7) [] true) := by
    simp only [step, hvalid]
  have hids : Along JsonRpcSocket.step (fun v a _ =>
      v.Identifies (.socketEventListener new.subscriptions.length) a ∧
        v.Identifies (.handleResponse new.requests.length) a)
      (new.subscribe (subscribeTo 7) [] true) opened := by decide +kernel
  obtain ⟨sub, hsub, hrouted⟩ := subscription_routed (run_nil _ new) hvalid hcall hrun hids
  have hevents : events 0 opened = [answer 7] := by decide +kernel
  refine ⟨t, sub, hrun, hsub, (hrouted.complete fun response hrefused => ?_).trans hevents⟩
  have hsub' : t.subscriptions[0]? = some sub := hsub
  simp [hsub', hrefused] at houtcome

/-- The id of the request is the one of the subscription: its response is handed to the caller. -/
theorem not_subscription_routed : ¬∀ (before after : List ClientAction) (w u t : JsonRpcSocket)
    (request : JsonRpcRequest) (uuid : JsString) (sends : Bool),
    run JsonRpcSocket.step new before = some w → subscribeError request = none →
    w.step (.subscribe request uuid sends) = some u → run JsonRpcSocket.step u after = some t →
    Along JsonRpcSocket.step (fun w a _ => w.Truthful a) u after →
    ∃ sub, t.subscriptions[w.subscriptions.length]? = some sub ∧
      Routed w.subscriptions.length w.requests.length after sub := by
  intro h
  obtain ⟨t, hrun, hdelivered⟩ : ∃ t, run JsonRpcSocket.step (new.subscribe (subscribeTo 1) [] true)
      [frameWith "1" (.response 0)] = some t ∧
        (t.subscriptions[0]?.map (·.delivered.length)) = some 1 :=
    exists_of_run (by decide +kernel)
  obtain ⟨sub, hsub, hrouted⟩ := h [] [frameWith "1" (.response 0)] new _ t (subscribeTo 1) [] true
    rfl (by decide +kernel) rfl hrun (by decide +kernel)
  have hnone : sub.delivered = [] := List.prefix_nil.mp hrouted.inOrder
  have hsub' : t.subscriptions[0]? = some sub := hsub
  simp [hsub', hnone] at hdelivered

end JsonRpcSocket

end DwnServer
