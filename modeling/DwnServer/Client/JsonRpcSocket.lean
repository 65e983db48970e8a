import DwnServer.Js.JsonText
import DwnServer.Library.Transition

/-!
# `JsonRpcSocket`

Every call adds a listener to the one socket. A frame is handed to the listeners that are there
when it arrives, those that are removed meanwhile included, and no further when one of them throws.
A promise keeps its first settlement, and timers are never cleared. Frames carry, next to their
text, what they are to the server that sent them, which no code here sees.
-/
namespace DwnServer

structure JsonRpcRequest where
  id : JsValue
  method : JsString
  params : JsValue
  subscription : JsValue
  deriving DecidableEq

def createJsonRpcSubscriptionRequest (id : JsValue) (method : JsString) (params : JsValue)
    (subscriptionId : JsValue) : JsonRpcRequest :=
  ⟨id, method, params, some (.object (subscriptionId.toList.map fun id => (js "id", id)))⟩

inductive RequestSettlement where
  | resolved (response : Json)
  | timedOut
  | threw
  deriving DecidableEq

/-- A call of `request`; `timer` is whether its timer has still to fire. -/
structure ClientRequest where
  request : JsonRpcRequest
  settlement : Option RequestSettlement
  timer : Bool
  deriving DecidableEq

inductive SubscribeOutcome where
  | refused (response : Json)
  | opened (response : Json)
  | rejected
  deriving DecidableEq

/-- A call of `subscribe`, with the number of its request and what its listener was called with. -/
structure ClientSubscription where
  id : JsValue
  request : ℕ
  delivered : List Json
  outcome : Option SubscribeOutcome
  deriving DecidableEq

inductive MessageListener where
  | handleResponse (request : ℕ)
  | socketEventListener (subscription : ℕ)
  deriving DecidableEq

structure JsonRpcSocket where
  listeners : List MessageListener
  requests : List ClientRequest
  subscriptions : List ClientSubscription
  deriving DecidableEq

/-- The request that a frame answers, or the call of `subscribe` whose subscription it is an event
of. -/
inductive Origin where
  | response (request : ℕ)
  | event (subscription : ℕ)
  | other
  deriving DecidableEq

/-- The id that `uuidv4` gives a request, and whether the socket takes it. -/
structure Sending where
  uuid : JsString
  sends : Bool

/-- `sends` is whether the socket takes the request. When a frame arrives, `throws` says which
listeners of the caller throw, and `sending` is about the close requests. -/
inductive ClientAction where
  | request (request : JsonRpcRequest) (uuid : JsString) (sends : Bool)
  | subscribe (request : JsonRpcRequest) (uuid : JsString) (sends : Bool)
  | subscribed (subscription : ℕ)
  | close (subscription : ℕ) (sending : Sending)
  | message (data : JsString) (origin : Origin) (throws : ℕ → Bool) (sending : ℕ → Sending)
  | timeout (request : ℕ)

namespace JsonRpcSocket

def new : JsonRpcSocket := ⟨[], [], []⟩

def removeEventListener (w : JsonRpcSocket) (listener : MessageListener) : JsonRpcSocket :=
  { w with listeners := w.listeners.erase listener }

/-! ## `request` -/

def settle (w : JsonRpcSocket) (i : ℕ) (settlement : RequestSettlement) : JsonRpcSocket :=
  { w with requests := w.requests.modify i fun r =>
    { r with settlement := some (r.settlement.getD settlement) } }

/-- `request.id ??= uuidv4()`. -/
def withId (request : JsonRpcRequest) (uuid : JsString) : JsonRpcRequest :=
  { request with id := if request.id.isNullish then some (.string uuid) else request.id }

def request (w : JsonRpcSocket) (request : JsonRpcRequest) (uuid : JsString) (sends : Bool) :
    JsonRpcSocket :=
  { w with
    listeners := w.listeners ++ [.handleResponse w.requests.length]
    requests := w.requests ++
      [⟨withId request uuid, if sends then none else some .threw, sends⟩] }

def handleResponse (w : JsonRpcSocket) (i : ℕ) (frame : Json) : JsonRpcSocket :=
  match w.requests[i]? with
  | some r =>
    if (frame.own (js "id")).strictEquals r.request.id then
      (w.removeEventListener (.handleResponse i)).settle i (.resolved frame)
    else w
  | none => w

/-- The listener of a request leaves the socket alone, or settles the request and is removed. -/
theorem handleResponse_cases (w : JsonRpcSocket) (i : ℕ) (frame : Json) :
    w.handleResponse i frame = w ∨ w.handleResponse i frame =
      (w.removeEventListener (.handleResponse i)).settle i (.resolved frame) := by
  unfold handleResponse
  split
  · split_ifs
    · exact Or.inr rfl
    · exact Or.inl rfl
  · exact Or.inl rfl

def stopTimer (w : JsonRpcSocket) (i : ℕ) : JsonRpcSocket :=
  { w with requests := w.requests.modify i fun r => { r with timer := false } }

/-- The timer of a request fires. -/
def timeout (w : JsonRpcSocket) (i : ℕ) : JsonRpcSocket :=
  ((w.removeEventListener (.handleResponse i)).settle i .timedOut).stopTimer i

/-! ## `subscribe` -/

/-- Why `subscribe` throws before it does anything. -/
def subscribeError (request : JsonRpcRequest) : Option JsString :=
  if !(js "rpc.subscribe.").isPrefixOf request.method then
    some (js "subscribe rpc requests must include the `rpc.subscribe` prefix")
  else if !request.subscription.truthy then
    some (js "subscribe rpc requests must include subscribe options")
  else none

/-- The listener is there before the request is sent, which is the next one. -/
def addSubscription (w : JsonRpcSocket) (id : JsValue) : JsonRpcSocket :=
  { w with
    listeners := w.listeners ++ [.socketEventListener w.subscriptions.length]
    subscriptions := w.subscriptions ++ [⟨id, w.requests.length, [], none⟩] }

/-- Up to the wait for the response. -/
def subscribe (w : JsonRpcSocket) (request : JsonRpcRequest) (uuid : JsString) (sends : Bool) :
    JsonRpcSocket :=
  (w.addSubscription (request.subscription.readOptional "id")).request request uuid sends

def closeSubscription (w : JsonRpcSocket) (id : JsValue) (sending : Sending) : JsonRpcSocket :=
  w.request (createJsonRpcSubscriptionRequest (some (.string sending.uuid))
    (js "rpc.subscribe.close") (some (.object [])) id) sending.uuid sending.sends

def setOutcome (w : JsonRpcSocket) (s : ℕ) (outcome : SubscribeOutcome) : JsonRpcSocket :=
  { w with
    subscriptions := w.subscriptions.modify s fun sub => { sub with outcome := some outcome } }

/-- After the wait for the response. -/
def subscribed (w : JsonRpcSocket) (s : ℕ) : RequestSettlement → JsonRpcSocket
  | .resolved response =>
    if (response.own (js "error")).truthy then
      (w.removeEventListener (.socketEventListener s)).setOutcome s (.refused response)
    else w.setOutcome s (.opened response)
  | .timedOut | .threw => w.setOutcome s .rejected

/-- A call of `subscribe` ends with an outcome, and its listener stays or is removed. -/
theorem subscribed_cases (w : JsonRpcSocket) (s : ℕ) (settlement : RequestSettlement) :
    ∃ outcome, w.subscribed s settlement = w.setOutcome s outcome ∨ w.subscribed s settlement =
      (w.removeEventListener (.socketEventListener s)).setOutcome s outcome := by
  cases settlement with
  | resolved response =>
    rw [subscribed]
    split_ifs
    · exact ⟨_, Or.inr rfl⟩
    · exact ⟨_, Or.inl rfl⟩
  | timedOut | threw => exact ⟨_, Or.inl rfl⟩

/-- The function that `subscribe` returns. -/
def close (w : JsonRpcSocket) (s : ℕ) (id : JsValue) (sending : Sending) : JsonRpcSocket :=
  (w.removeEventListener (.socketEventListener s)).closeSubscription id sending

def deliver (w : JsonRpcSocket) (s : ℕ) (frame : Json) : JsonRpcSocket :=
  { w with subscriptions := w.subscriptions.modify s fun sub =>
    { sub with delivered := sub.delivered ++ [frame] } }

/-- A frame whose id is the one of the subscription, up to the call of the caller's listener. -/
def socketEventListener (w : JsonRpcSocket) (s : ℕ) (id : JsValue) (frame : Json)
    (sending : Sending) : JsonRpcSocket :=
  let w := if (frame.own (js "error")).isSome then
      (w.removeEventListener (.socketEventListener s)).closeSubscription id sending
    else w
  w.deliver s frame

/-! ## Steps -/

/-- The frame is handed to one listener after the other. -/
def dispatch (frame : Json) (throws : ℕ → Bool) (sending : ℕ → Sending) :
    List MessageListener → JsonRpcSocket → JsonRpcSocket
  | [], w => w
  | .handleResponse i :: rest, w => dispatch frame throws sending rest (w.handleResponse i frame)
  | .socketEventListener s :: rest, w =>
    match w.subscriptions[s]? with
    | some sub =>
      if (frame.own (js "id")).strictEquals sub.id then
        let w := w.socketEventListener s sub.id frame (sending s)
        if throws s then w else dispatch frame throws sending rest w
      else dispatch frame throws sending rest w
    | none => dispatch frame throws sending rest w

/-- What each listener keeps. -/
theorem dispatch_invariant {P : JsonRpcSocket → Prop} {frame : Json} {throws : ℕ → Bool}
    {sending : ℕ → Sending} {listeners : List MessageListener}
    (hresponse : ∀ w i, .handleResponse i ∈ listeners → P w → P (w.handleResponse i frame))
    (hevent : ∀ w s id sending, P w → P (w.socketEventListener s id frame sending))
    {w : JsonRpcSocket} (hw : P w) : P (dispatch frame throws sending listeners w) := by
  induction listeners generalizing w with
  | nil => exact hw
  | cons listener rest ih =>
    have ih' {u : JsonRpcSocket} (hu : P u) : P (dispatch frame throws sending rest u) :=
      ih (fun w i hi => hresponse w i (List.mem_cons_of_mem _ hi)) hu
    cases listener with
    | handleResponse i => exact ih' (hresponse w i List.mem_cons_self hw)
    | socketEventListener s =>
      rw [dispatch]
      split
      · split_ifs
        · exact hevent w s _ _ hw
        · exact ih' (hevent w s _ _ hw)
        · exact ih' hw
      · exact ih' hw

/-- What a listener can read from the text of a frame; it throws when there is nothing. -/
def frameOf (data : JsString) : Option Json := (Json.parse data).filter (· ≠ .null)

def step (w : JsonRpcSocket) : ClientAction → Option JsonRpcSocket
  | .request request uuid sends => some (w.request request uuid sends)
  | .subscribe request uuid sends =>
    match subscribeError request with
    | some _ => some w
    | none => some (w.subscribe request uuid sends)
  | .subscribed s =>
    match w.subscriptions[s]? with
    | some ⟨_, i, _, none⟩ =>
      (w.requests[i]?.bind (·.settlement)).map fun settlement => w.subscribed s settlement
    | _ => none
  | .close s sending =>
    match w.subscriptions[s]? with
    | some ⟨id, _, _, some (.opened _)⟩ => some (w.close s id sending)
    | _ => none
  | .message data _ throws sending =>
    match frameOf data with
    | some frame => some (dispatch frame throws sending w.listeners w)
    | none => some w
  | .timeout i =>
    match w.requests[i]? with
    | some ⟨_, _, true⟩ => some (w.timeout i)
    | _ => none

/-- What the steps of a socket do, and when. -/
inductive Stepped (w : JsonRpcSocket) : ClientAction → JsonRpcSocket → Prop where
  | request (request : JsonRpcRequest) (uuid : JsString) (sends : Bool) :
      w.Stepped (.request request uuid sends) (w.request request uuid sends)
  | invalid (request : JsonRpcRequest) (uuid : JsString) (sends : Bool)
      (hinvalid : subscribeError request ≠ none) : w.Stepped (.subscribe request uuid sends) w
  | subscribe (request : JsonRpcRequest) (uuid : JsString) (sends : Bool)
      (hvalid : subscribeError request = none) :
      w.Stepped (.subscribe request uuid sends) (w.subscribe request uuid sends)
  | subscribed (s : ℕ) (sub : ClientSubscription) (r : ClientRequest)
      (settlement : RequestSettlement) (hsub : w.subscriptions[s]? = some sub)
      (houtcome : sub.outcome = none) (hr : w.requests[sub.request]? = some r)
      (hsettled : r.settlement = some settlement) :
      w.Stepped (.subscribed s) (w.subscribed s settlement)
  | close (s : ℕ) (sending : Sending) (sub : ClientSubscription) (response : Json)
      (hsub : w.subscriptions[s]? = some sub) (hopened : sub.outcome = some (.opened response)) :
      w.Stepped (.close s sending) (w.close s sub.id sending)
  | unreadable (data : JsString) (origin : Origin) (throws : ℕ → Bool) (sending : ℕ → Sending)
      (hframe : frameOf data = none) : w.Stepped (.message data origin throws sending) w
  | message (data : JsString) (origin : Origin) (throws : ℕ → Bool) (sending : ℕ → Sending)
      (frame : Json) (hframe : frameOf data = some frame) :
      w.Stepped (.message data origin throws sending) (dispatch frame throws sending w.listeners w)
  | timeout (i : ℕ) (r : ClientRequest) (hr : w.requests[i]? = some r) :
      w.Stepped (.timeout i) (w.timeout i)

theorem stepped_of_step {w t : JsonRpcSocket} {a : ClientAction} (h : w.step a = some t) :
    w.Stepped a t := by
  cases a with
  | request request uuid sends => exact Option.some.inj h ▸ .request request uuid sends
  | subscribe request uuid sends =>
    simp only [step] at h
    split at h
    · rename_i hinvalid
      exact Option.some.inj h ▸ .invalid request uuid sends (by simp [hinvalid])
    · rename_i hvalid
      exact Option.some.inj h ▸ .subscribe request uuid sends hvalid
  | subscribed s =>
    simp only [step] at h
    split at h
    · rename_i hsub
      obtain ⟨settlement, hsettlement, rfl⟩ := Option.map_eq_some_iff.mp h
      obtain ⟨r, hr, hsettled⟩ := Option.bind_eq_some_iff.mp hsettlement
      exact .subscribed s _ r settlement hsub rfl hr hsettled
    · cases h
  | close s sending =>
    simp only [step] at h
    split at h
    · rename_i hsub
      exact Option.some.inj h ▸ .close s sending _ _ hsub rfl
    · cases h
  | message data origin throws sending =>
    simp only [step] at h
    split at h
    · rename_i frame hframe
      exact Option.some.inj h ▸ .message data origin throws sending frame hframe
    · rename_i hframe
      exact Option.some.inj h ▸ .unreadable data origin throws sending hframe
  | timeout i =>
    simp only [step] at h
    split at h
    · rename_i hr
      exact Option.some.inj h ▸ .timeout i _ hr
    · cases h

end JsonRpcSocket

end DwnServer
