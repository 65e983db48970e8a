import DwnServer.JsonRpc.Messages
import DwnServer.Library.OrderedMap

/-!
# The state of a `SocketConnection` and its methods

The methods that run without a pause are functions; `closeSubscription`, which waits for
the subscription to close, is the part before the wait (`closeSubscription`) and the part
after it (`deleteSubscription`). A subscription of the DWN is named by the number of the
request that opened it, and a call of its `close` function is reported to the caller.
-/
namespace DwnServer

/-- The keys of a `Map` over parsed JSON. An object or array is only ever equal to itself:
it is the reference that the numbered request parsed. -/
inductive SubscriptionKey where
  | value (v : JsValue)
  | reference (request : ℕ)
  deriving DecidableEq

def SubscriptionKey.ofId (request : ℕ) (id : JsValue) : SubscriptionKey :=
  match id.normalizeZero with
  | some (.array _) | some (.object _) => .reference request
  | v => .value v

/-- A `JsonRpcId` read from a request, with the key it is in a `Map`. -/
structure SubscriptionId where
  value : JsValue
  key : SubscriptionKey
  deriving DecidableEq

def SubscriptionId.of (request : ℕ) (id : JsValue) : SubscriptionId := ⟨id, .ofId request id⟩

/-- The fields of a `SocketConnection`; `heartbeatInterval` is whether the timer runs. -/
structure SocketConnection where
  isAlive : Bool
  heartbeatInterval : Bool
  subscriptions : OrderedMap SubscriptionKey ℕ

namespace SocketConnection

def new : SocketConnection := ⟨true, true, .empty⟩

def hasSubscription (c : SocketConnection) (id : SubscriptionId) : Bool :=
  c.subscriptions.has id.key

def addSubscription (c : SocketConnection) (id : SubscriptionId) (subscription : ℕ) :
    Eval SocketConnection :=
  if c.hasSubscription id then do
    let text ← id.value.toText
    .error (.server .connectionSubscriptionJsonRpcIdExists
      (js "the subscription with id " ++ text ++ js " already exists"))
  else .ok { c with subscriptions := c.subscriptions.set id.key subscription }

/-- The subscription whose `close` function is called. -/
def closeSubscription (c : SocketConnection) (id : SubscriptionId) : Eval ℕ :=
  match c.subscriptions.get? id.key with
  | none => do
    let text ← id.value.toText
    .error (.server .connectionSubscriptionJsonRpcIdNotFound
      (js "the subscription with id " ++ text ++ js " was not found"))
  | some subscription => .ok subscription

def deleteSubscription (c : SocketConnection) (id : SubscriptionId) : SocketConnection :=
  { c with subscriptions := c.subscriptions.delete id.key }

/-- The loop of `close` over the entries: the subscriptions whose `close` function it
calls, and the map with each entry deleted in turn. -/
def closeEntries : List (SubscriptionKey × ℕ) → OrderedMap SubscriptionKey ℕ →
    List ℕ × OrderedMap SubscriptionKey ℕ
  | [], subscriptions => ([], subscriptions)
  | (id, subscription) :: entries, subscriptions =>
    let (closed, subscriptions) := closeEntries entries (subscriptions.delete id)
    (subscription :: closed, subscriptions)

/-- `close` up to `Promise.all`. -/
def close (c : SocketConnection) : List ℕ × SocketConnection :=
  let (closed, subscriptions) := closeEntries c.subscriptions.entries c.subscriptions
  (closed, { c with heartbeatInterval := false, subscriptions })

def pong (c : SocketConnection) : SocketConnection := { c with isAlive := true }

theorem closeEntries_eq (entries : List (SubscriptionKey × ℕ))
    (subscriptions : OrderedMap SubscriptionKey ℕ) :
    closeEntries entries subscriptions = (entries.map Prod.snd,
      subscriptions.filter fun id _ => id ∉ entries.map Prod.fst) := by
  induction entries generalizing subscriptions with
  | nil =>
    refine Prod.ext rfl (OrderedMap.ext ?_)
    simp [closeEntries, OrderedMap.filter]
  | cons entry entries ih =>
    obtain ⟨id, subscription⟩ := entry
    refine Prod.ext (by simp [closeEntries, ih]) (OrderedMap.ext ?_)
    simp only [closeEntries, ih, OrderedMap.delete, OrderedMap.filter, List.filter_filter]
    refine List.filter_congr fun e _ => ?_
    by_cases hid : e.1 = id <;> simp [hid]

/-- `close` calls the `close` function of every entry and leaves no entry. -/
theorem close_eq (c : SocketConnection) :
    c.close = (c.subscriptions.values, { c with
      heartbeatInterval := false, subscriptions := .empty }) := by
  have hempty : (c.subscriptions.filter fun id _ => id ∉ c.subscriptions.entries.map Prod.fst) =
      .empty := by
    refine OrderedMap.ext (List.filter_eq_nil_iff.mpr fun e he => ?_)
    simpa using ⟨_, he⟩
  simp only [close, closeEntries_eq, hempty]
  rfl

theorem closeSubscription_eq_ok {c : SocketConnection} {id : SubscriptionId} {subscription : ℕ} :
    c.closeSubscription id = .ok subscription ↔
      c.subscriptions.get? id.key = some subscription := by
  unfold closeSubscription
  cases h : c.subscriptions.get? id.key with
  | none => cases id.value.toText (C := DwnServerErrorCode) <;> simp [bind, Except.bind]
  | some s => simp

theorem addSubscription_of_absent {c : SocketConnection} {id : SubscriptionId}
    (h : c.hasSubscription id = false) (subscription : ℕ) :
    c.addSubscription id subscription =
      .ok { c with subscriptions := c.subscriptions.set id.key subscription } := by
  simp [addSubscription, h]

theorem addSubscription_of_present {c : SocketConnection} {id : SubscriptionId}
    (h : c.hasSubscription id = true) (subscription : ℕ) :
    ∃ e, c.addSubscription id subscription = .error e := by
  unfold addSubscription
  rw [if_pos h]
  cases id.value.toText (C := DwnServerErrorCode) with
  | error e => exact ⟨e, rfl⟩
  | ok text => exact ⟨_, rfl⟩

end SocketConnection

end DwnServer
