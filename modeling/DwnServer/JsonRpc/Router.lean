import DwnServer.Js.Prototype
import DwnServer.JsonRpc.Messages
import DwnServer.Library.OrderedMap

/-!
# The JSON-RPC router

`JsonRpcRouter` keeps its handlers in an object literal, so `handle` looks a method up
through the prototype chain. Setting `__proto__` replaces the prototype; any other name
becomes an own property. A handler is represented by a tag; what it does is defined
with the handlers.
-/
namespace DwnServer

/-- What a handler response carries beside the JSON-RPC response. -/
inductive ResponseData where
  | absent
  | stream
  | plain (value : Json)

/-- The two properties the transports read from what `handle` returns. -/
structure HandlerResponse where
  jsonRpcResponse : JsValue
  dataStream : ResponseData

/-- `methodHandlers`; `prototype` is the handler that replaced `Object.prototype`, if any. -/
structure JsonRpcRouter (Handler : Type) where
  methodHandlers : OrderedMap JsString Handler
  prototype : Option Handler

/-- What a property of `methodHandlers` holds. -/
inductive MethodHandler (Handler : Type) where
  | registered (handler : Handler)
  | inherited (name : JsString)
  | notCallable

namespace JsonRpcRouter

variable {Handler : Type}

def new : JsonRpcRouter Handler := ⟨.empty, none⟩

def on (router : JsonRpcRouter Handler) (methodName : JsString) (handler : Handler) :
    JsonRpcRouter Handler :=
  if methodName = protoName then { router with prototype := some handler }
  else { router with methodHandlers := router.methodHandlers.set methodName handler }

/-- `this.methodHandlers[method]`. A prototype that is a handler contributes itself under
`__proto__`, and otherwise functions that throw when they are called with no receiver. -/
def lookup (router : JsonRpcRouter Handler) (method : JsString) : MethodHandler Handler :=
  match router.methodHandlers.get? method, router.prototype with
  | some handler, _ => .registered handler
  | none, some handler => if method = protoName then .registered handler else .notCallable
  | none, none => if method ∈ objectPrototypeFunctions then .inherited method else .notCallable

end JsonRpcRouter

/-- `const { jsonRpcResponse, dataStream } = value`. -/
def HandlerResponse.ofValue (value : Json) : HandlerResponse :=
  ⟨value.own (js "jsonRpcResponse"), (value.own (js "dataStream")).elim .absent .plain⟩

/-- Calling a function of `Object.prototype` on the request, with no receiver: `Object`
returns the request, `toString` a string, and the others cannot convert the receiver. -/
def callInherited (name : JsString) (rpcRequest : Json) : Eval HandlerResponse :=
  if name = js "constructor" then .ok (.ofValue rpcRequest)
  else if name = js "toString" then .ok (.ofValue (.string (js "[object Undefined]")))
  else .error .engine

/-- Only `constructor` returns a value that may have a `jsonRpcResponse`. -/
theorem callInherited_cases (name : JsString) (rpcRequest : Json) :
    name = js "constructor" ∧ callInherited name rpcRequest = .ok (.ofValue rpcRequest) ∨
      name ≠ js "constructor" ∧
        ((∃ response, response.jsonRpcResponse = none ∧
          callInherited name rpcRequest = .ok response) ∨
        ∃ e, callInherited name rpcRequest = .error e) := by
  unfold callInherited
  split_ifs with hconstructor htoString
  · exact Or.inl ⟨hconstructor, rfl⟩
  · exact Or.inr ⟨hconstructor, Or.inl ⟨_, rfl, rfl⟩⟩
  · exact Or.inr ⟨hconstructor, Or.inr ⟨_, rfl⟩⟩

/-- The start of `JsonRpcRouter.handle`: the handler to call, or what an inherited
function returned in place of one. -/
def JsonRpcRouter.route {Handler : Type} (router : JsonRpcRouter Handler) (rpcRequest : Json) :
    Eval (Handler ⊕ HandlerResponse) := do
  let method ← JsValue.read (some rpcRequest) "method"
  match router.lookup (← method.toText) with
  | .registered handler => return .inl handler
  | .inherited name => return .inr (← callInherited name rpcRequest)
  | .notCallable => .error .engine

/-- Only a method with a text is routed. -/
theorem JsonRpcRouter.method_of_route {Handler : Type} {router : JsonRpcRouter Handler}
    {rpcRequest : Json} {called : Handler ⊕ HandlerResponse}
    (h : router.route rpcRequest = .ok called) :
    JsValue.HasText (rpcRequest.own (js "method")) := by
  unfold route at h
  rw [JsValue.read_eq] at h
  split_ifs at h with hnull
  · cases h
  · cases htext : (rpcRequest.own (js "method")).toText (C := DwnServerErrorCode) with
    | ok text => exact ⟨text, htext⟩
    | error e => simp [JsValue.readOptional, htext, bind, Except.bind] at h

inductive Handler where
  | handleDwnProcessMessage
  | handleSubscriptionsClose
  deriving DecidableEq

/-- `json-rpc-api.ts`. -/
def jsonRpcRouter : JsonRpcRouter Handler :=
  ((JsonRpcRouter.new.on (js "dwn.processMessage") .handleDwnProcessMessage).on
    (js "rpc.subscribe.dwn.processMessage") .handleDwnProcessMessage).on
    (js "rpc.subscribe.close") .handleSubscriptionsClose

theorem JsonRpcRouter.get?_on {Handler : Type} (router : JsonRpcRouter Handler)
    {methodName : JsString} (hname : methodName ≠ protoName) (handler : Handler)
    (method : JsString) :
    (router.on methodName handler).methodHandlers.get? method =
      if method = methodName then some handler else router.methodHandlers.get? method := by
  simp [on, hname, OrderedMap.get?_set]

theorem lookup_jsonRpcRouter (method : JsString) :
    jsonRpcRouter.lookup method =
      if method = js "rpc.subscribe.close" then .registered .handleSubscriptionsClose
      else if method = js "rpc.subscribe.dwn.processMessage" ∨ method = js "dwn.processMessage"
        then .registered .handleDwnProcessMessage
      else if method ∈ objectPrototypeFunctions then .inherited method else .notCallable := by
  have hprototype : jsonRpcRouter.prototype = none := rfl
  have hget : jsonRpcRouter.methodHandlers.get? method =
      if method = js "rpc.subscribe.close" then some .handleSubscriptionsClose
      else if method = js "rpc.subscribe.dwn.processMessage" then some .handleDwnProcessMessage
      else if method = js "dwn.processMessage" then some .handleDwnProcessMessage else none := by
    unfold jsonRpcRouter
    rw [JsonRpcRouter.get?_on _ (by decide), JsonRpcRouter.get?_on _ (by decide),
      JsonRpcRouter.get?_on _ (by decide)]
    rfl
  rw [JsonRpcRouter.lookup, hget, hprototype]
  by_cases hclose : method = js "rpc.subscribe.close"
  · simp [hclose]
  by_cases hsubscribe : method = js "rpc.subscribe.dwn.processMessage"
  · simp only [if_neg hclose, if_pos hsubscribe, if_pos (Or.inl hsubscribe)]
  by_cases hprocess : method = js "dwn.processMessage"
  · simp only [if_neg hclose, if_neg hsubscribe, if_pos hprocess, if_pos (Or.inr hprocess)]
  · simp [hclose, hsubscribe, hprocess]

end DwnServer
