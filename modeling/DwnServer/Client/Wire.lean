import DwnServer.Client.Subscriptions
import DwnServer.Js.Enumeration
import DwnServer.JsonRpc.Handlers

/-!
# What a request is on the other side

A request is sent as the text of `JSON.stringify`, and its response comes back as one. Both sides
compare ids that were written and read again.
-/
namespace DwnServer

open Json (reparsed)

/-! ## Values that are written and read -/

/-- What comes back for the value equals it. -/
def JsValue.Returns (v : JsValue) : Prop := JsValue.strictEquals (v.map reparsed) v = true

instance (v : JsValue) : Decidable v.Returns := inferInstanceAs (Decidable (_ = _))

namespace JsValue

variable {v w : JsValue}

theorem strictEquals_comm (h : v.strictEquals w = true) : w.strictEquals v = true := by
  rw [strictEquals_iff] at h ⊢
  obtain ⟨hsame, harray, hobject⟩ := h
  rw [← hsame]
  exact ⟨rfl, harray, hobject⟩

theorem Returns.map_map (h : v.Returns) : (v.map reparsed).map reparsed = v.map reparsed := by
  unfold Returns at h
  rcases v with _ | ⟨_ | _ | n | _ | elements | members⟩
  case some.number => cases n <;> rfl
  case some.array => simp [strictEquals, reparsed, normalizeZero] at h
  case some.object =>
    simp [strictEquals, reparsed, Json.ofMembers, normalizeZero] at h
  all_goals rfl

theorem Returns.isNullish (h : v.Returns) :
    JsValue.isNullish (v.map reparsed) = v.isNullish := by
  unfold Returns at h
  rcases v with _ | ⟨_ | _ | n | _ | elements | members⟩
  case some.number =>
    cases n with
    | infinity negative => simp [strictEquals, reparsed, normalizeZero] at h
    | _ => rfl
  all_goals rfl

/-- Two values that come back are equal when what comes back is. -/
theorem strictEquals_of_returns (hv : v.Returns) (hw : w.Returns)
    (h : normalizeZero (v.map reparsed) = normalizeZero (w.map reparsed)) :
    v.strictEquals w = true := by
  refine strictEquals_of_both hv ?_
  rw [Returns, strictEquals_iff] at hw
  rw [strictEquals_iff, h]
  exact hw

theorem truthy_of_reparsed (h : JsValue.truthy (v.map reparsed) = true) : v.truthy = true := by
  rcases v with _ | ⟨_ | _ | n | _ | elements | members⟩
  case some.number =>
    cases n with
    | finite x => exact h
    | negativeZero => exact absurd h (by decide +kernel)
    | infinity negative => rfl
  case some.array | some.object => rfl
  all_goals exact h

theorem readOptional_reparsed (hv : ∀ j ∈ v, j.names.Nodup) (name : String) :
    readOptional (v.map reparsed) name = (v.readOptional name).map reparsed := by
  cases v with
  | none => rfl
  | some j => exact Json.own_reparsed_of_nodup (hv j rfl) (js name)

end JsValue

/-! ## Requests -/

namespace JsonRpcRequest

variable {request : JsonRpcRequest}

/-- The members of a request in the order of the constructors; those that are `undefined` have
no text. -/
def toJson (request : JsonRpcRequest) : Json :=
  .object ((js "jsonrpc", .string (js "2.0")) ::
    ((request.id.toList.map fun id => (js "id", id)) ++ (js "method", .string request.method) ::
      ((request.params.toList.map fun params => (js "params", params)) ++
        request.subscription.toList.map fun subscription => (js "subscription", subscription))))

/-- `JSON.stringify(request)`. -/
def text (request : JsonRpcRequest) : JsString := request.toJson.stringify

theorem names_toJson (request : JsonRpcRequest) : request.toJson.names.Nodup := by
  rcases request with ⟨_ | id, method, _ | params, _ | subscription⟩ <;>
    simp only [toJson, Json.names, Option.toList_none, Option.toList_some, List.map_nil,
      List.map_cons, List.nil_append, List.cons_append] <;> decide

/-- What the server reads. -/
def received (request : JsonRpcRequest) : Json := request.toJson.reparsed

theorem parse_text (request : JsonRpcRequest) : Json.parse request.text = some request.received :=
  Json.parse_stringify _

theorem own_received (request : JsonRpcRequest) (name : JsString) :
    request.received.own name = (request.toJson.own name).map reparsed :=
  Json.own_reparsed_of_nodup request.names_toJson name

@[simp] theorem own_id_received : request.received.own (js "id") = request.id.map reparsed := by
  rw [own_received]
  rcases request with ⟨_ | id, method, _ | params, _ | subscription⟩ <;> rfl

@[simp] theorem own_method_received :
    request.received.own (js "method") = some (.string request.method) := by
  rw [own_received]
  rcases request with ⟨_ | id, method, _ | params, _ | subscription⟩ <;> rfl

@[simp] theorem own_subscription_received :
    request.received.own (js "subscription") = request.subscription.map reparsed := by
  rw [own_received]
  rcases request with ⟨_ | id, method, _ | params, _ | subscription⟩ <;> rfl

@[simp] theorem own_jsonRpcResponse_received :
    request.received.own (js "jsonRpcResponse") = none := by
  rw [own_received]
  rcases request with ⟨_ | id, method, _ | params, _ | subscription⟩ <;> rfl

/-- The server answers with the id of the request. -/
theorem requestId_received (hid : request.id.isNullish = false) (hreturns : request.id.Returns)
    (host : Host) : some (requestId host request.received) = request.id.map reparsed := by
  have hown : request.received.own (js "id") = request.id.map reparsed := own_id_received
  rw [← hreturns.isNullish] at hid
  unfold requestId
  rw [hown]
  split
  · rename_i hnone
    simp [hnone, JsValue.isNullish] at hid
  · rename_i hnull
    simp [hnull, JsValue.isNullish] at hid
  · rename_i id _ hsome
    exact hsome.symm

end JsonRpcRequest

/-! ## Responses -/

theorem names_error (id : JsValue) (code : JsonRpcErrorCodes) (message : JsString) :
    (createJsonRpcErrorResponse id code message).names.Nodup := by
  cases id <;>
    simp only [createJsonRpcErrorResponse, responseHead, Json.names, Option.toList_none,
      Option.toList_some, List.map_nil, List.map_cons, List.nil_append, List.cons_append,
      List.append_nil] <;> decide

theorem names_success (id result : JsValue) :
    (createJsonRpcSuccessResponse id result).names.Nodup := by
  cases id <;>
    simp only [createJsonRpcSuccessResponse, responseHead, Json.names, Option.toList_none,
      Option.toList_some, List.map_nil, List.map_cons, List.nil_append, List.cons_append,
      List.append_nil] <;> decide

/-- What the client reads from the text of an object. -/
theorem frameOf_stringify {members : List (JsString × Json)} :
    JsonRpcSocket.frameOf (Json.object members).stringify =
      some (Json.object members).reparsed := by
  rw [JsonRpcSocket.frameOf, Json.parse_stringify]
  exact Option.filter_some_pos (by simp [reparsed, Json.ofMembers])

end DwnServer
