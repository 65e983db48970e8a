import DwnServer.DwnError

/-!
# JSON-RPC responses

The two constructors of `lib/json-rpc.ts` that the server's handlers answer with, and
what a JSON-RPC 2.0 response is.
-/
namespace DwnServer

/-- The error codes the server answers with; `MethodNotFound` is declared but never used. -/
inductive JsonRpcErrorCodes where
  | invalidRequest
  | methodNotFound
  | invalidParams
  | internalError
  | badRequest
  deriving DecidableEq

def JsonRpcErrorCodes.value : JsonRpcErrorCodes → ℤ
  | .invalidRequest => -32600
  | .methodNotFound => -32601
  | .invalidParams => -32602
  | .internalError => -32603
  | .badRequest => -50400

/-- The members every response starts with; an `undefined` id is no member of its text. -/
def responseHead (id : JsValue) : List (JsString × Json) :=
  [(js "jsonrpc", .string (js "2.0"))] ++ id.toList.map fun id => (js "id", id)

def createJsonRpcErrorResponse (id : JsValue) (code : JsonRpcErrorCodes) (message : JsString) :
    Json :=
  .object (responseHead id ++ [(js "error", .object
    [(js "code", .number (.ofInt code.value)), (js "message", .string message)])])

def createJsonRpcSuccessResponse (id : JsValue) (result : JsValue) : Json :=
  .object (responseHead id ++
    [(js "result", if result.isNullish then .null else result.getD .null)])

/-- The `error` member of a response has a numeric code and a message. -/
def IsJsonRpcErrorObject (error : Json) : Prop :=
  (∃ n, error.own (js "code") = some (.number n)) ∧
    ∃ text, error.own (js "message") = some (.string text)

/-- A JSON-RPC 2.0 response: it has an id and exactly one of `result` and `error`. -/
structure IsJsonRpcResponse (response : Json) : Prop where
  version : response.own (js "jsonrpc") = some (.string (js "2.0"))
  id : (response.own (js "id")).isSome
  outcome : Xor (response.own (js "result")).isSome (response.own (js "error")).isSome
  error : ∀ error, response.own (js "error") = some error → IsJsonRpcErrorObject error

def IsJsonRpcError (response : Json) : Prop :=
  IsJsonRpcResponse response ∧ (response.own (js "error")).isSome

section

variable (id : JsValue) (code : JsonRpcErrorCodes) (message : JsString) (result : JsValue)

@[simp] theorem own_version_error :
    (createJsonRpcErrorResponse id code message).own (js "jsonrpc") =
      some (.string (js "2.0")) := rfl

@[simp] theorem own_version_success :
    (createJsonRpcSuccessResponse id result).own (js "jsonrpc") = some (.string (js "2.0")) := rfl

@[simp] theorem own_id_error : (createJsonRpcErrorResponse id code message).own (js "id") = id := by
  cases id <;> rfl

@[simp] theorem own_id_success : (createJsonRpcSuccessResponse id result).own (js "id") = id := by
  cases id <;> rfl

@[simp] theorem own_result_error :
    (createJsonRpcErrorResponse id code message).own (js "result") = none := by
  cases id <;> rfl

@[simp] theorem own_result_success :
    ((createJsonRpcSuccessResponse id result).own (js "result")).isSome := by
  cases id <;> rfl

@[simp] theorem own_error_error :
    (createJsonRpcErrorResponse id code message).own (js "error") = some (.object
      [(js "code", .number (.ofInt code.value)), (js "message", .string message)]) := by
  cases id <;> rfl

@[simp] theorem own_error_success :
    (createJsonRpcSuccessResponse id result).own (js "error") = none := by
  cases id <;> rfl

end

theorem serialised_ofInt (n : JsonRpcErrorCodes) :
    (Json.number (.ofInt n.value)).serialised = .number (.ofInt n.value) := by
  cases n <;> decide +kernel

/-- An error response reads as one on the other side. -/
theorem isJsonRpcError_serialised (id : Json) (code : JsonRpcErrorCodes) (message : JsString) :
    IsJsonRpcError (createJsonRpcErrorResponse id code message).serialised where
  left :=
    { version := by simp [Json.serialised]
      id := by simp
      outcome := Or.inr (by simp)
      error := by
        intro error herror
        simp only [Json.own_serialised, own_error_error, Option.map_some, Option.some.injEq]
          at herror
        subst herror
        exact ⟨⟨_, by rw [Json.own_serialised]; exact congrArg some (serialised_ofInt code)⟩,
          message, rfl⟩ }
  right := by simp

theorem isJsonRpcResponse_serialised (id : Json) (result : JsValue) :
    IsJsonRpcResponse (createJsonRpcSuccessResponse id result).serialised where
  version := by simp [Json.serialised]
  id := by simp
  outcome := Or.inl (by simp)
  error := by simp

end DwnServer
