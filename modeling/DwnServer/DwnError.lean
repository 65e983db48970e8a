import DwnServer.Js.Json

/-!
# Errors the server raises itself

`DwnServerErrorCode` and the `message` of a `DwnServerError`, which the constructor
builds as `code: message`. Codes nothing modelled raises are left out.
-/
namespace DwnServer

inductive DwnServerErrorCode where
  | connectionSubscriptionJsonRpcIdExists
  | connectionSubscriptionJsonRpcIdNotFound
  | proofOfWorkInsufficientSolutionNonce
  | proofOfWorkManagerInvalidChallengeNonce
  | proofOfWorkManagerInvalidResponseNonceFormat
  | proofOfWorkManagerResponseNonceReused
  | registrationManagerInvalidOrOutdatedTermsOfServiceHash
  deriving DecidableEq

def DwnServerErrorCode.text : DwnServerErrorCode → JsString
  | .connectionSubscriptionJsonRpcIdExists => js "ConnectionSubscriptionJsonRpcIdExists"
  | .connectionSubscriptionJsonRpcIdNotFound => js "ConnectionSubscriptionJsonRpcIdNotFound"
  | .proofOfWorkInsufficientSolutionNonce => js "ProofOfWorkInsufficientSolutionNonce"
  | .proofOfWorkManagerInvalidChallengeNonce => js "ProofOfWorkManagerInvalidChallengeNonce"
  | .proofOfWorkManagerInvalidResponseNonceFormat =>
    js "ProofOfWorkManagerInvalidResponseNonceFormat"
  | .proofOfWorkManagerResponseNonceReused => js "ProofOfWorkManagerResponseNonceReused"
  | .registrationManagerInvalidOrOutdatedTermsOfServiceHash =>
    js "RegistrationManagerInvalidOrOutdatedTermsOfServiceHash"

abbrev ServerThrown := Thrown DwnServerErrorCode

/-- What an evaluation of source code yields: a value or an exception. -/
abbrev Eval := Except ServerThrown

/-- A sequence of evaluations yields a value if each of them does. -/
theorem Eval.bind_eq_ok {α β : Type} {x : Eval α} {f : α → Eval β} {b : β} :
    x >>= f = .ok b ↔ ∃ a, x = .ok a ∧ f a = .ok b := by
  cases x <;> simp [bind, Except.bind]

/-- A value found by evaluation. -/
theorem Eval.exists_of_any {α : Type} {P : α → Prop} [DecidablePred P] {x : Eval α}
    (h : x.toOption.any (fun a => decide (P a)) = true) : ∃ a, x = .ok a ∧ P a := by
  cases x with
  | error e => cases h
  | ok a => exact ⟨a, rfl, of_decide_eq_true h⟩

/-- `error.message`; `engineText` is the engine's message, should it be the one to throw. -/
def Thrown.message (engineText : JsString) : ServerThrown → JsString
  | .engine => engineText
  | .server code message => code.text ++ js ": " ++ message
  | .foreign message => message

/-- A value that a template literal can format. -/
def JsValue.HasText (v : JsValue) : Prop :=
  ∃ text, v.toText (C := DwnServerErrorCode) = .ok text

end DwnServer
