import DwnServer.Library.Transition
import DwnServer.Registration.ProofOfWorkManager

/-!
# Runs of a `ProofOfWorkManager`

No method of the manager waits in the middle, so each call and each timer's function is one
step, and the clock moves between them. A run remembers which calls of `verifyProofOfWork`
were accepted, and when.
-/
namespace DwnServer

/-- An accepted call of `verifyProofOfWork`. -/
structure Acceptance where
  challengeNonce : JsValue
  responseNonce : JsValue
  requestData : JsString
  time : ℤ
  deriving DecidableEq

structure ProofOfWorkRun where
  manager : ProofOfWorkManager
  now : ℤ
  accepted : List Acceptance
  deriving DecidableEq

inductive ProofOfWorkAction where
  | clock (elapsed : ℕ)
  | verifyProofOfWork (challengeNonce responseNonce : JsValue) (requestData : JsString)
  | recordProofOfWork (proofOfWorkId : JsString)
  | refreshChallengeNonce (random : BitVec 256)
  | refreshMaximumAllowedHashValue

namespace ProofOfWorkRun

def step (sha256 : Sha256) (w : ProofOfWorkRun) : ProofOfWorkAction → Option ProofOfWorkRun
  | .clock elapsed => some { w with now := w.now + elapsed }
  | .verifyProofOfWork challengeNonce responseNonce requestData =>
    match w.manager.verifyProofOfWork sha256 w.now challengeNonce responseNonce requestData with
    | .ok manager => some { w with
        manager
        accepted := w.accepted ++ [⟨challengeNonce, responseNonce, requestData, w.now⟩] }
    | .error _ => some w
  | .recordProofOfWork proofOfWorkId =>
    some { w with manager := w.manager.recordProofOfWork w.now proofOfWorkId }
  | .refreshChallengeNonce random =>
    some { w with manager := w.manager.refreshChallengeNonce sha256 w.now random }
  | .refreshMaximumAllowedHashValue =>
    some { w with manager := (w.manager.refreshMaximumAllowedHashValue w.now).1 }

variable {sha256 : Sha256} {w t : ProofOfWorkRun} {a : ProofOfWorkAction}

/-- A step moves the clock, accepts a proof of work, records one, changes the nonces,
evaluates the difficulty, or leaves everything as it is. -/
theorem step_cases (h : w.step sha256 a = some t) :
    (∃ elapsed : ℕ, t = { w with now := w.now + elapsed }) ∨
    (∃ challengeNonce r requestData,
      a = .verifyProofOfWork challengeNonce (some (.string r)) requestData ∧
      w.manager.proofOfWorkOfLastMinute.get? r = none ∧
      t = ⟨w.manager.recordProofOfWork w.now r, w.now,
        w.accepted ++ [⟨challengeNonce, some (.string r), requestData, w.now⟩]⟩) ∨
    (∃ r, a = .recordProofOfWork r ∧
      t = { w with manager := w.manager.recordProofOfWork w.now r }) ∨
    (∃ nonces, t = { w with manager := { w.manager with challengeNonces := nonces } }) ∨
    (a = .refreshMaximumAllowedHashValue ∧
      t = { w with manager := (w.manager.refreshMaximumAllowedHashValue w.now).1 }) ∨ t = w := by
  cases a with
  | clock elapsed => exact Or.inl ⟨elapsed, (Option.some.inj h).symm⟩
  | verifyProofOfWork challengeNonce responseNonce requestData =>
    simp only [step] at h
    split at h
    · rename_i manager hverify
      obtain ⟨c, r, -, rfl, hfresh, -, -, -, rfl⟩ :=
        ProofOfWorkManager.verifyProofOfWork_eq_ok.mp hverify
      exact Or.inr (Or.inl ⟨_, r, _, rfl, hfresh, (Option.some.inj h).symm⟩)
    · exact Or.inr (Or.inr (Or.inr (Or.inr (Or.inr (Option.some.inj h).symm))))
  | recordProofOfWork r => exact Or.inr (Or.inr (Or.inl ⟨r, rfl, (Option.some.inj h).symm⟩))
  | refreshChallengeNonce random =>
    obtain ⟨nonces, hnonces⟩ := w.manager.refreshChallengeNonce_eq sha256 w.now random
    simp only [step, hnonces] at h
    exact Or.inr (Or.inr (Or.inr (Or.inl ⟨nonces, (Option.some.inj h).symm⟩)))
  | refreshMaximumAllowedHashValue =>
    exact Or.inr (Or.inr (Or.inr (Or.inr (Or.inl ⟨rfl, (Option.some.inj h).symm⟩))))

end ProofOfWorkRun

end DwnServer
