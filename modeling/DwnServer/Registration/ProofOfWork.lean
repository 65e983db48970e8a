import DwnServer.DwnError
import DwnServer.Js.BigInt

/-!
# Proof of work

The hash of a challenge nonce, a response nonce and the request data, and its check against
a maximum. SHA-256 is any function from bytes to 256-bit values.
-/
namespace DwnServer

abbrev Sha256 := List UInt8 → BitVec 256

namespace ProofOfWork

/-- Each item is encoded on its own, as `hash.update` does. -/
def hashAsHexString (sha256 : Sha256) (input : List JsString) : JsString :=
  lowerHex (hexDigits 64 (sha256 (input.flatMap utf8)).toNat)

def computeHash (sha256 : Sha256) (challengeNonce responseNonce requestData : JsString) :
    JsString :=
  hashAsHexString sha256 [challengeNonce, responseNonce, requestData]

def verifyResponseNonce (sha256 : Sha256) (maximumAllowedHashValue : ℤ)
    (challengeNonce responseNonce requestData : JsString) : Eval Unit := do
  let computedHash := computeHash sha256 challengeNonce responseNonce requestData
  let computedHashAsBigInt ← BigInt.ofHex computedHash
  if computedHashAsBigInt > maximumAllowedHashValue then
    throw (.server .proofOfWorkInsufficientSolutionNonce
      (js "Insufficient computed hash " ++ BigInt.toText computedHashAsBigInt ++
        js ", needs to be <= " ++ BigInt.toText maximumAllowedHashValue ++ js "."))

/-- `generateNonce` with the given random bytes. -/
def generateNonce (randomBytes : BitVec 256) : JsString := upperHex (hexDigits 64 randomBytes.toNat)

/-- The rounds of `findQualifiedResponseNonce`, each with the bytes that it draws; `none` if
the last of them has not found a nonce yet. -/
def searchRounds (sha256 : Sha256) (maximumAllowedHashValueAsBigInt : ℤ)
    (challengeNonce requestData : JsString) : List (BitVec 256) → Eval (Option JsString)
  | [] => return none
  | randomBytes :: rounds => do
    let randomNonce := generateNonce randomBytes
    let computedHash := computeHash sha256 challengeNonce randomNonce requestData
    let computedHashAsBigInt ← BigInt.ofHex computedHash
    if computedHashAsBigInt ≤ maximumAllowedHashValueAsBigInt then return some randomNonce
    searchRounds sha256 maximumAllowedHashValueAsBigInt challengeNonce requestData rounds

def findQualifiedResponseNonce (sha256 : Sha256)
    (maximumAllowedHashValue challengeNonce requestData : JsString)
    (rounds : List (BitVec 256)) : Eval (Option JsString) := do
  let maximumAllowedHashValueAsBigInt ← BigInt.ofHex maximumAllowedHashValue
  searchRounds sha256 maximumAllowedHashValueAsBigInt challengeNonce requestData rounds

/-- The hash as a number. -/
def hashValue (sha256 : Sha256) (challengeNonce responseNonce requestData : JsString) : ℕ :=
  (sha256 ([challengeNonce, responseNonce, requestData].flatMap utf8)).toNat

variable (sha256 : Sha256) (challengeNonce responseNonce requestData : JsString)

theorem ofHex_computeHash :
    BigInt.ofHex (C := DwnServerErrorCode)
        (computeHash sha256 challengeNonce responseNonce requestData) =
      .ok (hashValue sha256 challengeNonce responseNonce requestData) := by
  have hdigest := BigInt.ofHex_lowerHex (C := DwnServerErrorCode) (fun _ => lt_of_mem_hexDigits)
    (List.ne_nil_of_length_eq_add_one (length_hexDigits 64
      (hashValue sha256 challengeNonce responseNonce requestData)))
  rw [hexValue_hexDigits, Nat.mod_eq_of_lt (by exact BitVec.isLt _)] at hdigest
  exact hdigest

theorem verifyResponseNonce_eq_ok {maximumAllowedHashValue : ℤ} :
    verifyResponseNonce sha256 maximumAllowedHashValue challengeNonce responseNonce requestData =
        .ok () ↔
      hashValue sha256 challengeNonce responseNonce requestData ≤ maximumAllowedHashValue := by
  simp only [verifyResponseNonce, ofHex_computeHash, bind, Except.bind]
  split_ifs with h
  · exact iff_of_false nofun (not_le.mpr h)
  · exact iff_of_true rfl (not_lt.mp h)

/-- A nonce that the search finds was drawn in some round, and meets the maximum. -/
theorem searchRounds_eq_some {maximum : ℤ} {rounds : List (BitVec 256)} {r : JsString}
    (h : searchRounds sha256 maximum challengeNonce requestData rounds = .ok (some r)) :
    ∃ randomBytes, r = generateNonce randomBytes ∧
      hashValue sha256 challengeNonce r requestData ≤ maximum := by
  induction rounds with
  | nil => cases h
  | cons randomBytes rounds ih =>
    simp only [searchRounds, ofHex_computeHash, bind, Except.bind] at h
    split_ifs at h with hmeets
    · obtain rfl := Option.some.inj (Except.ok.inj h)
      exact ⟨randomBytes, rfl, hmeets⟩
    · exact ih h

theorem generateNonce_injective : Function.Injective generateNonce := upperHex_hexDigits_injective

theorem generateNonce_ne_nil (randomBytes : BitVec 256) : generateNonce randomBytes ≠ [] :=
  List.ne_nil_of_length_eq_add_one (n := 63) (by simp [generateNonce, upperHex])

theorem hashAsHexString_ne_nil (input : List JsString) : hashAsHexString sha256 input ≠ [] :=
  List.ne_nil_of_length_eq_add_one (n := 63) (by simp [hashAsHexString, lowerHex])

end ProofOfWork

end DwnServer
