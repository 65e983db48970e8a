import DwnServer.Registration.ChallengeNonces
import DwnServer.Registration.DifficultyStep

/-!
# The challenge and its solution

The client reads the maximum as hexadecimal text, the server compares with a number. They
agree because the maximum stays on its scale, below 2^256, so that 64 digits hold it.
-/
namespace DwnServer

open Transition

namespace ProofOfWorkManager

/-- Exactly 64 hexadecimal digits in upper case. -/
def IsUpperHex64 (text : JsString) : Prop :=
  text.length = 64 ∧ ∀ u ∈ text, u ∈ js "0123456789ABCDEF"

theorem isUpperHex64_upperHex (n : ℕ) : IsUpperHex64 (upperHex (hexDigits 64 n)) := by
  refine ⟨by simp [upperHex], fun u hu => ?_⟩
  obtain ⟨d, hd, rfl⟩ := List.mem_map.mp hu
  have hdigit : ∀ d < 16, upperHexDigit d ∈ js "0123456789ABCDEF" := by decide
  exact hdigit d (lt_of_mem_hexDigits hd)

theorem bigIntToHexString_eq {x : ℤ} (h0 : 0 ≤ x) (h : x < 2 ^ 256) :
    bigIntToHexString x = upperHex (hexDigits 64 x.natAbs) := by
  have hbound : x.natAbs < 16 ^ (63 + 1) := by
    norm_num
    omega
  rw [bigIntToHexString, BigInt.toHexText, if_neg (not_lt.mpr h0), List.nil_append]
  exact BigInt.leftpad_toUpperCase 63 hbound

/-- The text of a maximum reads as that maximum. -/
theorem ofHex_bigIntToHexString {C : Type} {x : ℤ} (h0 : 0 ≤ x) (h : x < 2 ^ 256) :
    BigInt.ofHex (C := C) (bigIntToHexString x) = .ok x := by
  rw [bigIntToHexString_eq h0 h, BigInt.ofHex_of_readHex
    (readHex_upperHex fun _ => lt_of_mem_hexDigits)
    (List.ne_nil_of_length_eq_add_one (length_hexDigits 64 x.natAbs)), hexValue_hexDigits,
    Nat.mod_eq_of_lt (by norm_num; omega)]
  exact congrArg Except.ok (Int.natAbs_of_nonneg h0)

/-- A numeral of at most 64 digits is below 2^256. -/
theorem ofHex_lt {C : Type} {text : JsString} (hdigits : isHexString text = true)
    (hlength : text.length ≤ 64) {x : ℤ} (h : BigInt.ofHex (C := C) text = .ok x) :
    x < 2 ^ 256 := by
  simp only [isHexString, ne_eq, Bool.and_eq_true, decide_eq_true_eq, List.all_eq_true] at hdigits
  obtain ⟨digits, hread⟩ := Option.isSome_iff_exists.mp (isSome_readHex.mpr hdigits.2)
  obtain ⟨hlt, hlen⟩ := lt_and_length_of_readHex hread
  have hne : digits ≠ [] := by
    rintro rfl
    exact hdigits.1 (List.length_eq_zero_iff.mp hlen.symm)
  rw [BigInt.ofHex_of_readHex hread hne] at h
  obtain rfl := Except.ok.inj h
  have hvalue := hexValue_lt hlt
  have hpow : 16 ^ digits.length ≤ 16 ^ 64 := Nat.pow_le_pow_right (by norm_num) (by omega)
  have : hexValue digits < 2 ^ 256 := lt_of_lt_of_le hvalue (hpow.trans_eq (by norm_num))
  exact_mod_cast this

theorem isResponseNonce_of_readHex {text : JsString} {digits : List ℕ}
    (hread : readHex text = some digits) (hlength : text.length = 64) : IsResponseNonce text := by
  have hne : text ≠ [] := List.ne_nil_of_length_eq_add_one hlength
  refine ⟨?_, hlength⟩
  simp only [isHexString, ne_eq, Bool.and_eq_true, decide_eq_true_eq, List.all_eq_true]
  exact ⟨hne, isSome_readHex.mp (by rw [hread, Option.isSome_some])⟩

/-- What `generateNonce` returns has the format that is asked of response nonces. -/
theorem isResponseNonce_generateNonce (randomBytes : BitVec 256) :
    IsResponseNonce (ProofOfWork.generateNonce randomBytes) :=
  isResponseNonce_of_readHex (readHex_upperHex fun _ => lt_of_mem_hexDigits)
    (by simp [ProofOfWork.generateNonce, upperHex])

/-- A hash has it too. -/
theorem isResponseNonce_hashAsHexString (sha256 : Sha256) (input : List JsString) :
    IsResponseNonce (ProofOfWork.hashAsHexString sha256 input) :=
  isResponseNonce_of_readHex (readHex_lowerHex fun _ => lt_of_mem_hexDigits)
    (by simp [ProofOfWork.hashAsHexString, lowerHex])

/-- A refresh leaves a challenge nonce that is not empty. -/
theorem refreshed_ne_nil (sha256 : Sha256) (options : ProofOfWorkOptions)
    (nonces : ChallengeNonces) (r : Refresh) :
    (refreshed sha256 options nonces r).currentChallengeNonce ≠ [] := by
  unfold refreshed
  cases options.challengeSeed with
  | some seed =>
    dsimp only
    exact seededNonce_ne_nil sha256 seed _
  | none =>
    dsimp only
    exact ProofOfWork.generateNonce_ne_nil r.random

theorem foldl_refreshed_ne_nil (sha256 : Sha256) (options : ProofOfWorkOptions)
    {nonces : ChallengeNonces} (h : nonces.currentChallengeNonce ≠ []) (rs : List Refresh) :
    (rs.foldl (refreshed sha256 options) nonces).currentChallengeNonce ≠ [] := by
  induction rs generalizing nonces with
  | nil => exact h
  | cons r rs ih => exact ih (refreshed_ne_nil _ _ _ _)

/-- A solution of the challenge of a state, found by the search, is accepted in that state. -/
theorem verifyProofOfWork_of_found {sha256 : Sha256} {m : ProofOfWorkManager} {now : ℤ}
    (h0 : 0 ≤ m.currentMaximumAllowedHashValueAsBigInt)
    (h : m.currentMaximumAllowedHashValueAsBigInt < 2 ^ 256)
    (hnonce : m.challengeNonces.currentChallengeNonce ≠ []) {requestData r : JsString}
    {rounds : List (BitVec 256)}
    (hfound : ProofOfWork.findQualifiedResponseNonce sha256
      m.getProofOfWorkChallenge.maximumAllowedHashValue m.getProofOfWorkChallenge.challengeNonce
      requestData rounds = .ok (some r))
    (hfresh : m.proofOfWorkOfLastMinute.get? r = none) :
    m.verifyProofOfWork sha256 now (some (.string m.getProofOfWorkChallenge.challengeNonce))
      (some (.string r)) requestData = .ok (m.recordProofOfWork now r) := by
  rw [ProofOfWork.findQualifiedResponseNonce, getProofOfWorkChallenge,
    ofHex_bigIntToHexString h0 h] at hfound
  simp only [bind, Except.bind] at hfound
  obtain ⟨randomBytes, rfl, hmeets⟩ := ProofOfWork.searchRounds_eq_some _ _ _ hfound
  exact verifyProofOfWork_eq_ok.mpr ⟨_, _, rfl, rfl, hfresh,
    isResponseNonce_generateNonce randomBytes, mem_acceptable.mpr ⟨hnonce, Or.inr (Or.inl rfl)⟩,
    hmeets, rfl⟩

end ProofOfWorkManager

namespace ProofOfWorkRun

open ProofOfWorkManager

variable {sha256 : Sha256} {w : ProofOfWorkRun}

theorem currentChallengeNonce_ne_nil {now : ℤ} {random random' : BitVec 256}
    {input : ProofOfWorkManager.Input} {m : ProofOfWorkManager}
    (hcreate : create sha256 now random random' input = .ok m) {as : List ProofOfWorkAction}
    (hrun : run (step sha256) ⟨m, now, []⟩ as = some w) :
    w.manager.challengeNonces.currentChallengeNonce ≠ [] := by
  rw [(challengeNonces_run hrun).2, (challengeNonces_of_create hcreate).2]
  have hdrawn : (drawn random).currentChallengeNonce ≠ [] := by
    rw [drawn]
    exact ProofOfWork.generateNonce_ne_nil random
  exact foldl_refreshed_ne_nil _ _ (foldl_refreshed_ne_nil _ _ hdrawn _) _

/-- In every reachable state the challenge gives the maximum as 64 upper-case digits, and
whatever the search finds for the challenge is accepted unless it is recorded. -/
theorem challenge_solvable {now : ℤ} {random random' : BitVec 256}
    {readFileSync : JsString → Eval JsString} {store : RegistrationStore}
    {input : RegistrationManager.Input} {m : RegistrationManager} {p : ProofOfWorkManager}
    (hcreate : RegistrationManager.create sha256 now random random' readFileSync store input =
      .ok m)
    (hp : m.proofOfWorkManager = some p)
    (hdigits : isHexString (input.proofOfWorkInitialMaximumAllowedHash.getD
      defaultMaximumAllowedHashValue) = true)
    (hlength : (input.proofOfWorkInitialMaximumAllowedHash.getD
      defaultMaximumAllowedHashValue).length ≤ 64)
    (hI : 1 ≤ p.initialMaximumAllowedHashValueAsBigInt) {as : List ProofOfWorkAction}
    (hrun : run (step sha256) ⟨p, now, []⟩ as = some w) :
    let challenge := w.manager.getProofOfWorkChallenge
    IsUpperHex64 challenge.maximumAllowedHashValue ∧
      BigInt.ofHex (C := DwnServerErrorCode) challenge.maximumAllowedHashValue =
        .ok w.manager.currentMaximumAllowedHashValueAsBigInt ∧
      ∀ requestData rounds r,
        ProofOfWork.findQualifiedResponseNonce sha256 challenge.maximumAllowedHashValue
          challenge.challengeNonce requestData rounds = .ok (some r) →
        w.manager.proofOfWorkOfLastMinute.has r = false →
          ∃ accepted, w.manager.verifyProofOfWork sha256 w.now
            (some (.string challenge.challengeNonce)) (some (.string r)) requestData =
              .ok accepted := by
  intro challenge
  have hcreated := RegistrationManager.proofOfWorkManager_of_create hcreate hp
  obtain ⟨ho, hstart, -, -, -⟩ := scaled_of_create hcreate hp hI
  obtain ⟨hlow, hhigh⟩ := (scaled_run ho hstart hrun).maximum_bounds
  have hinitial : p.initialMaximumAllowedHashValueAsBigInt < 2 ^ 256 := by
    obtain ⟨initial, nonces, hofHex, rfl⟩ := create_eq hcreated
      (by rw [desiredSolveCountPerMinute_of_create hcreated]
          norm_num [RegistrationManager.Input.proofOfWork])
    exact ofHex_lt hdigits hlength hofHex
  have h0 : 0 ≤ w.manager.currentMaximumAllowedHashValueAsBigInt := zero_le_one.trans hlow
  have hlt : w.manager.currentMaximumAllowedHashValueAsBigInt < 2 ^ 256 := hhigh.trans_lt hinitial
  refine ⟨?_, ofHex_bigIntToHexString h0 hlt, fun requestData rounds r hfound hfresh =>
    ⟨_, verifyProofOfWork_of_found h0 hlt (currentChallengeNonce_ne_nil hcreated hrun) hfound
      (OrderedMap.has_eq_false.mp hfresh)⟩⟩
  show IsUpperHex64 (bigIntToHexString w.manager.currentMaximumAllowedHashValueAsBigInt)
  rw [bigIntToHexString_eq h0 hlt]
  exact isUpperHex64_upperHex _

/-- A first draw that meets the maximum of 255 is accepted. -/
theorem challenge_solved :
    ∃ m, RegistrationManager.create (fun _ => 0) 0 0 1 (fun _ => .error .engine) .empty
        (smallInput (js "FF")) = .ok m ∧
      ∃ p, m.proofOfWorkManager = some p ∧ ∃ accepted,
        p.verifyProofOfWork (fun _ => 0) 0 (some (.string p.getProofOfWorkChallenge.challengeNonce))
          (some (.string (ProofOfWork.generateNonce 7))) (js "data") = .ok accepted := by
  obtain ⟨m, hm, p, hp, hinitial⟩ := @exists_create_small (js "FF") 255 (by decide +kernel)
  obtain ⟨-, -, hempty, hmaximum, -⟩ := scaled_of_create hm hp (by omega)
  obtain ⟨-, hread, hsolved⟩ := challenge_solvable hm hp (by decide) (by decide) (by omega)
    (run_nil _ _)
  refine ⟨m, hm, p, hp, hsolved (js "data") [7] _ ?_ (by rw [hempty]; rfl)⟩
  rw [ProofOfWork.findQualifiedResponseNonce, hread]
  have hmeets : ((0 : ℕ) : ℤ) ≤ p.currentMaximumAllowedHashValueAsBigInt := by omega
  simp only [ProofOfWork.searchRounds, ProofOfWork.ofHex_computeHash, ProofOfWork.hashValue,
    bind, Except.bind]
  exact if_pos hmeets

end ProofOfWorkRun

end DwnServer
