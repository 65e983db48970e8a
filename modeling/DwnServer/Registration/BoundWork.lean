import DwnServer.Js.Enumeration
import DwnServer.Js.WellFormed
import DwnServer.Registration.Challenge
import DwnServer.Registration.RegistrationManager

/-!
# What the work of a registration is bound to

The challenge nonce, the response nonce and the text of the registration data are hashed one
right after the other. Both nonces have 64 digits, and the text is one of `JSON.stringify`, so
the bytes that are hashed determine all three.
-/
namespace DwnServer

open Transition

/-! ## Challenge nonces -/

namespace ProofOfWorkManager

/-- Every challenge nonce that can be accepted is 64 hexadecimal digits. -/
def Formatted (nonces : ChallengeNonces) : Prop := ∀ c ∈ nonces.acceptable, IsResponseNonce c

theorem formatted_drawn (random : BitVec 256) : Formatted (drawn random) := by
  intro c hc
  obtain ⟨-, hprevious | rfl | hnext⟩ := mem_acceptable.mp hc
  · cases hprevious
  · exact isResponseNonce_generateNonce random
  · cases hnext

/-- A refresh draws or computes a nonce in the format, and keeps others. -/
theorem formatted_refreshed (sha256 : Sha256) (options : ProofOfWorkOptions)
    {nonces : ChallengeNonces} (h : Formatted nonces) (r : Refresh) :
    Formatted (refreshed sha256 options nonces r) := by
  intro c hc
  cases hseed : options.challengeSeed with
  | some seed =>
    obtain ⟨i, -, rfl⟩ := (mem_acceptable_refreshed hseed).mp hc
    exact isResponseNonce_hashAsHexString _ _
  | none =>
    rw [refreshed, hseed] at hc
    obtain ⟨hne, hprevious | rfl | hnext⟩ := mem_acceptable.mp hc
    · exact h c (mem_acceptable.mpr ⟨hne, Or.inr (Or.inl (Option.some.inj hprevious))⟩)
    · exact isResponseNonce_generateNonce r.random
    · exact h c (mem_acceptable.mpr ⟨hne, Or.inr (Or.inr hnext)⟩)

theorem formatted_foldl (sha256 : Sha256) (options : ProofOfWorkOptions) {nonces : ChallengeNonces}
    (h : Formatted nonces) (rs : List Refresh) :
    Formatted (rs.foldl (refreshed sha256 options) nonces) := by
  induction rs generalizing nonces with
  | nil => exact h
  | cons r rs ih => exact ih (formatted_refreshed sha256 options h r)

/-- A state of a manager in some run. -/
def Reached (sha256 : Sha256) (m : ProofOfWorkManager) : Prop :=
  ∃ now random random' input initial as w,
    create sha256 now random random' input = .ok initial ∧
      run (ProofOfWorkRun.step sha256) ⟨initial, now, []⟩ as = some w ∧ w.manager = m

theorem Reached.formatted {sha256 : Sha256} {m : ProofOfWorkManager} (hm : Reached sha256 m) :
    Formatted m.challengeNonces := by
  obtain ⟨now, random, random', input, initial, as, w, hcreate, hrun, rfl⟩ := hm
  rw [(ProofOfWorkRun.challengeNonces_run hrun).2, (challengeNonces_of_create hcreate).2]
  exact formatted_foldl _ _ (formatted_foldl _ _ (formatted_drawn random) _) _

/-! ## The checks before the hash -/

/-- The nonces pass the checks of `verifyProofOfWork` for their format and for the challenge, and
these are their texts. -/
structure PassesChecks (m : ProofOfWorkManager) (challengeNonce responseNonce : JsValue)
    (c r : JsString) : Prop where
  text : responseNonce.toText (C := DwnServerErrorCode) = .ok r
  hex : isHexString r = true
  length : responseNonce.hasLength 64 = true
  challenge : m.acceptedChallenge? challengeNonce = some c

variable {m : ProofOfWorkManager} {challengeNonce responseNonce : JsValue} {c r : JsString}

/-- What passes the checks, and is not a reuse, is hashed. -/
theorem PassesChecks.verifyProofOfWork (h : m.PassesChecks challengeNonce responseNonce c r)
    (hfresh : m.hasProofOfWork responseNonce = false) (sha256 : Sha256) (now : ℤ)
    (requestData : JsString) :
    m.verifyProofOfWork sha256 now challengeNonce responseNonce requestData =
      (ProofOfWork.verifyResponseNonce sha256 m.currentMaximumAllowedHashValueAsBigInt c r
        requestData).map fun _ => m.recordProofOfWork now r := by
  simp only [ProofOfWorkManager.verifyProofOfWork, hfresh, h.text, h.hex, h.length, h.challenge,
    bind, Except.bind, pure, Except.pure]
  cases ProofOfWork.verifyResponseNonce sha256 m.currentMaximumAllowedHashValueAsBigInt c r
    requestData <;> rfl

theorem PassesChecks.format (h : m.PassesChecks challengeNonce responseNonce c r) :
    IsResponseNonce r :=
  ⟨h.hex, (eq_string_of_hasLength h.text h.hex h.length).2⟩

end ProofOfWorkManager

/-! ## Registrations -/

/-- What the work of a registration is computed from. -/
structure Registration where
  challengeNonce : JsString
  responseNonce : JsString
  registrationData : Json

namespace Registration

open ProofOfWorkManager

/-- The bytes that are hashed. -/
def hashed (x : Registration) : List UInt8 :=
  [x.challengeNonce, x.responseNonce, x.registrationData.stringify].flatMap utf8

/-- The number that `verifyProofOfWork` compares is the hash of these bytes. -/
theorem hashValue_eq (sha256 : Sha256) (x : Registration) :
    ProofOfWork.hashValue sha256 x.challengeNonce x.responseNonce x.registrationData.stringify =
      (sha256 x.hashed).toNat :=
  rfl

/-- The text of a request for a DID and terms, whose nonces pass the checks before the hash. -/
structure Requested (m : ProofOfWorkManager) (body : JsString) (x : Registration) : Prop where
  request : ∃ request, Json.parse body = some request ∧
    request.own (js "registrationData") = some x.registrationData ∧
    m.PassesChecks ((request.own (js "proofOfWork")).readOptional "challengeNonce")
      ((request.own (js "proofOfWork")).readOptional "responseNonce") x.challengeNonce
      x.responseNonce
  did : ∃ did, x.registrationData.own (js "did") = some (.string did)
  terms : ∃ hash, x.registrationData.own (js "termsOfServiceHash") = some (.string hash)

/-- The same nonces, and the same DID and terms under the same names in the same order. Data with
no other names is the same. -/
structure SameWork (x y : Registration) : Prop where
  challengeNonce : x.challengeNonce = y.challengeNonce
  responseNonce : x.responseNonce = y.responseNonce
  did : x.registrationData.own (js "did") = y.registrationData.own (js "did")
  terms : x.registrationData.own (js "termsOfServiceHash") =
    y.registrationData.own (js "termsOfServiceHash")
  names : x.registrationData.names = y.registrationData.names
  data : (∀ name ∈ x.registrationData.names, name ∈ [js "did", js "termsOfServiceHash"]) →
    x.registrationData = y.registrationData

variable {m m' : ProofOfWorkManager} {body body' : JsString} {x y : Registration}

theorem Requested.enumerated (h : Requested m body x) : x.registrationData.Enumerated := by
  obtain ⟨request, hparse, hdata, -⟩ := h.request
  exact (Json.enumerated_of_parse hparse).own hdata

/-- In a state that a manager reaches, both nonces have 64 digits. -/
theorem Requested.formatted {sha256 : Sha256} (h : Requested m body x)
    (hm : m.Reached sha256) :
    IsResponseNonce x.challengeNonce ∧ IsResponseNonce x.responseNonce := by
  obtain ⟨_, -, -, hchecks⟩ := h.request
  obtain ⟨-, hacceptable⟩ := acceptedChallenge?_eq_some.mp hchecks.challenge
  exact ⟨hm.formatted _ hacceptable, hchecks.format⟩

theorem Requested.strings (h : Requested m body x) :
    ∀ name ∈ [js "did", js "termsOfServiceHash"],
      ∃ s, x.registrationData.own name = some (.string s) :=
  List.forall_mem_cons.mpr ⟨h.did, List.forall_mem_singleton.mpr h.terms⟩

/-- Data with nothing but a DID and terms is read back from its text. -/
theorem Requested.reparsed (h : Requested m body x)
    (honly : ∀ name ∈ x.registrationData.names, name ∈ [js "did", js "termsOfServiceHash"]) :
    x.registrationData.reparsed = x.registrationData := by
  obtain ⟨did, hdid⟩ := h.did
  exact Json.reparsed_of_strings h.enumerated (List.ne_nil_of_mem (Json.mem_names_of_own hdid))
    fun name hname => h.strings name (honly name hname)

theorem isWellFormed_of_isResponseNonce {text : JsString} (h : IsResponseNonce text) :
    IsWellFormed text := by
  refine isWellFormed_of_forall fun u hu => ?_
  obtain ⟨hhex, -⟩ := h
  simp only [isHexString, ne_eq, Bool.and_eq_true, List.all_eq_true] at hhex
  obtain ⟨d, hd⟩ := Option.isSome_iff_exists.mp (hhex.2 u hu)
  have := hexValue?_eq_some hd
  omega

/-- The bytes are those of one well-formed text. -/
theorem hashed_eq (hc : IsResponseNonce x.challengeNonce) (hr : IsResponseNonce x.responseNonce) :
    x.hashed = utf8 (x.challengeNonce ++ (x.responseNonce ++ x.registrationData.stringify)) ∧
      IsWellFormed (x.challengeNonce ++ (x.responseNonce ++ x.registrationData.stringify)) := by
  have hcformed := isWellFormed_of_isResponseNonce hc
  have hrformed := isWellFormed_of_isResponseNonce hr
  constructor
  · rw [hcformed.utf8_append, hrformed.utf8_append]
    simp [hashed]
  · exact hcformed.append (hrformed.append (Json.isWellFormed_stringify _))

/-- What stands between two nonces of 64 digits and the end is determined by the bytes. -/
theorem hashed_inj (hcx : IsResponseNonce x.challengeNonce) (hcy : IsResponseNonce y.challengeNonce)
    (hrx : IsResponseNonce x.responseNonce) (hry : IsResponseNonce y.responseNonce)
    (h : x.hashed = y.hashed) :
    x.challengeNonce = y.challengeNonce ∧ x.responseNonce = y.responseNonce ∧
      x.registrationData.stringify = y.registrationData.stringify := by
  obtain ⟨hbytes, hformed⟩ := hashed_eq hcx hrx
  obtain ⟨hbytes', hformed'⟩ := hashed_eq hcy hry
  have htext := hformed.utf8_inj hformed' (hbytes.symm.trans (h.trans hbytes'))
  obtain ⟨hc, hrest⟩ := List.append_inj htext (hcx.2.trans hcy.2.symm)
  obtain ⟨hr, hdata⟩ := List.append_inj hrest (hrx.2.trans hry.2.symm)
  exact ⟨hc, hr, hdata⟩

/-- Two requests whose nonces pass the checks, in any states of any two managers, and that are
hashed as the same bytes, ask for the same registration with the same nonces. -/
theorem sameWork_of_hashed {sha256 sha256' : Sha256} (hm : m.Reached sha256)
    (hm' : m'.Reached sha256') (hx : Requested m body x) (hy : Requested m' body' y)
    (h : x.hashed = y.hashed) : SameWork x y := by
  obtain ⟨hcx, hrx⟩ := hx.formatted hm
  obtain ⟨hcy, hry⟩ := hy.formatted hm'
  obtain ⟨hc, hr, htext⟩ := hashed_inj hcx hcy hrx hry h
  have hnames := Json.names_eq_of_stringify_eq hx.enumerated hy.enumerated htext
  have hown : ∀ name ∈ [js "did", js "termsOfServiceHash"],
      x.registrationData.own name = y.registrationData.own name := by
    intro name hname
    exact Json.own_eq_of_stringify_eq hx.enumerated hy.enumerated htext (hx.strings name hname)
      (hy.strings name hname)
  refine ⟨hc, hr, hown _ (by simp), hown _ (by simp), hnames, fun honly => ?_⟩
  calc x.registrationData = x.registrationData.reparsed := (hx.reparsed honly).symm
    _ = y.registrationData.reparsed := Json.reparsed_eq_of_stringify_eq htext
    _ = y.registrationData := hy.reparsed (hnames ▸ honly)

/-! ## One registration at two managers -/

/-- A registration for the challenge of a manager that drew the bytes 1. -/
def small : Registration where
  challengeNonce := ProofOfWork.generateNonce 1
  responseNonce := ProofOfWork.generateNonce 2
  registrationData := .object [(js "did", .string (js "did:a")),
    (js "termsOfServiceHash", .string (js "0f"))]

/-- Its request. -/
def small.request : Json := .object
  [(js "registrationData", small.registrationData), (js "proofOfWork", .object
    [(js "challengeNonce", .string small.challengeNonce),
      (js "responseNonce", .string small.responseNonce)])]

theorem requested_small (hchallenge : small.challengeNonce ∈ m.challengeNonces.acceptable) :
    Requested m small.request.stringify small where
  request := by
    refine ⟨small.request, ?_, rfl, rfl, by decide +kernel, by decide +kernel,
      acceptedChallenge?_string.mpr hchallenge⟩
    rw [Json.parse_stringify]
    decide +kernel
  did := ⟨_, rfl⟩
  terms := ⟨_, rfl⟩

/-- A manager that was just created, and another after a refresh. -/
theorem sameWork_small : SameWork small small := by
  have hm : (construct 255 1 (ProofOfWorkRun.everySeconds 10)).Reached fun _ => 0 :=
    ⟨0, 1, 0, ProofOfWorkRun.everySeconds 10, _, [], _, rfl, rfl, rfl⟩
  have hm' : ((construct 255 1 (ProofOfWorkRun.everySeconds 7)).refreshChallengeNonce
      (fun _ => 0) 0 3).Reached fun _ => 0 :=
    ⟨0, 1, 0, ProofOfWorkRun.everySeconds 7, _, [.refreshChallengeNonce 3], _, rfl, rfl, rfl⟩
  exact sameWork_of_hashed hm hm' (requested_small (by decide +kernel))
    (requested_small (by decide +kernel)) rfl

end Registration

end DwnServer
