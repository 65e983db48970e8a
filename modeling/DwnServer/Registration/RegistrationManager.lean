import DwnServer.Registration.ProofOfWorkManager
import DwnServer.Registration.RegistrationStore

/-!
# `RegistrationManager`

`handleRegistrationRequest` is cut where it waits for the database: the part before checks
the terms and the proof of work and yields the data to store. `isActiveTenant` is cut there
too, so the terms it compares with are those in force when its query has returned.
-/
namespace DwnServer

structure RegistrationManager where
  proofOfWorkManager : Option ProofOfWorkManager
  registrationStore : Option RegistrationStore
  termsOfServiceHash : Option JsString
  termsOfService : Option JsString
  deriving DecidableEq

structure ActiveTenantCheckResult where
  isActiveTenant : Bool
  detail : Option JsString
  deriving DecidableEq

namespace RegistrationManager

/-- The argument of `create`. -/
structure Input where
  registrationStoreUrl : Option JsString
  termsOfServiceFilePath : Option JsString
  proofOfWorkChallengeNonceSeed : Option JsString
  proofOfWorkInitialMaximumAllowedHash : Option JsString

def updateTermsOfService (sha256 : Sha256) (m : RegistrationManager) (termsOfService : JsString) :
    RegistrationManager :=
  { m with
    termsOfServiceHash := some (ProofOfWork.hashAsHexString sha256 [termsOfService])
    termsOfService := some termsOfService }

/-- `store` is the table that the URL leads to. -/
def create (sha256 : Sha256) (now : ℤ) (random random' : BitVec 256)
    (readFileSync : JsString → Eval JsString) (store : RegistrationStore) (input : Input) :
    Eval RegistrationManager := do
  let m : RegistrationManager := ⟨none, none, none, none⟩
  if input.registrationStoreUrl.getD [] = [] then return m
  let m ← input.termsOfServiceFilePath.elim (.ok m) fun path => do
    let termsOfService ← readFileSync path
    return m.updateTermsOfService sha256 termsOfService
  let proofOfWorkManager ← ProofOfWorkManager.create sha256 now random random' {
    autoStart := true
    desiredSolveCountPerMinute := 10
    initialMaximumAllowedHashValue := input.proofOfWorkInitialMaximumAllowedHash
    challengeSeed := input.proofOfWorkChallengeNonceSeed
    difficultyIncreaseMultiplier := none
    challengeRefreshFrequencyInSeconds := none
    difficultyReevaluationFrequencyInSeconds := none }
  return { m with
    proofOfWorkManager := some proofOfWorkManager
    registrationStore := some store }

/-- A hash, or `undefined`. -/
def hashValue (hash : Option JsString) : JsValue := hash.map .string

/-- A hash as the database returns it: NULL becomes `null`. -/
def storedHashValue (hash : Option JsString) : JsValue := some (hash.elim .null .string)

/-- The manager after the proof of work was accepted, and the data to store. -/
def handleRegistrationRequest (sha256 : Sha256) (m : RegistrationManager) (now : ℤ)
    (registrationRequest : Json) : Eval (RegistrationManager × Json) := do
  let registrationData := registrationRequest.own (js "registrationData")
  let termsOfServiceHash ← registrationData.read "termsOfServiceHash"
  if termsOfServiceHash ≠ hashValue m.termsOfServiceHash then
    let expected ← (hashValue m.termsOfServiceHash).toText
    let actual ← termsOfServiceHash.toText
    throw (.server .registrationManagerInvalidOrOutdatedTermsOfServiceHash
      (js "Expecting terms-of-service hash " ++ expected ++ js ", but got " ++ actual ++ js "."))
  let proofOfWork := registrationRequest.own (js "proofOfWork")
  let challengeNonce ← proofOfWork.read "challengeNonce"
  let responseNonce ← proofOfWork.read "responseNonce"
  match m.proofOfWorkManager, registrationData with
  | some proofOfWorkManager, some registrationData =>
    let proofOfWorkManager ← proofOfWorkManager.verifyProofOfWork sha256 now challengeNonce
      responseNonce registrationData.stringify
    return ({ m with proofOfWorkManager := some proofOfWorkManager }, registrationData)
  | _, _ => throw .engine

/-- The rest of `isActiveTenant`, from the result of the query on. -/
def checkTenant (m : RegistrationManager) (tenantRegistration : Option RegisteredTenant) :
    ActiveTenantCheckResult :=
  match tenantRegistration with
  | none => ⟨false, some (js "Not a registered tenant.")⟩
  | some tenantRegistration =>
    if storedHashValue tenantRegistration.termsOfServiceHash ≠ hashValue m.termsOfServiceHash then
      ⟨false, some (js "Agreed terms-of-service is outdated.")⟩
    else ⟨true, none⟩

/-- An accepted request agrees to the terms in force and brings a proof of work. -/
theorem handleRegistrationRequest_ok {sha256 : Sha256} {m m' : RegistrationManager} {now : ℤ}
    {registrationRequest registrationData : Json}
    (h : m.handleRegistrationRequest sha256 now registrationRequest = .ok (m', registrationData)) :
    let proofOfWork := registrationRequest.own (js "proofOfWork")
    registrationRequest.own (js "registrationData") = some registrationData ∧
      registrationData.own (js "termsOfServiceHash") = hashValue m.termsOfServiceHash ∧
      ∃ p p', m.proofOfWorkManager = some p ∧
        p.verifyProofOfWork sha256 now (proofOfWork.readOptional "challengeNonce")
          (proofOfWork.readOptional "responseNonce") registrationData.stringify = .ok p' ∧
        m' = { m with proofOfWorkManager := some p' } := by
  unfold handleRegistrationRequest at h
  simp only [JsValue.read_eq, bind, Except.bind, throw, throwThe, MonadExceptOf.throw, pure,
    Except.pure] at h
  cases hdata : registrationRequest.own (js "registrationData") with
  | none => simp [hdata, JsValue.isNullish] at h
  | some data =>
    by_cases hnull : JsValue.isNullish (some data) = true
    · simp [hdata, hnull] at h
    have hread : JsValue.readOptional (some data) "termsOfServiceHash" =
      data.own (js "termsOfServiceHash") := rfl
    by_cases hterms : data.own (js "termsOfServiceHash") = hashValue m.termsOfServiceHash
    · simp only [hdata, if_neg hnull, hread, hterms, ne_eq, not_true_eq_false, if_false] at h
      by_cases hproof : (registrationRequest.own (js "proofOfWork")).isNullish = true
      · simp [hproof] at h
      · simp only [if_neg hproof] at h
        cases hmanager : m.proofOfWorkManager with
        | none => simp [hmanager] at h
        | some p =>
          simp only [hmanager] at h
          split at h
          · cases h
          · rename_i p' hverify
            obtain ⟨rfl, rfl⟩ := Prod.mk.inj (Except.ok.inj h)
            exact ⟨rfl, hterms, p, p', rfl, hverify, rfl⟩
    · simp only [hdata, if_neg hnull, hread, ne_eq, hterms, not_false_eq_true, if_true] at h
      cases hexpected : (hashValue m.termsOfServiceHash).toText (C := DwnServerErrorCode) <;>
        cases hactual : (data.own (js "termsOfServiceHash")).toText (C := DwnServerErrorCode) <;>
        simp [hexpected, hactual] at h

/-- Data that agrees to the terms in force is accepted with its proof of work. -/
theorem handleRegistrationRequest_of_verified {sha256 : Sha256} {m : RegistrationManager} {now : ℤ}
    {registrationRequest registrationData : Json} {p p' : ProofOfWorkManager}
    (hdata : registrationRequest.own (js "registrationData") = some registrationData)
    (hnull : JsValue.isNullish (some registrationData) = false)
    (hterms : registrationData.own (js "termsOfServiceHash") = hashValue m.termsOfServiceHash)
    (hmanager : m.proofOfWorkManager = some p)
    (hverify : p.verifyProofOfWork sha256 now
      ((registrationRequest.own (js "proofOfWork")).readOptional "challengeNonce")
      ((registrationRequest.own (js "proofOfWork")).readOptional "responseNonce")
      registrationData.stringify = .ok p') :
    m.handleRegistrationRequest sha256 now registrationRequest =
      .ok ({ m with proofOfWorkManager := some p' }, registrationData) := by
  obtain ⟨c, r, hc, -, -, -, -, -, -⟩ := ProofOfWorkManager.verifyProofOfWork_eq_ok.mp hverify
  have hproof : (registrationRequest.own (js "proofOfWork")).isNullish = false := by
    obtain ⟨proofOfWork, hproofOfWork, hread⟩ := Option.bind_eq_some_iff.mp hc
    rw [hproofOfWork]
    exact JsValue.isNullish_of_own hread
  have hread : JsValue.readOptional (some registrationData) "termsOfServiceHash" =
      hashValue m.termsOfServiceHash := hterms
  simp [handleRegistrationRequest, JsValue.read_eq, hdata, hnull, hread, hproof, hmanager, hverify,
    bind, Except.bind, pure, Except.pure]

/-- A tenant is active if its row has the hash in force, and there is one. -/
theorem checkTenant_iff (m : RegistrationManager) (tenantRegistration : Option RegisteredTenant) :
    (m.checkTenant tenantRegistration).isActiveTenant = true ↔
      ∃ hash, tenantRegistration.map (·.termsOfServiceHash) = some (some hash) ∧
        m.termsOfServiceHash = some hash := by
  rcases tenantRegistration with _ | ⟨did, _ | agreed⟩
  · simp [checkTenant]
  · cases hforce : m.termsOfServiceHash <;> simp [checkTenant, storedHashValue, hashValue, hforce]
  · cases hforce : m.termsOfServiceHash with
    | none => simp [checkTenant, storedHashValue, hashValue, hforce]
    | some hash =>
      by_cases hsame : agreed = hash <;>
        simp [checkTenant, storedHashValue, hashValue, hforce, hsame, Ne.symm]

/-- With a URL for its store, a manager is created with that store. -/
theorem registrationStore_of_create {sha256 : Sha256} {now : ℤ} {random random' : BitVec 256}
    {readFileSync : JsString → Eval JsString} {store : RegistrationStore} {input : Input}
    {m : RegistrationManager}
    (h : create sha256 now random random' readFileSync store input = .ok m)
    (hstore : input.registrationStoreUrl.getD [] ≠ []) : m.registrationStore = some store := by
  unfold create at h
  simp only [if_neg hstore] at h
  obtain ⟨m', -, h⟩ := Eval.bind_eq_ok.mp h
  obtain ⟨p, -, h⟩ := Eval.bind_eq_ok.mp h
  obtain rfl := Except.ok.inj h
  rfl

/-- With a URL for its store, a manager is created with terms in force if a file is given. -/
theorem termsOfServiceHash_of_create {sha256 : Sha256} {now : ℤ} {random random' : BitVec 256}
    {readFileSync : JsString → Eval JsString} {store : RegistrationStore} {input : Input}
    {m : RegistrationManager}
    (h : create sha256 now random random' readFileSync store input = .ok m)
    (hstore : input.registrationStoreUrl.getD [] ≠ []) :
    m.termsOfServiceHash = none ↔ input.termsOfServiceFilePath = none := by
  unfold create at h
  simp only [if_neg hstore] at h
  obtain ⟨m', hterms, h⟩ := Eval.bind_eq_ok.mp h
  obtain ⟨p, -, h⟩ := Eval.bind_eq_ok.mp h
  obtain rfl := Except.ok.inj h
  cases hpath : input.termsOfServiceFilePath with
  | none =>
    rw [hpath] at hterms
    obtain rfl := Except.ok.inj hterms
    simp
  | some path =>
    rw [hpath] at hterms
    obtain ⟨termsOfService, -, hterms⟩ := Eval.bind_eq_ok.mp hterms
    obtain rfl := Except.ok.inj hterms
    simp [updateTermsOfService]

/-! ## The terms in force are the hash of a text -/

theorem isPlainText_hashAsHexString (sha256 : Sha256) (input : List JsString) :
    isPlainText (ProofOfWork.hashAsHexString sha256 input) = true := by
  have hdigit : ∀ n < 16, 0 < (unit (Nat.digitChar n)).toNat ∧
      (unit (Nat.digitChar n)).toNat < 0x80 := by
    decide
  refine List.all_eq_true.mpr fun u hu => ?_
  obtain ⟨digit, -, rfl⟩ := List.mem_map.mp hu
  exact decide_eq_true (hdigit (digit % 16) (Nat.mod_lt _ (by norm_num)))

def HasPlainTerms (m : RegistrationManager) : Prop :=
  ∀ hash, m.termsOfServiceHash = some hash → isPlainText hash = true

theorem hasPlainTerms_of_create {sha256 : Sha256} {now : ℤ} {random random' : BitVec 256}
    {readFileSync : JsString → Eval JsString} {store : RegistrationStore} {input : Input}
    {m : RegistrationManager}
    (h : create sha256 now random random' readFileSync store input = .ok m) : m.HasPlainTerms := by
  intro hash hhash
  unfold create at h
  dsimp only at h
  split_ifs at h
  · obtain rfl := Except.ok.inj h
    cases hhash
  · obtain ⟨m', hterms, h⟩ := Eval.bind_eq_ok.mp h
    obtain ⟨p, -, h⟩ := Eval.bind_eq_ok.mp h
    obtain rfl := Except.ok.inj h
    cases hpath : input.termsOfServiceFilePath with
    | none =>
      rw [hpath] at hterms
      obtain rfl := Except.ok.inj hterms
      cases hhash
    | some path =>
      rw [hpath] at hterms
      obtain ⟨termsOfService, -, hterms⟩ := Eval.bind_eq_ok.mp hterms
      obtain rfl := Except.ok.inj hterms
      obtain rfl := Option.some.inj hhash
      exact isPlainText_hashAsHexString sha256 [termsOfService]

/-- The argument of `ProofOfWorkManager.create`. -/
def Input.proofOfWork (input : Input) : ProofOfWorkManager.Input where
  autoStart := true
  desiredSolveCountPerMinute := 10
  initialMaximumAllowedHashValue := input.proofOfWorkInitialMaximumAllowedHash
  challengeSeed := input.proofOfWorkChallengeNonceSeed
  difficultyIncreaseMultiplier := none
  challengeRefreshFrequencyInSeconds := none
  difficultyReevaluationFrequencyInSeconds := none

theorem create_eq_ok {sha256 : Sha256} {now : ℤ} {random random' : BitVec 256}
    {readFileSync : JsString → Eval JsString} {store : RegistrationStore} {input : Input}
    {p : ProofOfWorkManager} {termsOfService : JsString}
    (hstore : input.registrationStoreUrl.getD [] ≠ [])
    (hread : ∀ path ∈ input.termsOfServiceFilePath, readFileSync path = .ok termsOfService)
    (hp : ProofOfWorkManager.create sha256 now random random' input.proofOfWork = .ok p) :
    create sha256 now random random' readFileSync store input = .ok
      ⟨some p, some store,
        input.termsOfServiceFilePath.map fun _ =>
          ProofOfWork.hashAsHexString sha256 [termsOfService],
        input.termsOfServiceFilePath.map fun _ => termsOfService⟩ := by
  unfold create
  simp only [if_neg hstore]
  cases hpath : input.termsOfServiceFilePath with
  | none =>
    refine Eval.bind_eq_ok.mpr ⟨⟨none, none, none, none⟩, rfl, ?_⟩
    exact Eval.bind_eq_ok.mpr ⟨p, hp, rfl⟩
  | some path =>
    refine Eval.bind_eq_ok.mpr ⟨updateTermsOfService sha256 ⟨none, none, none, none⟩ termsOfService,
      ?_, ?_⟩
    · exact Eval.bind_eq_ok.mpr ⟨termsOfService, hread path hpath, rfl⟩
    · exact Eval.bind_eq_ok.mpr ⟨p, hp, rfl⟩

theorem proofOfWorkManager_of_create {sha256 : Sha256} {now : ℤ} {random random' : BitVec 256}
    {readFileSync : JsString → Eval JsString} {store : RegistrationStore} {input : Input}
    {m : RegistrationManager} {p : ProofOfWorkManager}
    (h : create sha256 now random random' readFileSync store input = .ok m)
    (hp : m.proofOfWorkManager = some p) :
    ProofOfWorkManager.create sha256 now random random' input.proofOfWork = .ok p := by
  unfold create at h
  dsimp only at h
  split_ifs at h
  · obtain rfl := Except.ok.inj h
    cases hp
  · obtain ⟨m', -, h⟩ := Eval.bind_eq_ok.mp h
    obtain ⟨p', hcreate, h⟩ := Eval.bind_eq_ok.mp h
    obtain rfl := Except.ok.inj h
    obtain rfl := Option.some.inj hp
    exact hcreate

end RegistrationManager

end DwnServer
