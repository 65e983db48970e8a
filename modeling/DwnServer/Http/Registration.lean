import DwnServer.Registration.ChallengeNonces
import DwnServer.Registration.RegistrationRun

/-!
# Registration requirements

`GET /info` lists the requirements of the configuration that the module imports, the one of
the process. The routes under `/registration` are set up from the configuration that the
server was created with, and `POST /registration` asks for a proof of work and compares the
terms whatever either of them says.
-/
namespace DwnServer

open Transition

/-- What `/info` and the registration use of a configuration. -/
structure DwnServerConfig where
  serverName : JsString
  baseUrl : JsString
  maxRecordDataSize : Option ℤ
  webSocketSupport : Bool
  registrationStoreUrl : Option JsString
  registrationProofOfWorkSeed : Option JsString
  registrationProofOfWorkEnabled : Bool
  registrationProofOfWorkInitialMaxHash : Option JsString
  termsOfServiceFilePath : Option JsString

/-- The argument that `DwnServer` creates its `RegistrationManager` with. -/
def DwnServerConfig.registrationInput (config : DwnServerConfig) : RegistrationManager.Input where
  registrationStoreUrl := config.registrationStoreUrl
  termsOfServiceFilePath := config.termsOfServiceFilePath
  proofOfWorkChallengeNonceSeed := config.registrationProofOfWorkSeed
  proofOfWorkInitialMaximumAllowedHash := config.registrationProofOfWorkInitialMaxHash

structure PackageInfo where
  version : JsValue
  sdkVersion : JsValue
  server : JsString

inductive RegistrationRequirement where
  | proofOfWork
  | termsOfService
  deriving DecidableEq

def RegistrationRequirement.text : RegistrationRequirement → JsString
  | .proofOfWork => js "proof-of-work-sha256-v0"
  | .termsOfService => js "terms-of-service"

structure ServerInfo where
  url : JsString
  server : JsString
  maxFileSize : Option ℤ
  registrationRequirements : List JsString
  version : JsValue
  sdkVersion : JsValue
  webSocketSupport : Bool

inductive RegistrationRoute where
  | getProofOfWork
  | getTermsOfService
  | postRegistration
  deriving DecidableEq

namespace HttpApi

def registrationRequirements (config : DwnServerConfig) : List RegistrationRequirement :=
  (if config.registrationProofOfWorkEnabled then [.proofOfWork] else []) ++
    if config.termsOfServiceFilePath ≠ none then [.termsOfService] else []

/-- `GET /info`, with the configuration of the process. -/
def info (config : DwnServerConfig) (packageInfo : PackageInfo) : ServerInfo where
  url := config.baseUrl
  server := packageInfo.server
  maxFileSize := config.maxRecordDataSize
  registrationRequirements := (registrationRequirements config).map (·.text)
  version := packageInfo.version
  sdkVersion := packageInfo.sdkVersion
  webSocketSupport := config.webSocketSupport

/-- `#setupRegistrationRoutes`, with the configuration of the server. -/
def registrationRoutes (config : DwnServerConfig) : List RegistrationRoute :=
  (if config.registrationProofOfWorkEnabled then [.getProofOfWork] else []) ++
    (if config.termsOfServiceFilePath ≠ none then [.getTermsOfService] else []) ++
    if config.registrationStoreUrl ≠ none then [.postRegistration] else []

/-- The status of the answer to a registration. `hasCode` says whether an exception that is
not the server's own has a `code`. -/
def registrationStatus (hasCode : Bool) : RegistrationCall → Option ℕ
  | .registered => some 200
  | .rejected (.server _ _) => some 400
  | .rejected .engine | .rejected (.foreign _) => some (if hasCode then 400 else 500)
  | _ => none

variable (sha256 : Sha256) (dialect : UpsertDialect)

/-- A registration whose statement, if it comes to one, is executed. -/
def registered (w : RegistrationRun) (body : Json) : Option RegistrationRun :=
  (w.step sha256 dialect (.handleRegistrationRequest body)).map fun t =>
    (t.step sha256 dialect (.storeSettles w.calls.length (.ok ()))).getD t

/-- The status of `POST /registration`. -/
def postRegistration (hasCode : Bool) (config : DwnServerConfig) (w : RegistrationRun)
    (body : Json) : Option ℕ :=
  if .postRegistration ∈ registrationRoutes config then
    (registered sha256 dialect w body).bind fun t =>
      t.calls[w.calls.length]?.bind (registrationStatus hasCode)
  else some 404

/-- A state that a server with this configuration can reach. -/
def Reached (config : DwnServerConfig) (w : RegistrationRun) : Prop :=
  ∃ now random random' readFileSync earlier m as,
    RegistrationManager.create sha256 now random random' readFileSync
      (RegistrationStore.ofStored earlier) config.registrationInput = .ok m ∧
    run (RegistrationRun.step sha256 dialect) ⟨m, now, [], earlier⟩ as = some w

/-! ## What a request brings -/

/-- The request has registration data with a DID. -/
def HasDid (body : Json) : Prop :=
  ∃ registrationData did, body.own (js "registrationData") = some registrationData ∧
    registrationData.own (js "did") = some (.string did)

/-- The database takes the registration data. -/
def Storable (body : Json) : Prop :=
  ∃ registrationData, body.own (js "registrationData") = some registrationData ∧
    dialect registrationData ≠ none

/-- A fresh and sufficient proof of work for an accepted challenge. -/
def BringsProofOfWork (m : RegistrationManager) (body : Json) : Prop :=
  let proofOfWork := body.own (js "proofOfWork")
  ∃ p c r registrationData, m.proofOfWorkManager = some p ∧
    body.own (js "registrationData") = some registrationData ∧
    proofOfWork.readOptional "challengeNonce" = some (.string c) ∧
    proofOfWork.readOptional "responseNonce" = some (.string r) ∧
    p.proofOfWorkOfLastMinute.get? r = none ∧ ProofOfWorkManager.IsResponseNonce r ∧
    c ∈ p.challengeNonces.acceptable ∧
    ProofOfWork.hashValue sha256 c r registrationData.stringify ≤
      p.currentMaximumAllowedHashValueAsBigInt

/-- The hash of the terms in force. -/
def AgreesToTerms (m : RegistrationManager) (body : Json) : Prop :=
  ∃ hash, m.termsOfServiceHash = some hash ∧
    (body.own (js "registrationData")).readOptional "termsOfServiceHash" = some (.string hash)

def MeetsRequirement (m : RegistrationManager) (body : Json) : RegistrationRequirement → Prop
  | .proofOfWork => BringsProofOfWork sha256 m body
  | .termsOfService => AgreesToTerms m body

/-- The request meets every requirement that `/info` lists. -/
def MeetsListed (serverInfo : ServerInfo) (m : RegistrationManager) (body : Json) : Prop :=
  ∀ requirement : RegistrationRequirement,
    requirement.text ∈ serverInfo.registrationRequirements →
      MeetsRequirement sha256 m body requirement

variable {sha256 dialect} {config : DwnServerConfig} {w t : RegistrationRun} {body : Json}
  {a : RegistrationAction} {hasCode : Bool}

/-! ## What is accepted -/

theorem getElem?_begin (call : RegistrationCall) :
    (w.begin call).calls[w.calls.length]? = some call :=
  List.getElem?_concat_length

theorem getElem?_setCall_begin (call call' : RegistrationCall) :
    ((w.begin call).setCall w.calls.length call').calls[w.calls.length]? = some call' := by
  simp [RegistrationRun.begin, RegistrationRun.setCall]

/-- A request is accepted if it passes the checks and the table takes its data. -/
theorem postRegistration_eq_ok (hroute : .postRegistration ∈ registrationRoutes config) :
    postRegistration sha256 dialect hasCode config w body = some 200 ↔
      ∃ m' registrationData,
        w.manager.handleRegistrationRequest sha256 w.now body = .ok (m', registrationData) ∧
          m'.registrationStore ≠ none ∧ dialect registrationData ≠ none := by
  rw [postRegistration, if_pos hroute]
  cases hhandle : w.manager.handleRegistrationRequest sha256 w.now body with
  | error error =>
    have hregistered : registered sha256 dialect w body = some (w.begin (.rejected error)) := by
      simp [registered, RegistrationRun.step, hhandle, getElem?_begin]
    rw [hregistered]
    cases error <;> cases hasCode <;> simp [getElem?_begin, registrationStatus]
  | ok result =>
    obtain ⟨m', registrationData⟩ := result
    let waiting := RegistrationRun.begin { w with manager := m' } (.storing registrationData)
    have hcall : waiting.calls[w.calls.length]? = some (.storing registrationData) :=
      @getElem?_begin { w with manager := m' } _
    have hsettled : ∀ call,
        (waiting.setCall w.calls.length call).calls[w.calls.length]? = some call :=
      @getElem?_setCall_begin { w with manager := m' } _
    cases hstore : m'.registrationStore with
    | none =>
      have hregistered : registered sha256 dialect w body =
          some (waiting.setCall w.calls.length (.rejected .engine)) := by
        have hmanager : waiting.manager.registrationStore = none := hstore
        simp [registered, RegistrationRun.step, hhandle, hcall, hmanager, waiting]
      rw [hregistered]
      cases hasCode <;> simp [hsettled, registrationStatus, hstore]
    | some store =>
      have hregistered : registered sha256 dialect w body =
          some (waiting.store dialect w.calls.length registrationData store) := by
        have hmanager : waiting.manager.registrationStore = some store := hstore
        simp [registered, RegistrationRun.step, hhandle, hcall, hmanager, waiting]
      rw [hregistered]
      unfold RegistrationRun.store
      cases hrows : dialect registrationData with
      | none => cases hasCode <;> simp [hsettled, registrationStatus, hrows]
      | some tenants => simp [hsettled, registrationStatus, hstore, hrows]

/-- The checks are a proof of work and the terms in force, whatever the configuration. -/
theorem accepted_iff (hroute : .postRegistration ∈ registrationRoutes config)
    (hstore : w.manager.registrationStore ≠ none) (hdid : HasDid body) :
    postRegistration sha256 dialect hasCode config w body = some 200 ↔
      (body.own (js "registrationData")).readOptional "termsOfServiceHash" =
          RegistrationManager.hashValue w.manager.termsOfServiceHash ∧
        BringsProofOfWork sha256 w.manager body ∧ Storable dialect body := by
  rw [postRegistration_eq_ok hroute]
  constructor
  · rintro ⟨m', registrationData, hhandle, -, hrows⟩
    obtain ⟨hdata, hterms, p, p', hmanager, hverify, -⟩ :=
      RegistrationManager.handleRegistrationRequest_ok hhandle
    obtain ⟨c, r, hc, hr, hfresh, hresponse, haccepted, hmeets, -⟩ :=
      ProofOfWorkManager.verifyProofOfWork_eq_ok.mp hverify
    refine ⟨?_, ⟨p, c, r, registrationData, hmanager, hdata, hc, hr, hfresh, hresponse, haccepted,
      hmeets⟩, registrationData, hdata, hrows⟩
    rw [hdata]
    exact hterms
  · rintro ⟨hterms, ⟨p, c, r, registrationData, hmanager, hdata, hc, hr, hfresh, hresponse,
      haccepted, hmeets⟩, registrationData', hdata', hrows⟩
    obtain rfl := Option.some.inj (hdata.symm.trans hdata')
    obtain ⟨data, did, hdata', hdid⟩ := hdid
    obtain rfl := Option.some.inj (hdata.symm.trans hdata')
    rw [hdata] at hterms
    have hverify := ProofOfWorkManager.verifyProofOfWork_eq_ok.mpr
      ⟨c, r, hc, hr, hfresh, hresponse, haccepted, hmeets, @rfl _ (p.recordProofOfWork w.now r)⟩
    exact ⟨_, registrationData, RegistrationManager.handleRegistrationRequest_of_verified hdata
      (JsValue.isNullish_of_own hdid) hterms hmanager hverify, hstore, hrows⟩

/-! ## Servers -/

theorem postRegistration_mem (h : config.registrationStoreUrl.getD [] ≠ []) :
    .postRegistration ∈ registrationRoutes config := by
  have hstore : config.registrationStoreUrl ≠ none := by
    intro hnone
    simp [hnone] at h
  simp [registrationRoutes, hstore]

theorem Reached.registrationStore (hw : Reached sha256 dialect config w)
    (h : config.registrationStoreUrl.getD [] ≠ []) : w.manager.registrationStore ≠ none := by
  obtain ⟨now, random, random', readFileSync, earlier, m, as, hcreate, hrun⟩ := hw
  have hstart := RegistrationManager.registrationStore_of_create hcreate h
  refine run_invariant (I := fun w => w.manager.registrationStore ≠ none) ?_ (by simp [hstart]) hrun
  intro w a t hw hstep
  obtain ⟨tenants, -, hstore⟩ := (RegistrationRun.stepped hstep).stored
  rw [hstore]
  simpa using hw

theorem Reached.termsOfServiceHash (hw : Reached sha256 dialect config w)
    (h : config.registrationStoreUrl.getD [] ≠ []) (hpath : config.termsOfServiceFilePath ≠ none) :
    w.manager.termsOfServiceHash ≠ none := by
  obtain ⟨now, random, random', readFileSync, earlier, m, as, hcreate, hrun⟩ := hw
  refine run_invariant (I := fun w => w.manager.termsOfServiceHash ≠ none)
    (fun _ _ _ => RegistrationRun.terms_step) ?_ hrun
  exact mt (RegistrationManager.termsOfServiceHash_of_create hcreate h).mp hpath

theorem Reached.hasPlainTerms (hw : Reached sha256 dialect config w) :
    w.manager.HasPlainTerms := by
  obtain ⟨now, random, random', readFileSync, earlier, m, as, hcreate, hrun⟩ := hw
  exact run_invariant (I := fun w => w.manager.HasPlainTerms)
    (fun _ _ _ => RegistrationRun.hasPlainTerms_step)
    (RegistrationManager.hasPlainTerms_of_create hcreate) hrun

/-! ## A server that accepts every hash -/

/-- A server with a store, and the terms in a file, if there are any. -/
def easiest (termsOfServiceFilePath : Option JsString) : DwnServerConfig where
  serverName := js "@web5/dwn-server"
  baseUrl := js "http://localhost:3000"
  maxRecordDataSize := some 1073741824
  webSocketSupport := true
  registrationStoreUrl := some (js "sqlite://")
  registrationProofOfWorkSeed := none
  registrationProofOfWorkEnabled := true
  registrationProofOfWorkInitialMaxHash := some (List.replicate 64 (unit 'F'))
  termsOfServiceFilePath

def registrationData (termsOfServiceHash : Option JsString) : Json := .object <|
  (js "did", .string (js "did:a")) ::
    (termsOfServiceHash.map fun hash => (js "termsOfServiceHash", .string hash)).toList

/-- A request of `did:a`, with a proof of work for the challenge of the drawn bytes 1. -/
def registrationRequest (termsOfServiceHash : Option JsString) (withProof : Bool) : Json :=
  .object <| (js "registrationData", registrationData termsOfServiceHash) ::
    if withProof then [(js "proofOfWork", .object
      [(js "challengeNonce", .string (ProofOfWork.generateNonce 1)),
        (js "responseNonce", .string (List.replicate 64 (unit 'A')))])] else []

variable {termsOfServiceHash path : Option JsString} {withProof : Bool}

theorem own_registrationRequest :
    (registrationRequest termsOfServiceHash withProof).own (js "registrationData") =
      some (registrationData termsOfServiceHash) := rfl

theorem readOptional_registrationRequest :
    ((registrationRequest termsOfServiceHash withProof).own (js "registrationData")).readOptional
      "termsOfServiceHash" = RegistrationManager.hashValue termsOfServiceHash := by
  cases termsOfServiceHash <;> rfl

theorem hasDid_registrationRequest : HasDid (registrationRequest termsOfServiceHash withProof) :=
  ⟨_, js "did:a", own_registrationRequest, by cases termsOfServiceHash <;> rfl⟩

theorem storable_registrationRequest (hdialect : dialect.Documented)
    (h : ∀ hash, termsOfServiceHash = some hash → isPlainText hash = true) :
    Storable dialect (registrationRequest termsOfServiceHash withProof) := by
  have hrow : declaredRow (registrationData termsOfServiceHash) =
      some ⟨some (js "did:a"), termsOfServiceHash⟩ := by
    cases termsOfServiceHash with
    | none => decide
    | some hash =>
      show (if isPlainText (js "did:a") && isPlainText hash then _ else _) = _
      rw [h hash rfl]
      rfl
  exact ⟨_, own_registrationRequest, by simp [hdialect.declared _ _ hrow]⟩

theorem store_easiest (path : Option JsString) :
    (easiest path).registrationStoreUrl.getD [] ≠ [] := by
  show js "sqlite://" ≠ []
  decide

theorem exists_easiest (sha256 : Sha256) (path : Option JsString) :
    ∃ p, ProofOfWorkManager.create sha256 0 0 1 (easiest path).registrationInput.proofOfWork =
        .ok p ∧ p.proofOfWorkOfLastMinute = .empty ∧
      p.challengeNonces.currentChallengeNonce = ProofOfWork.generateNonce 1 ∧
      p.currentMaximumAllowedHashValueAsBigInt = 2 ^ 256 - 1 := by
  have hinitial : BigInt.ofHex (C := DwnServerErrorCode) (List.replicate 64 (unit 'F')) =
      .ok (2 ^ 256 - 1) := by
    decide +kernel
  obtain ⟨p, hp⟩ : ∃ p, ProofOfWorkManager.create sha256 0 0 1
      (easiest path).registrationInput.proofOfWork = .ok p := by
    refine ⟨(ProofOfWorkManager.construct (2 ^ 256 - 1) 0
      (easiest path).registrationInput.proofOfWork).start sha256 0 1, ?_⟩
    show BigInt.ofHex (List.replicate 64 (unit 'F')) >>= _ = _
    rw [hinitial]
    rfl
  have hdesired : 0 ≤ p.desiredSolveCountPerMinute := by
    rw [ProofOfWorkManager.desiredSolveCountPerMinute_of_create hp]
    norm_num [RegistrationManager.Input.proofOfWork]
  obtain ⟨hseed, hnonces⟩ := ProofOfWorkManager.challengeNonces_of_create hp
  have hcurrent : p.challengeNonces.currentChallengeNonce = ProofOfWork.generateNonce 1 := by
    rw [hnonces]
    simp only [ProofOfWorkManager.firstRefreshes, RegistrationManager.Input.proofOfWork, if_true,
      List.foldl_cons, List.foldl_nil, ProofOfWorkManager.refreshed, hseed]
    rfl
  obtain ⟨initial, nonces, hinitial', heq⟩ := ProofOfWorkManager.create_eq hp hdesired
  obtain rfl := Except.ok.inj (hinitial.symm.trans hinitial')
  exact ⟨p, hp, by rw [heq]; rfl, hcurrent, by rw [heq]; rfl⟩

/-- A state of the server in which every hash meets the maximum. -/
theorem exists_reached (sha256 : Sha256) (dialect : UpsertDialect) (path : Option JsString) :
    ∃ w, Reached sha256 dialect (easiest path) w ∧
      (path = none → w.manager.termsOfServiceHash = none) ∧
      ∀ termsOfServiceHash,
        BringsProofOfWork sha256 w.manager (registrationRequest termsOfServiceHash true) := by
  obtain ⟨p, hp, hempty, hcurrent, hmaximum⟩ := exists_easiest sha256 path
  have hm := @RegistrationManager.create_eq_ok sha256 0 0 1 (fun _ => .ok [])
    (RegistrationStore.ofStored []) (easiest path).registrationInput p [] (store_easiest path)
    (fun _ _ => rfl) hp
  refine ⟨⟨_, 0, [], []⟩, ⟨0, 0, 1, _, [], _, [], hm, rfl⟩, ?_, fun termsOfServiceHash => ?_⟩
  · rintro rfl
    rfl
  · refine ⟨p, ProofOfWork.generateNonce 1, List.replicate 64 (unit 'A'), _, rfl,
      own_registrationRequest, rfl, rfl, by rw [hempty]; rfl, ⟨by decide, by decide⟩, ?_, ?_⟩
    · exact ProofOfWorkManager.mem_acceptable.mpr
        ⟨ProofOfWork.generateNonce_ne_nil _, Or.inr (Or.inl hcurrent)⟩
    · have hlt := (sha256 ([ProofOfWork.generateNonce 1, List.replicate 64 (unit 'A'),
        (registrationData termsOfServiceHash).stringify].flatMap utf8)).isLt
      rw [hmaximum, ProofOfWork.hashValue]
      omega

/-- Without a proof of work, a request brings none. -/
theorem not_bringsProofOfWork {m : RegistrationManager} :
    ¬BringsProofOfWork sha256 m (registrationRequest termsOfServiceHash false) := by
  rintro ⟨p, c, r, data, -, -, hc, -⟩
  cases hc

theorem text_injective : Function.Injective RegistrationRequirement.text := by
  intro requirement requirement' h
  cases requirement <;> cases requirement' <;> first | rfl | (revert h; decide)

/-- What `/info` lists. -/
theorem text_mem_info {packageInfo : PackageInfo} (requirement : RegistrationRequirement) :
    requirement.text ∈ (info config packageInfo).registrationRequirements ↔
      match requirement with
      | .proofOfWork => config.registrationProofOfWorkEnabled = true
      | .termsOfService => config.termsOfServiceFilePath ≠ none := by
  rw [info, List.mem_map_of_injective text_injective]
  cases requirement <;> simp [registrationRequirements]

theorem hashValue_injective : Function.Injective RegistrationManager.hashValue :=
  Option.map_injective fun _ _ => Json.string.inj

/-- What `/info` lists is what is enforced, for every request whose data the table can take,
exactly if it lists both requirements and terms are in force. Other data is never accepted. -/
theorem listed_iff_enforced (sha256 : Sha256) (hdialect : dialect.Documented)
    (processConfig : DwnServerConfig) (packageInfo : PackageInfo) (path : Option JsString) :
    ((∀ config w body hasCode, config.termsOfServiceFilePath = path →
        config.registrationStoreUrl.getD [] ≠ [] → Reached sha256 dialect config w → HasDid body →
        Storable dialect body → (postRegistration sha256 dialect hasCode config w body = some 200 ↔
          MeetsListed sha256 (info processConfig packageInfo) w.manager body)) ↔
      processConfig.registrationProofOfWorkEnabled = true ∧
        processConfig.termsOfServiceFilePath ≠ none ∧ path ≠ none) ∧
    ∀ config w body hasCode, config.registrationStoreUrl.getD [] ≠ [] →
      Reached sha256 dialect config w → HasDid body → ¬Storable dialect body →
      ((postRegistration sha256 dialect hasCode config w body = some 200 ↔
        MeetsListed sha256 (info processConfig packageInfo) w.manager body) ↔
          ¬MeetsListed sha256 (info processConfig packageInfo) w.manager body) := by
  refine ⟨⟨fun h => ?_, ?_⟩, ?_⟩
  · obtain ⟨w, hw, hterms, hproof⟩ := exists_reached sha256 dialect path
    have hstore := hw.registrationStore (store_easiest path)
    have hiff : ∀ termsOfServiceHash withProof,
        (∀ hash, termsOfServiceHash = some hash → isPlainText hash = true) →
        ((RegistrationManager.hashValue termsOfServiceHash =
            RegistrationManager.hashValue w.manager.termsOfServiceHash ∧
          BringsProofOfWork sha256 w.manager (registrationRequest termsOfServiceHash withProof)) ↔
        MeetsListed sha256 (info processConfig packageInfo) w.manager
          (registrationRequest termsOfServiceHash withProof)) := by
      intro termsOfServiceHash withProof hplain
      rw [← h (easiest path) w _ false rfl (store_easiest path) hw hasDid_registrationRequest
        (storable_registrationRequest hdialect hplain),
      accepted_iff (postRegistration_mem (store_easiest path)) hstore
        hasDid_registrationRequest, readOptional_registrationRequest]
      simp [storable_registrationRequest hdialect hplain]
    have hlisted : processConfig.termsOfServiceFilePath ≠ none := by
      -- terms that are not listed are compared all the same
      intro hunlisted
      obtain ⟨wrong, hplain, hwrong⟩ : ∃ wrong : Option JsString,
          (∀ hash, wrong = some hash → isPlainText hash = true) ∧
            wrong ≠ w.manager.termsOfServiceHash := by
        cases hforce : w.manager.termsOfServiceHash with
        | none => exact ⟨some [], by rintro _ ⟨⟩; rfl, by simp⟩
        | some hash => exact ⟨none, by simp, by simp⟩
      refine hwrong (hashValue_injective
        ((hiff wrong true hplain).mpr fun requirement hmem => ?_).1)
      cases requirement with
      | proofOfWork => exact hproof wrong
      | termsOfService => exact absurd hunlisted ((text_mem_info _).mp hmem)
    have hpath : path ≠ none := by
      -- without terms in force, a request that agrees to none is accepted
      intro hnone
      have hmeets := (hiff none true (by simp)).mp ⟨by rw [hterms hnone], hproof none⟩
      obtain ⟨hash, hhash, -⟩ := hmeets .termsOfService ((text_mem_info _).mpr hlisted)
      cases hhash.symm.trans (hterms hnone)
    refine ⟨?_, hlisted, hpath⟩
    -- a proof of work that is not listed is asked for all the same
    by_contra hunlisted
    obtain ⟨hash, hhash⟩ := Option.ne_none_iff_exists'.mp
      (hw.termsOfServiceHash (store_easiest path) hpath)
    refine not_bringsProofOfWork ((hiff (some hash) false ?_).mpr fun requirement hmem => ?_).2
    · rintro _ ⟨⟩
      exact hw.hasPlainTerms hash hhash
    cases requirement with
    | proofOfWork => exact absurd ((text_mem_info _).mp hmem) hunlisted
    | termsOfService => exact ⟨hash, hhash, readOptional_registrationRequest⟩
  · rintro ⟨hproof, hlisted, hpath⟩ config w body hasCode rfl hstore hw hdid hstorable
    obtain ⟨hash, hhash⟩ := Option.ne_none_iff_exists'.mp (hw.termsOfServiceHash hstore hpath)
    rw [accepted_iff (postRegistration_mem hstore) (hw.registrationStore hstore) hdid]
    constructor
    · rintro ⟨hterms, hproved, -⟩ requirement -
      cases requirement with
      | proofOfWork => exact hproved
      | termsOfService => exact ⟨hash, hhash, by rw [hterms, hhash]; rfl⟩
    · intro hmeets
      obtain ⟨hash', hhash', hagreed⟩ := hmeets .termsOfService ((text_mem_info _).mpr hlisted)
      refine ⟨?_, hmeets .proofOfWork ((text_mem_info _).mpr hproof), hstorable⟩
      rw [hagreed, hhash']
      rfl
  · intro config w body hasCode hstore hw hdid hstorable
    rw [accepted_iff (postRegistration_mem hstore) (hw.registrationStore hstore) hdid]
    simp [hstorable]

/-- A server that lists both requirements, and a request that meets them. -/
theorem listed_iff_enforced_easiest : ∃ w body, Reached (fun _ => 0) .strict
      (easiest (some (js "terms.txt"))) w ∧ HasDid body ∧
    MeetsListed (fun _ => 0) (info (easiest (some (js "terms.txt")))
      ⟨none, none, js "@web5/dwn-server"⟩) w.manager body ∧
    postRegistration (fun _ => 0) .strict false (easiest (some (js "terms.txt"))) w body =
      some 200 := by
  obtain ⟨w, hw, -, hproof⟩ := exists_reached (fun _ => 0) .strict (some (js "terms.txt"))
  obtain ⟨hash, hhash⟩ := Option.ne_none_iff_exists'.mp
    (hw.termsOfServiceHash (store_easiest _) (by simp [easiest]))
  have hmeets : MeetsListed (fun _ => 0) (info (easiest (some (js "terms.txt")))
      ⟨none, none, js "@web5/dwn-server"⟩) w.manager (registrationRequest (some hash) true) := by
    intro requirement _
    cases requirement with
    | proofOfWork => exact hproof (some hash)
    | termsOfService => exact ⟨hash, hhash, readOptional_registrationRequest⟩
  have hstorable : Storable .strict (registrationRequest (some hash) true) := by
    refine storable_registrationRequest UpsertDialect.documented_strict ?_
    rintro _ ⟨⟩
    exact hw.hasPlainTerms hash hhash
  refine ⟨w, _, hw, hasDid_registrationRequest, hmeets, ?_⟩
  have henforced := (listed_iff_enforced (fun _ => 0) UpsertDialect.documented_strict
    (easiest (some (js "terms.txt"))) ⟨none, none, js "@web5/dwn-server"⟩
    (some (js "terms.txt"))).1.mpr ⟨rfl, by simp [easiest], by simp⟩
  exact (henforced _ w _ false rfl (store_easiest _) hw hasDid_registrationRequest hstorable).mpr
    hmeets

/-- Neither configuration enables a requirement, so `/info` lists none. A request without a
proof of work is refused. -/
theorem not_listed_iff_enforced : ¬∀ (sha256 : Sha256) (dialect : UpsertDialect)
    (processConfig config : DwnServerConfig) (packageInfo : PackageInfo) (w : RegistrationRun)
    (body : Json) (hasCode : Bool),
    dialect.Documented → config.registrationStoreUrl.getD [] ≠ [] →
    Reached sha256 dialect config w → HasDid body →
    (postRegistration sha256 dialect hasCode config w body = some 200 ↔
      MeetsListed sha256 (info processConfig packageInfo) w.manager body) := by
  intro h
  let config := { easiest none with registrationProofOfWorkEnabled := false }
  obtain ⟨w, hw, -, -⟩ := exists_reached (fun _ => 0) .strict none
  have hiff := h (fun _ => 0) .strict config config ⟨none, none, js "@web5/dwn-server"⟩ w
    (registrationRequest none false) false UpsertDialect.documented_strict (store_easiest none) hw
    hasDid_registrationRequest
  have hroute : .postRegistration ∈ registrationRoutes config :=
    postRegistration_mem (store_easiest none)
  rw [accepted_iff hroute (hw.registrationStore (store_easiest none))
    hasDid_registrationRequest] at hiff
  exact not_bringsProofOfWork (hiff.mpr fun requirement hmem => nomatch hmem).2.1

end HttpApi

end DwnServer
