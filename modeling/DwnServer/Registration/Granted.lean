import DwnServer.Library.Numbered
import DwnServer.Registration.Challenge
import DwnServer.Registration.Rejection
import DwnServer.Registration.Tenancy

/-!
# Tenancy is granted

A client fetches the challenge and the terms, searches a response nonce for its registration and
sends its request some time later. What others do meanwhile does not come in between, as long as
the challenge is refreshed once at most, no evaluation raises the difficulty, nobody else uses the
response nonce, and the terms stay. Once the row is stored, the tenant is active.
-/
namespace DwnServer

open Transition

/-- What a client registers with. -/
structure Attempt where
  did : JsString
  challengeNonce : JsString
  responseNonce : JsString
  termsOfServiceHash : JsString

namespace Attempt

def registrationData (x : Attempt) : Json := .object
  [(js "did", .string x.did), (js "termsOfServiceHash", .string x.termsOfServiceHash)]

def request (x : Attempt) : Json := .object
  [(js "proofOfWork", .object [(js "challengeNonce", .string x.challengeNonce),
      (js "responseNonce", .string x.responseNonce)]),
    (js "registrationData", x.registrationData)]

def row (x : Attempt) : RegisteredTenant := ⟨some x.did, some x.termsOfServiceHash⟩

def hash (sha256 : Sha256) (x : Attempt) : ℕ :=
  ProofOfWork.hashValue sha256 x.challengeNonce x.responseNonce x.registrationData.stringify

/-- In this state the client has fetched the challenge and the terms, and has found a response
nonce for them that nobody has used. -/
structure Solves (sha256 : Sha256) (x : Attempt) (w : RegistrationRun) : Prop where
  terms : w.manager.termsOfServiceHash = some x.termsOfServiceHash
  solved : ∃ p rounds, w.manager.proofOfWorkManager = some p ∧
    x.challengeNonce = p.getProofOfWorkChallenge.challengeNonce ∧
    ProofOfWork.findQualifiedResponseNonce sha256 p.getProofOfWorkChallenge.maximumAllowedHashValue
      x.challengeNonce x.registrationData.stringify rounds = .ok (some x.responseNonce) ∧
    p.proofOfWorkOfLastMinute.get? x.responseNonce = none

/-- The step does not raise the difficulty, use the response nonce or change the terms. -/
def Spares (x : Attempt) (w : RegistrationRun) : RegistrationAction → Prop
  | .updateTermsOfService _ => False
  | .refreshMaximumAllowedHashValue => ∀ p, w.manager.proofOfWorkManager = some p →
    ProofOfWorkRun.solveCount ⟨p, w.now, []⟩ ≤ 10
  | .handleRegistrationRequest request =>
    (request.own (js "proofOfWork")).readOptional "responseNonce" ≠ some (.string x.responseNonce)
  | _ => True

/-- The step does not change the terms, or what the tenant agreed to by a statement that it
executes. -/
def Undisturbed (dialect : UpsertDialect) (x : Attempt) (w : RegistrationRun) :
    RegistrationAction → Prop
  | .updateTermsOfService _ => False
  | .storeSettles i (.ok _) => ∀ registrationData,
    w.calls[i]? = some (.storing registrationData) →
      ∀ tenant ∈ RegistrationRun.tenantsOf dialect registrationData, tenant.did = some x.did →
        tenant.termsOfServiceHash = some x.termsOfServiceHash
  | _ => True

theorem own_registrationData (x : Attempt) :
    x.request.own (js "registrationData") = some x.registrationData := rfl

theorem declaredRow_registrationData (x : Attempt) (hdid : isPlainText x.did = true)
    (hhash : isPlainText x.termsOfServiceHash = true) :
    declaredRow x.registrationData = some x.row := by
  show (if isPlainText x.did && isPlainText x.termsOfServiceHash then some x.row else none) = _
  rw [hdid, hhash]
  rfl

end Attempt

namespace RegistrationRun

variable {sha256 : Sha256} {dialect : UpsertDialect} {options : ProofOfWorkOptions} {x : Attempt}
  {u v w t : RegistrationRun} {a : RegistrationAction} {as : List RegistrationAction}

/-- Only an update changes the terms in force. -/
theorem termsOfServiceHash_step (h : w.step sha256 dialect a = some t)
    (ha : ∀ termsOfService, a ≠ .updateTermsOfService termsOfService) :
    t.manager.termsOfServiceHash = w.manager.termsOfServiceHash := by
  refine (termsOfServiceHash_cases h).resolve_right ?_
  rintro ⟨termsOfService, rfl, -⟩
  exact ha termsOfService rfl

/-! ## Until the request is sent -/

/-- After `n` refreshes of the challenge the registration still meets what is asked of it. -/
structure Standing (sha256 : Sha256) (options : ProofOfWorkOptions) (x : Attempt) (n : ℕ)
    (w : RegistrationRun) : Prop where
  terms : w.manager.termsOfServiceHash = some x.termsOfServiceHash
  work : ∃ p, w.manager.proofOfWorkManager = some p ∧
    ProofOfWorkRun.Scaled options ⟨p, w.now, []⟩ ∧
    x.hash sha256 ≤ p.currentMaximumAllowedHashValueAsBigInt ∧
    p.proofOfWorkOfLastMinute.get? x.responseNonce = none ∧
    (n = 0 → p.challengeNonces.currentChallengeNonce = x.challengeNonce) ∧
    (n = 1 → p.challengeNonces.previousChallengeNonce = some x.challengeNonce)

theorem Standing.refreshed {n : ℕ} (hseed : options.challengeSeed = none)
    (hw : Standing sha256 options x n w)
    (h : w.step sha256 dialect a = some t) (ha : isChallengeRefresh a = true) :
    Standing sha256 options x (n + 1) t := by
  obtain ⟨random, rfl⟩ : ∃ random, a = .refreshChallengeNonce random := by
    cases a with
    | refreshChallengeNonce random => exact ⟨random, rfl⟩
    | _ => cases ha
  obtain ⟨hterms, p, hp, hscaled, hhash, hfresh, hcurrent, -⟩ := hw
  refine ⟨(termsOfServiceHash_step h nofun).trans hterms, ?_⟩
  obtain ⟨q, hq, hproves⟩ := proves hp h
  generalize t.now = now' at hproves ⊢
  cases hproves with
  | kept hne => cases hne
  | nonces =>
    have hnone : p.challengeSeed = none := by
      rw [← hseed, ← hscaled.options]
    have heq : p.refreshChallengeNonce sha256 w.now random = { p with
        challengeNonces := { p.challengeNonces with
          previousChallengeNonce := some p.challengeNonces.currentChallengeNonce
          currentChallengeNonce := ProofOfWork.generateNonce random } } := by
      simp only [ProofOfWorkManager.refreshChallengeNonce, hnone]
    rw [heq] at hq
    refine ⟨_, hq, ⟨hscaled.options, hscaled.inScale, hscaled.increment⟩, hhash, hfresh,
      fun hn => absurd hn (Nat.succ_ne_zero n), fun hn => ?_⟩
    exact congrArg some (hcurrent (by omega))

theorem Standing.spared {n : ℕ} (ho : ProofOfWorkManager.ManagesRegistrations options)
    (hw : Standing sha256 options x n w) (hspares : x.Spares w a)
    (h : w.step sha256 dialect a = some t) (ha : isChallengeRefresh a = false) :
    Standing sha256 options x n t := by
  obtain ⟨hterms, p, hp, hscaled, hhash, hfresh, hnonces⟩ := hw
  refine ⟨(termsOfServiceHash_step h (by rintro _ rfl; exact hspares)).trans hterms, ?_⟩
  obtain ⟨q, hq, hproves⟩ := proves hp h
  generalize t.now = now' at hproves ⊢
  cases hproves with
  | kept | clock =>
    exact ⟨p, hq, ⟨hscaled.options, hscaled.inScale, hscaled.increment⟩, hhash, hfresh, hnonces⟩
  | nonces => cases ha
  | evaluates =>
    have hstep : (ProofOfWorkRun.mk p w.now []).step sha256 .refreshMaximumAllowedHashValue =
      some ⟨(p.refreshMaximumAllowedHashValue w.now).1, w.now, []⟩ := rfl
    obtain ⟨-, hkept, hrecorded⟩ := p.refreshMaximumAllowedHashValue_kept w.now
    have heasier := (ProofOfWorkRun.boundedStep_of_scaled ho hscaled hstep).easier (hspares p hp)
    refine ⟨_, hq, ProofOfWorkRun.scaled_step ho hscaled hstep, hhash.trans heasier.1, ?_,
      hkept ▸ hnonces⟩
    rw [hrecorded]
    cases hrow : (p.removeProofOfWorkOlderThanOneMinute w.now).proofOfWorkOfLastMinute.get?
      x.responseNonce with
    | none => rfl
    | some time => cases hfresh.symm.trans (OrderedMap.get?_filter.mp hrow).1
  | records hverify =>
    obtain ⟨c, r, -, hr, -, -, -, -, rfl⟩ := ProofOfWorkManager.verifyProofOfWork_eq_ok.mp hverify
    have hne : x.responseNonce ≠ r := by
      rintro rfl
      exact hspares hr
    refine ⟨_, hq, ⟨hscaled.options, hscaled.inScale, hscaled.increment⟩, hhash, ?_, hnonces⟩
    rw [ProofOfWorkManager.recordProofOfWork, OrderedMap.get?_set, if_neg hne]
    exact hfresh

theorem Standing.after_run (ho : ProofOfWorkManager.ManagesRegistrations options)
    (hseed : options.challengeSeed = none) (hw : Standing sha256 options x 0 w)
    (hrun : run (step sha256 dialect) w as = some t)
    (hspares : Along (step sha256 dialect) (fun s a _ => x.Spares s a) w as) :
    Standing sha256 options x (as.countP isChallengeRefresh) t := by
  have hstands : Standing sha256 options x (0 + as.countP isChallengeRefresh) t := by
    refine run_invariant_of_count (I := fun n s => Standing sha256 options x n s)
      (fun n s a u hs _ hu ha => ?_) (fun n s a u hs hspares hu ha => ?_) hspares hw hrun
    · exact hs.refreshed hseed hu ha
    · exact hs.spared ho hspares hu ha
  rwa [Nat.zero_add] at hstands

/-- Who solves the challenge of a state stands in it. -/
theorem standing_of_solves {p : ProofOfWorkManager} (hp : w.manager.proofOfWorkManager = some p)
    (hscaled : ProofOfWorkRun.Scaled options ⟨p, w.now, []⟩)
    (hlt : p.currentMaximumAllowedHashValueAsBigInt < 2 ^ 256)
    (hnonce : p.challengeNonces.currentChallengeNonce ≠ []) (hsolves : x.Solves sha256 w) :
    Standing sha256 options x 0 w ∧ x.challengeNonce ≠ [] ∧
      ProofOfWorkManager.IsResponseNonce x.responseNonce := by
  obtain ⟨hterms, p', rounds, hp', hchallenge, hfound, hfresh⟩ := hsolves
  obtain rfl := Option.some.inj (hp.symm.trans hp')
  rw [hchallenge] at hfound
  have hverify : p.verifyProofOfWork sha256 w.now
      (some (.string p.getProofOfWorkChallenge.challengeNonce)) (some (.string x.responseNonce))
      x.registrationData.stringify = .ok (p.recordProofOfWork w.now x.responseNonce) :=
    ProofOfWorkManager.verifyProofOfWork_of_found (zero_le_one.trans hscaled.maximum_bounds.1)
      hlt hnonce hfound hfresh
  obtain ⟨c, r, hc, hr, -, hformat, -, hhash, -⟩ :=
    ProofOfWorkManager.verifyProofOfWork_eq_ok.mp hverify
  obtain ⟨rfl⟩ := Json.string.inj (Option.some.inj hc)
  obtain ⟨rfl⟩ := Json.string.inj (Option.some.inj hr)
  refine ⟨⟨hterms, p, hp, hscaled, ?_, hfresh, fun _ => hchallenge.symm, nofun⟩, ?_, hformat⟩
  · rw [Attempt.hash, hchallenge]
    exact hhash
  · rw [hchallenge]
    exact hnonce

/-- A registration that stands is accepted. -/
theorem Standing.accepted {n : ℕ} (hn : n ≤ 1) (hw : Standing sha256 options x n w)
    (hnonce : x.challengeNonce ≠ []) (hformat : ProofOfWorkManager.IsResponseNonce x.responseNonce)
    (h : w.step sha256 dialect (.handleRegistrationRequest x.request) = some t) :
    t.calls[w.calls.length]? = some (.storing x.registrationData) ∧
      t.manager.termsOfServiceHash = some x.termsOfServiceHash ∧ t.stored = w.stored := by
  obtain ⟨hterms, p, hp, hscaled, hhash, hfresh, hcurrent, hprevious⟩ := hw
  have hacceptable : x.challengeNonce ∈ p.challengeNonces.acceptable := by
    rw [ProofOfWorkManager.mem_acceptable]
    refine ⟨hnonce, ?_⟩
    rcases Nat.le_one_iff_eq_zero_or_eq_one.mp hn with rfl | rfl
    · exact Or.inr (Or.inl (hcurrent rfl))
    · exact Or.inl (hprevious rfl)
  have hverify : p.verifyProofOfWork sha256 w.now (some (.string x.challengeNonce))
      (some (.string x.responseNonce)) x.registrationData.stringify =
        .ok (p.recordProofOfWork w.now x.responseNonce) :=
    ProofOfWorkManager.verifyProofOfWork_eq_ok.mpr
      ⟨_, _, rfl, rfl, hfresh, hformat, hacceptable, hhash, rfl⟩
  have hhandle : w.manager.handleRegistrationRequest sha256 w.now x.request =
      .ok (_, x.registrationData) :=
    RegistrationManager.handleRegistrationRequest_of_verified x.own_registrationData rfl
      (by rw [hterms]; rfl) hp hverify
  simp only [step, hhandle] at h
  obtain rfl := Option.some.inj h
  exact ⟨List.getElem?_concat_length, hterms, rfl⟩

/-! ## Once the row is stored -/

def isCheck : RegistrationCall → Bool
  | .checking .. | .checked .. => true
  | _ => false

/-- How a call comes to stand at the place `i`: it has read the table, or compares what it has read
with the terms in force, or it does not check a tenant. -/
inductive Becomes (w : RegistrationRun) (i : ℕ) : RegistrationCall → Prop
  | reads {tenant : JsString} {store : RegistrationStore}
      (h : w.manager.registrationStore = some store) :
      Becomes w i (.checking tenant (store.getTenantRegistration tenant))
  | answers {tenant : JsString} {read : Option RegisteredTenant}
      (h : w.calls[i]? = some (.checking tenant read)) :
      Becomes w i (.checked tenant (w.manager.checkTenant read))
  | other {call : RegistrationCall} (h : isCheck call = false) : Becomes w i call

theorem becomes_begin {manager : RegistrationManager} {call call' : RegistrationCall} {i : ℕ}
    (hcall : isCheck call = false)
    (h : ({ w with manager }.begin call).calls[i]? = some call') :
    w.calls[i]? = some call' ∨ w.Becomes i call' := by
  rcases Numbered.getElem?_append_singleton h with hold | ⟨-, rfl⟩
  · exact Or.inl hold
  · exact Or.inr (.other hcall)

theorem becomes_set {call call' : RegistrationCall} {i j : ℕ} (hcall : w.Becomes j call)
    (h : (w.calls.set j call)[i]? = some call') :
    w.calls[i]? = some call' ∨ w.Becomes i call' := by
  rw [List.getElem?_set] at h
  split_ifs at h with hij
  · subst hij
    exact Or.inr (Option.some.inj h ▸ hcall)
  · exact Or.inl h

/-- A call after a step was there before, or the step has brought it about. -/
theorem becomes {i : ℕ} {call : RegistrationCall} (h : w.step sha256 dialect a = some t)
    (hi : t.calls[i]? = some call) : w.calls[i]? = some call ∨ w.Becomes i call := by
  cases a with
  | clock | refreshChallengeNonce | refreshMaximumAllowedHashValue | updateTermsOfService =>
    obtain rfl := Option.some.inj h
    exact Or.inl hi
  | handleRegistrationRequest request =>
    simp only [step] at h
    split at h <;> obtain rfl := Option.some.inj h <;> exact becomes_begin rfl hi
  | isActiveTenant tenant =>
    simp only [step] at h
    split at h <;> obtain rfl := Option.some.inj h <;> exact becomes_begin rfl hi
  | storeSettles j outcome =>
    obtain ⟨-, -, ⟨-, -, -, -, -, hcalls⟩ | ⟨error, rfl⟩⟩ := storeSettles_cases h
    · rw [hcalls] at hi
      exact becomes_set (.other rfl) hi
    · exact becomes_set (.other rfl) hi
  | readSettles j outcome =>
    simp only [step] at h
    split at h
    · rename_i hstore
      obtain rfl := Option.some.inj h
      exact becomes_set (.reads hstore) hi
    · obtain rfl := Option.some.inj h
      exact becomes_set (.other rfl) hi
    · cases h
  | answer j =>
    simp only [step] at h
    split at h
    · rename_i hj
      obtain rfl := Option.some.inj h
      exact becomes_set (.answers hj) hi
    · cases h

/-- A check of the tenant finds its row, and answers that it is active. -/
def Favours (x : Attempt) : RegistrationCall → Prop
  | .checking tenant read => tenant = x.did → read = some x.row
  | .checked tenant result => tenant = x.did → result.isActiveTenant = true
  | _ => True

/-- The tenant has agreed to the terms in force, and calls from the place `n` on find it so. -/
structure Holding (x : Attempt) (n : ℕ) (w : RegistrationRun) : Prop where
  consistent : w.Consistent
  terms : w.manager.termsOfServiceHash = some x.termsOfServiceHash
  agreement : RegistrationStore.latestAgreement w.stored x.did = some (some x.termsOfServiceHash)
  calls : ∀ i call, n ≤ i → w.calls[i]? = some call → Favours x call

theorem Holding.favours {n i : ℕ} {call : RegistrationCall} (hw : w.Holding x n) (hi : n ≤ i)
    (h : w.Becomes i call) : Favours x call := by
  cases h with
  | reads hstore =>
    rintro rfl
    obtain rfl := Option.some.inj (hw.consistent.symm.trans hstore)
    rw [RegistrationStore.getTenantRegistration_ofStored, hw.agreement]
    rfl
  | answers hchecking =>
    rintro rfl
    obtain rfl := hw.calls i _ hi hchecking rfl
    exact (RegistrationManager.checkTenant_iff _ _).mpr ⟨_, rfl, hw.terms⟩
  | other hcall => cases call <;> trivial

theorem Holding.step {n : ℕ} (hdialect : dialect.Documented) (hw : w.Holding x n)
    (hundisturbed : x.Undisturbed dialect w a)
    (h : w.step sha256 dialect a = some t) : t.Holding x n := by
  refine ⟨hw.consistent.step h,
    (termsOfServiceHash_step h (by rintro _ rfl; exact hundisturbed)).trans hw.terms, ?_,
    fun i call hn hi => ?_⟩
  · rcases step_rows h with ⟨hsame, -⟩ |
      ⟨i, outcome, data, store, tenants, rfl, hi, -, hrows, hmore, -⟩
    · rw [hsame]
      exact hw.agreement
    · have htenants : tenantsOf dialect data = tenants := by
        rw [tenantsOf_eq hdialect, hrows]
        rfl
      rw [hmore, RegistrationStore.latestAgreement_append]
      cases hlatest : RegistrationStore.latestAgreement tenants x.did with
      | none => exact hw.agreement
      | some hash =>
        exact congrArg some
          (hundisturbed data hi _ (htenants ▸ RegistrationStore.mem_of_latestAgreement hlatest) rfl)
  · rcases becomes h hi with hold | hbecomes
    · exact hw.calls i call hn hold
    · exact hw.favours hn hbecomes

theorem holding_of_settles {n : ℕ} (hrow : dialect x.registrationData = some [x.row])
    (hw : w.Consistent)
    (hterms : w.manager.termsOfServiceHash = some x.termsOfServiceHash)
    (hn : w.calls[n]? = some (.storing x.registrationData))
    (h : w.step sha256 dialect (.storeSettles n (.ok ())) = some t) :
    t.calls[n]? = some .registered ∧ t.Holding x t.calls.length := by
  have ht := hw.step h
  have hlt : n < w.calls.length := (List.getElem?_eq_some_iff.mp hn).1
  have hkept := (termsOfServiceHash_step h nofun).trans hterms
  rw [Consistent] at hw
  simp only [RegistrationRun.step, hn, hw, store, hrow] at h
  obtain rfl := Option.some.inj h
  refine ⟨List.getElem?_set_self hlt, ht, hkept, ?_, fun i call hi hcall => ?_⟩
  · dsimp only
    rw [RegistrationStore.latestAgreement_append, RegistrationStore.latestAgreement_singleton]
    simp [Attempt.row]
  · rw [List.getElem?_eq_none hi] at hcall
    cases hcall

/-- The step does not settle the query of the call `n` or change the terms. -/
def Waits (n : ℕ) : RegistrationAction → Prop
  | .updateTermsOfService _ => False
  | .storeSettles i _ => i ≠ n
  | _ => True

/-- A call that waits for its query still waits, for the same terms. -/
theorem waiting_run {n : ℕ} {registrationData : Json}
    (hn : w.calls[n]? = some (.storing registrationData)) (hwaits : ∀ a ∈ as, Waits n a)
    (hrun : run (step sha256 dialect) w as = some t) :
    t.calls[n]? = some (.storing registrationData) ∧
      t.manager.termsOfServiceHash = w.manager.termsOfServiceHash := by
  refine run_invariant_of_forall (I := fun s : RegistrationRun =>
      s.calls[n]? = some (.storing registrationData) ∧
        s.manager.termsOfServiceHash = w.manager.termsOfServiceHash)
    (fun s a u hs ha hu => ⟨?_, ?_⟩) hwaits ⟨hn, rfl⟩ hrun
  · refine storing_of_ne hs.1 hu ?_
    rintro outcome rfl
    exact ha rfl
  · refine (termsOfServiceHash_step hu ?_).trans hs.2
    rintro termsOfService rfl
    exact ha

theorem Holding.after_run {n : ℕ} (hdialect : dialect.Documented) (hw : w.Holding x n)
    (hundisturbed : Along (RegistrationRun.step sha256 dialect)
      (fun s a _ => x.Undisturbed dialect s a) w as)
    (hrun : run (RegistrationRun.step sha256 dialect) w as = some t) : t.Holding x n := by
  have hthroughout : Throughout (RegistrationRun.step sha256 dialect) (Holding x n) w as :=
    throughout_of_along (fun _ hs => hs) (fun _ _ _ hs hr hstep => hs.step hdialect hr hstep) hw
      hundisturbed
  exact throughout_iff.mp hthroughout as t List.prefix_rfl hrun

/-- Who solves the challenge of a state may wait for one refresh of it and then register. Once the
database has stored the row, every check that starts later finds the tenant active. -/
theorem tenancy_granted {now : ℤ} {random random' : BitVec 256}
    {readFileSync : JsString → Eval JsString} {earlier : List RegisteredTenant}
    {input : RegistrationManager.Input} {m : RegistrationManager} {p : ProofOfWorkManager}
    (hdialect : dialect.Documented) (hdid : isPlainText x.did = true)
    (hcreate : RegistrationManager.create sha256 now random random' readFileSync
      (RegistrationStore.ofStored earlier) input = .ok m)
    (hstore : input.registrationStoreUrl.getD [] ≠ [])
    (hterms : input.termsOfServiceFilePath ≠ none)
    (hseed : input.proofOfWorkChallengeNonceSeed = none)
    (hdigits : ProofOfWorkManager.isHexString (input.proofOfWorkInitialMaximumAllowedHash.getD
      ProofOfWorkManager.defaultMaximumAllowedHashValue) = true)
    (hlength : (input.proofOfWorkInitialMaximumAllowedHash.getD
      ProofOfWorkManager.defaultMaximumAllowedHashValue).length ≤ 64)
    (hp : m.proofOfWorkManager = some p) (hI : 1 ≤ p.initialMaximumAllowedHashValueAsBigInt)
    {past mid front back : List RegistrationAction} {u' s s' : RegistrationRun}
    (hpast : run (step sha256 dialect) ⟨m, now, [], earlier⟩ past = some v)
    (hsolves : x.Solves sha256 v) (hmid : run (step sha256 dialect) v mid = some u)
    (hspares : Along (step sha256 dialect) (fun s a _ => x.Spares s a) v mid)
    (hrefreshes : mid.countP isChallengeRefresh ≤ 1)
    (hrequest : u.step sha256 dialect (.handleRegistrationRequest x.request) = some u')
    (hfront : run (step sha256 dialect) u' front = some s)
    (hwaits : ∀ a ∈ front, Waits u.calls.length a)
    (hsettles : s.step sha256 dialect (.storeSettles u.calls.length (.ok ())) = some s')
    (hback : run (step sha256 dialect) s' back = some t)
    (hundisturbed : Along (step sha256 dialect) (fun s a _ => x.Undisturbed dialect s a) s' back) :
    t.calls[u.calls.length]? = some .registered ∧
      ∀ i result, s'.calls.length ≤ i → t.calls[i]? = some (.checked x.did result) →
        result.isActiveTenant = true := by
  have hcreated := RegistrationManager.proofOfWorkManager_of_create hcreate hp
  obtain ⟨ho, hgrounded⟩ := grounded_of_create hcreate hstore hterms hp hI
  obtain ⟨initial, nonces, hofHex, hoptions⟩ := ProofOfWorkManager.create_eq hcreated
    (by rw [ProofOfWorkManager.desiredSolveCountPerMinute_of_create hcreated]
        norm_num [RegistrationManager.Input.proofOfWork])
  have hnoseed : p.challengeSeed = none := by
    rw [hoptions]
    exact hseed
  -- the client meets the state after `past`
  have hv := hgrounded.run ho hpast
  obtain ⟨q, bs, accepted, hq, hbs⟩ := proofOfWork_run hp hpast
  obtain ⟨q', hq', hscaled⟩ := hv.scaled
  obtain rfl := Option.some.inj (hq.symm.trans hq')
  have hlt : q.currentMaximumAllowedHashValueAsBigInt < 2 ^ 256 := by
    refine hscaled.maximum_bounds.2.trans_lt ?_
    rw [hoptions]
    exact ProofOfWorkManager.ofHex_lt hdigits hlength hofHex
  have hnonce := ProofOfWorkRun.currentChallengeNonce_ne_nil hcreated hbs
  obtain ⟨hstands, hnenil, hformat⟩ := standing_of_solves hq hscaled hlt hnonce hsolves
  -- it sends its request
  have hstands' := hstands.after_run ho hnoseed hmid hspares
  obtain ⟨hcall, hagreed, -⟩ := hstands'.accepted hrefreshes hnenil hformat hrequest
  -- the row is stored
  obtain ⟨hstoring, hsame⟩ := waiting_run hcall hwaits hfront
  have hconsistent : s.Consistent := by
    have hu := (hv.run ho hmid).consistent.step hrequest
    exact hu.after_run hfront
  have hplain : v.manager.HasPlainTerms :=
    run_invariant (I := fun s : RegistrationRun => s.manager.HasPlainTerms)
      (fun _ _ _ hs hstep => hasPlainTerms_step hs hstep)
      (RegistrationManager.hasPlainTerms_of_create hcreate) hpast
  have hrow : dialect x.registrationData = some [x.row] :=
    hdialect.declared _ _ (x.declaredRow_registrationData hdid (hplain _ hsolves.terms))
  obtain ⟨hregistered, hholds⟩ :=
    holding_of_settles hrow hconsistent (hsame.trans hagreed) hstoring hsettles
  exact ⟨registered_run hregistered hback, fun i result hi hcall =>
    (hholds.after_run hdialect hundisturbed hback).calls i _ hi hcall rfl⟩

/-- The attempt of `did:a`, where every hash is zero and the manager drew the bytes 1. -/
def attemptOfA : Attempt :=
  ⟨js "did:a", ProofOfWork.generateNonce 1, ProofOfWork.generateNonce 7, zeros⟩

/-- A client that registers after a refresh, and asks once its row is stored. -/
theorem tenancy_granted_active :
    ∃ m, RegistrationManager.create (fun _ => 0) 0 0 1 (fun _ => .ok (js "terms"))
        (RegistrationStore.ofStored []) (config (some (js "terms.txt"))) = .ok m ∧
      ∃ u u' s s' t result,
        run (step (fun _ => 0) .strict) ⟨m, 0, [], []⟩
          [.refreshChallengeNonce 5, .clock 3] = some u ∧
        u.step (fun _ => 0) .strict (.handleRegistrationRequest attemptOfA.request) =
          some u' ∧
        run (step (fun _ => 0) .strict) u' [.clock 3] = some s ∧
        s.step (fun _ => 0) .strict (.storeSettles u.calls.length (.ok ())) = some s' ∧
        run (step (fun _ => 0) .strict) s'
          [.isActiveTenant (js "did:a"), .readSettles 1 (.ok ()), .answer 1] = some t ∧
        t.calls[1]? = some (.checked (js "did:a") result) ∧
        result.isActiveTenant = true := by
  obtain ⟨m, hm, hany, hterms, hany'⟩ := Eval.exists_of_any
    (x := RegistrationManager.create (fun _ => 0) 0 0 1 (fun _ => .ok (js "terms"))
      (RegistrationStore.ofStored []) (config (some (js "terms.txt"))))
    (P := fun m => m.proofOfWorkManager.any (fun p => decide
        (1 ≤ p.initialMaximumAllowedHashValueAsBigInt ∧
          attemptOfA.challengeNonce = p.getProofOfWorkChallenge.challengeNonce ∧
          (ProofOfWork.findQualifiedResponseNonce (fun _ => 0)
            p.getProofOfWorkChallenge.maximumAllowedHashValue attemptOfA.challengeNonce
            attemptOfA.registrationData.stringify [7]).toOption =
              some (some attemptOfA.responseNonce) ∧
          p.proofOfWorkOfLastMinute.get? attemptOfA.responseNonce = none)) = true ∧
      m.termsOfServiceHash = some attemptOfA.termsOfServiceHash ∧
      ((run (step (fun _ => 0) .strict) ⟨m, 0, [], []⟩
          [.refreshChallengeNonce 5, .clock 3]).any fun u =>
        (u.step (fun _ => 0) .strict (.handleRegistrationRequest attemptOfA.request)).any
          fun u' => (run (step (fun _ => 0) .strict) u' [.clock 3]).any fun s =>
            (s.step (fun _ => 0) .strict (.storeSettles u.calls.length (.ok ()))).any
              fun s' => (run (step (fun _ => 0) .strict) s'
                [.isActiveTenant (js "did:a"), .readSettles 1 (.ok ()), .answer 1]).any
                  fun t => decide (s'.calls.length = 1 ∧ t.calls[1]? =
                    some (.checked (js "did:a") ⟨true, none⟩)))
        = true)
    (by decide +kernel)
  obtain ⟨p, hp, hsolved⟩ := (Option.any_eq_true _ _).mp hany
  obtain ⟨hinitial, hchallenge, hfound, hfresh⟩ := of_decide_eq_true hsolved
  obtain ⟨u, hmid, hany'⟩ := (Option.any_eq_true _ _).mp hany'
  obtain ⟨u', hrequest, hany'⟩ := (Option.any_eq_true _ _).mp hany'
  obtain ⟨s, hfront, hany'⟩ := (Option.any_eq_true _ _).mp hany'
  obtain ⟨s', hsettles, hany'⟩ := (Option.any_eq_true _ _).mp hany'
  obtain ⟨t, hback, hasked⟩ := (Option.any_eq_true _ _).mp hany'
  obtain ⟨hlength, hchecked⟩ := of_decide_eq_true hasked
  have hsolves : attemptOfA.Solves (fun _ => 0) ⟨m, 0, [], []⟩ := by
    refine ⟨hterms, p, [7], hp, hchallenge, ?_, hfresh⟩
    generalize ProofOfWork.findQualifiedResponseNonce _ _ _ _ _ = found at hfound ⊢
    cases found with
    | error e => cases hfound
    | ok r => exact congrArg Except.ok (Option.some.inj hfound)
  obtain ⟨-, hactive⟩ := tenancy_granted UpsertDialect.documented_strict (by decide) hm
    (by decide) (by decide) rfl (by decide) (by decide) hp
    hinitial (run_nil _ _) hsolves hmid (fun _ _ => ⟨trivial, fun _ _ => ⟨trivial, trivial⟩⟩)
    (by decide) hrequest hfront (by simp [Waits]) hsettles hback
    (fun _ _ => ⟨trivial, fun _ _ => ⟨trivial, fun _ _ => ⟨trivial, trivial⟩⟩⟩)
  exact ⟨m, hm, u, u', s, s', t, _, hmid, hrequest, hfront, hsettles, hback, hchecked,
    hactive 1 _ hlength.le hchecked⟩

end RegistrationRun

end DwnServer
