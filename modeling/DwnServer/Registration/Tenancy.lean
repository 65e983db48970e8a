import DwnServer.Registration.ActiveTenant
import DwnServer.Registration.DifficultyStep
import DwnServer.Registration.StoredRows

/-!
# Tenancy is earned

While terms of service are in force, every row of the table goes back to a request that was
accepted with the work for its own data, and an active tenant to one that agreed to the terms in
force. So there are no more tenants than there were different registrations with work.
-/
namespace DwnServer

open Transition

namespace RegistrationRun

variable (sha256 : Sha256) (dialect : UpsertDialect)

/-- The data of the request that a step accepts. -/
def acceptedData? (w : RegistrationRun) : RegistrationAction → Option Json
  | .handleRegistrationRequest registrationRequest =>
    (w.manager.handleRegistrationRequest sha256 w.now registrationRequest).toOption.map Prod.snd
  | _ => none

/-- The data of the requests that a run accepts. -/
def acceptedData : RegistrationRun → List RegistrationAction → List Json :=
  outputs (step sha256 dialect) (acceptedData? sha256)

variable {sha256 dialect} {start v w t : RegistrationRun} {a : RegistrationAction}
  {as : List RegistrationAction} {request registrationData : Json}

theorem Accepts.mem_acceptedData (h : Accepts sha256 dialect start as v request registrationData) :
    registrationData ∈ acceptedData sha256 dialect start as := by
  obtain ⟨front, back, manager, rfl, hfront, hhandle⟩ := h
  refine mem_outputs_of_step hfront ?_
  simp [acceptedData?, hhandle, Except.toOption]

/-! ## What a step does to the proofs of work -/

theorem store_kept (i : ℕ) (registrationData : Json) (store : RegistrationStore) :
    (w.store dialect i registrationData store).manager.proofOfWorkManager =
        w.manager.proofOfWorkManager ∧
      (w.store dialect i registrationData store).now = w.now := by
  unfold RegistrationRun.store
  split <;> exact ⟨rfl, rfl⟩

def isChallengeRefresh : RegistrationAction → Bool
  | .refreshChallengeNonce _ => true
  | _ => false

/-- What an action does to the manager of proofs of work and to the clock. -/
inductive Proves (sha256 : Sha256) (p : ProofOfWorkManager) (now : ℤ) :
    RegistrationAction → ProofOfWorkManager → ℤ → Prop
  | kept {a : RegistrationAction} (h : isChallengeRefresh a = false) : Proves sha256 p now a p now
  | clock (elapsed : ℕ) : Proves sha256 p now (.clock elapsed) p (now + elapsed)
  | nonces (random : BitVec 256) : Proves sha256 p now (.refreshChallengeNonce random)
      (p.refreshChallengeNonce sha256 now random) now
  | evaluates : Proves sha256 p now .refreshMaximumAllowedHashValue
      (p.refreshMaximumAllowedHashValue now).1 now
  | records {request : Json} {requestData : JsString} {q : ProofOfWorkManager}
      (h : p.verifyProofOfWork sha256 now
        ((request.own (js "proofOfWork")).readOptional "challengeNonce")
        ((request.own (js "proofOfWork")).readOptional "responseNonce") requestData = .ok q) :
      Proves sha256 p now (.handleRegistrationRequest request) q now

theorem proves {p : ProofOfWorkManager} (hp : w.manager.proofOfWorkManager = some p)
    (h : w.step sha256 dialect a = some t) :
    ∃ q, t.manager.proofOfWorkManager = some q ∧ Proves sha256 p w.now a q t.now := by
  have hkept : t.manager.proofOfWorkManager = w.manager.proofOfWorkManager → t.now = w.now →
      isChallengeRefresh a = false →
        ∃ q, t.manager.proofOfWorkManager = some q ∧ Proves sha256 p w.now a q t.now :=
    fun hsame hnow ha => ⟨p, hsame.trans hp, hnow ▸ .kept ha⟩
  cases a with
  | clock elapsed =>
    obtain rfl := Option.some.inj h
    exact ⟨p, hp, .clock elapsed⟩
  | refreshChallengeNonce random =>
    obtain rfl := Option.some.inj h
    exact ⟨_, by simp only [hp, Option.map_some], .nonces random⟩
  | refreshMaximumAllowedHashValue =>
    obtain rfl := Option.some.inj h
    exact ⟨_, by simp only [hp, Option.map_some], .evaluates⟩
  | updateTermsOfService =>
    obtain rfl := Option.some.inj h
    exact hkept rfl rfl rfl
  | handleRegistrationRequest request =>
    simp only [step] at h
    split at h
    · rename_i hhandle
      obtain rfl := Option.some.inj h
      obtain ⟨-, -, p', q, hp', hverify, rfl⟩ :=
        RegistrationManager.handleRegistrationRequest_ok hhandle
      obtain rfl := Option.some.inj (hp.symm.trans hp')
      exact ⟨q, rfl, .records hverify⟩
    · obtain rfl := Option.some.inj h
      exact hkept rfl rfl rfl
  | storeSettles i outcome =>
    simp only [step] at h
    split at h
    · obtain rfl := Option.some.inj h
      exact hkept (store_kept i _ _).1 (store_kept i _ _).2 rfl
    · obtain rfl := Option.some.inj h
      exact hkept rfl rfl rfl
    · obtain rfl := Option.some.inj h
      exact hkept rfl rfl rfl
    · cases h
  | isActiveTenant | readSettles | answer =>
    simp only [step] at h
    split at h <;> first
      | cases h; done
      | obtain rfl := Option.some.inj h
        exact hkept rfl rfl rfl

/-- It is some steps of the manager of proofs of work. -/
theorem Proves.run {p q : ProofOfWorkManager} {now now' : ℤ} (h : Proves sha256 p now a q now')
    (accepted : List Acceptance) :
    ∃ bs accepted', run (ProofOfWorkRun.step sha256) ⟨p, now, accepted⟩ bs =
      some ⟨q, now', accepted'⟩ := by
  cases h with
  | kept => exact ⟨[], accepted, rfl⟩
  | clock elapsed => exact ⟨[.clock elapsed], accepted, rfl⟩
  | nonces random => exact ⟨[.refreshChallengeNonce random], accepted, rfl⟩
  | evaluates => exact ⟨[.refreshMaximumAllowedHashValue], accepted, rfl⟩
  | @records request requestData q h =>
    have hstep : ∃ accepted', (ProofOfWorkRun.mk p now accepted).step sha256 (.verifyProofOfWork
        ((request.own (js "proofOfWork")).readOptional "challengeNonce")
        ((request.own (js "proofOfWork")).readOptional "responseNonce") requestData) =
          some ⟨q, now, accepted'⟩ := by
      simp only [ProofOfWorkRun.step, h]
      exact ⟨_, rfl⟩
    obtain ⟨accepted', hstep⟩ := hstep
    exact ⟨[_], accepted', by rw [run_cons, hstep]; rfl⟩

/-- A run of registrations is, for the manager of proofs of work, a run of its own. -/
theorem proofOfWork_run {p : ProofOfWorkManager} (hp : start.manager.proofOfWorkManager = some p)
    (hrun : run (step sha256 dialect) start as = some w) :
    ∃ q bs accepted, w.manager.proofOfWorkManager = some q ∧
      run (ProofOfWorkRun.step sha256) ⟨p, start.now, []⟩ bs = some ⟨q, w.now, accepted⟩ := by
  refine run_invariant (I := fun w : RegistrationRun => ∃ q bs accepted,
      w.manager.proofOfWorkManager = some q ∧
        run (ProofOfWorkRun.step sha256) ⟨p, start.now, []⟩ bs = some ⟨q, w.now, accepted⟩)
    (fun u a v hu hstep => ?_) ⟨p, [], [], hp, rfl⟩ hrun
  obtain ⟨q, bs, accepted, hq, hbs⟩ := hu
  obtain ⟨q', hq', hproves⟩ := proves hq hstep
  obtain ⟨more, accepted', hmore⟩ := hproves.run accepted
  exact ⟨q', bs ++ more, accepted', hq', by rw [run_append, hbs]; exact hmore⟩

/-! ## Where registrations come from -/

/-- A row that was stored in a run was written for data that the run accepted. -/
theorem accepts_of_stored (hdialect : dialect.Documented) (hstart : start.calls = [])
    (hrun : run (step sha256 dialect) start as = some w) {tenant : RegisteredTenant}
    (htenant : tenant ∈ w.stored) : tenant ∈ start.stored ∨ ∃ v request registrationData tenants,
      Accepts sha256 dialect start as v request registrationData ∧
        dialect registrationData = some tenants ∧ tenant ∈ tenants := by
  rw [stored_eq hdialect hrun] at htenant
  refine (List.mem_append.mp htenant).imp_right fun hnew => ?_
  obtain ⟨data, hdata, hmem⟩ := List.mem_flatMap.mp hnew
  obtain ⟨v, request, haccepts⟩ := accepts_of_succeeded hrun hstart hdata
  rw [tenantsOf_eq hdialect] at hmem
  cases hrows : dialect data with
  | none =>
    rw [hrows] at hmem
    cases hmem
  | some tenants =>
    rw [hrows] at hmem
    exact ⟨v, request, data, tenants, haccepts, hrows, hmem⟩

/-- The rows that calls have read were stored. -/
def ReadsStored (w : RegistrationRun) : Prop :=
  ∀ tenant row, .checking tenant (some row) ∈ w.calls → row ∈ w.stored ∧ row.did = some tenant

theorem ReadsStored.step (hw : w.ReadsStored) (hconsistent : w.Consistent)
    (h : w.step sha256 dialect a = some t) : t.ReadsStored := by
  intro tenant row hcall
  obtain ⟨⟨tenants, hstored, -⟩, hcalls⟩ := stepped h
  rcases hcalls _ hcall with hold | hyields
  · obtain ⟨hmem, hdid⟩ := hw tenant row hold
    exact ⟨hstored ▸ List.mem_append_left _ hmem, hdid⟩
  · generalize hread : some row = read at hyields
    cases hyields with
    | checking hstore =>
      obtain rfl := Option.some.inj (hconsistent.symm.trans hstore)
      rw [RegistrationStore.getTenantRegistration_ofStored] at hread
      obtain ⟨hash, hlatest, rfl⟩ := Option.map_eq_some_iff.mp hread.symm
      refine ⟨hstored ▸ List.mem_append_left _ ?_, rfl⟩
      exact RegistrationStore.mem_of_latestAgreement hlatest

/-! ## What an accepted registration is -/

/-- The request brings work for its data: a fresh response nonce, a challenge nonce of the moment
and a hash that meets the maximum of the moment, which is no easier than the initial one. -/
structure BringsWork (sha256 : Sha256) (initial : ℤ) (m : RegistrationManager)
    (request registrationData : Json) : Prop where
  data : request.own (js "registrationData") = some registrationData
  work : ∃ c r p, (request.own (js "proofOfWork")).readOptional "challengeNonce" =
      some (.string c) ∧
    (request.own (js "proofOfWork")).readOptional "responseNonce" = some (.string r) ∧
    m.proofOfWorkManager = some p ∧ c ∈ p.challengeNonces.acceptable ∧
    p.proofOfWorkOfLastMinute.get? r = none ∧
    ProofOfWork.hashValue sha256 c r registrationData.stringify ≤
      p.currentMaximumAllowedHashValueAsBigInt ∧
    p.currentMaximumAllowedHashValueAsBigInt ≤ initial

/-- What holds in every state of a run with terms in force. -/
structure Grounded (options : ProofOfWorkOptions) (w : RegistrationRun) : Prop where
  consistent : w.Consistent
  reads : w.ReadsStored
  terms : w.manager.termsOfServiceHash ≠ none
  scaled : ∃ p, w.manager.proofOfWorkManager = some p ∧
    ProofOfWorkRun.Scaled options ⟨p, w.now, []⟩

variable {options : ProofOfWorkOptions}

theorem Grounded.run (ho : ProofOfWorkManager.ManagesRegistrations options)
    (hstart : start.Grounded options) (hrun : run (step sha256 dialect) start as = some w) :
    w.Grounded options := by
  obtain ⟨p, hp, hscaled⟩ := hstart.scaled
  obtain ⟨q, bs, accepted, hq, hbs⟩ := proofOfWork_run hp hrun
  have hscaled' := ProofOfWorkRun.scaled_run ho hscaled hbs
  obtain ⟨hconsistent, hreads⟩ := run_invariant
    (I := fun w : RegistrationRun => w.Consistent ∧ w.ReadsStored)
    (fun _ _ _ hs hstep => ⟨hs.1.step hstep, hs.2.step hs.1 hstep⟩)
    ⟨hstart.consistent, hstart.reads⟩ hrun
  exact ⟨hconsistent, hreads,
    run_invariant (I := fun w : RegistrationRun => w.manager.termsOfServiceHash ≠ none)
      (fun _ _ _ hs hstep => terms_step hs hstep) hstart.terms hrun,
    q, hq, hscaled'.options, hscaled'.inScale, hscaled'.increment⟩

/-- A manager with a store and a file of terms starts so. -/
theorem grounded_of_create {now : ℤ} {random random' : BitVec 256}
    {readFileSync : JsString → Eval JsString} {earlier : List RegisteredTenant}
    {input : RegistrationManager.Input} {m : RegistrationManager} {p : ProofOfWorkManager}
    (hcreate : RegistrationManager.create sha256 now random random' readFileSync
      (RegistrationStore.ofStored earlier) input = .ok m)
    (hstore : input.registrationStoreUrl.getD [] ≠ [])
    (hterms : input.termsOfServiceFilePath ≠ none) (hp : m.proofOfWorkManager = some p)
    (hI : 1 ≤ p.initialMaximumAllowedHashValueAsBigInt) :
    ProofOfWorkManager.ManagesRegistrations p.toProofOfWorkOptions ∧
      Grounded p.toProofOfWorkOptions ⟨m, now, [], earlier⟩ := by
  obtain ⟨ho, hscaled, -⟩ := ProofOfWorkRun.scaled_of_create hcreate hp hI
  have hforce : m.termsOfServiceHash ≠ none := fun hnone =>
    hterms ((RegistrationManager.termsOfServiceHash_of_create hcreate hstore).mp hnone)
  exact ⟨ho, RegistrationManager.registrationStore_of_create hcreate hstore, by simp [ReadsStored],
    hforce, p, hp, hscaled⟩

theorem Grounded.bringsWork {manager : RegistrationManager} (hw : w.Grounded options)
    (h : w.manager.handleRegistrationRequest sha256 w.now request =
      .ok (manager, registrationData)) :
    BringsWork sha256 options.initialMaximumAllowedHashValueAsBigInt w.manager request
      registrationData := by
  obtain ⟨hdata, -, p, p', hp, hverify, -⟩ := RegistrationManager.handleRegistrationRequest_ok h
  obtain ⟨c, r, hc, hr, hfresh, -, hacceptable, hhash, -⟩ :=
    ProofOfWorkManager.verifyProofOfWork_eq_ok.mp hverify
  obtain ⟨q, hq, hscaled⟩ := hw.scaled
  obtain rfl := Option.some.inj (hp.symm.trans hq)
  exact ⟨hdata, c, r, p, hc, hr, hp, hacceptable, hfresh, hhash, hscaled.maximum_bounds.2⟩

/-- With terms in force, accepted data makes one row. Of the declared type, it agrees to these
terms. -/
theorem Grounded.row_of_accepted {manager : RegistrationManager} {tenants : List RegisteredTenant}
    (hdialect : dialect.Documented) (hw : w.Grounded options)
    (h : w.manager.handleRegistrationRequest sha256 w.now request =
      .ok (manager, registrationData))
    (hrows : dialect registrationData = some tenants) :
    ∃ tenant, tenants = [tenant] ∧ ∀ row, declaredRow registrationData = some row →
      row = tenant ∧ w.manager.termsOfServiceHash = row.termsOfServiceHash := by
  obtain ⟨-, hagreed, -⟩ := RegistrationManager.handleRegistrationRequest_ok h
  obtain ⟨hash, hforce⟩ := Option.ne_none_iff_exists'.mp hw.terms
  rw [hforce] at hagreed ⊢
  have hlength : tenants.length = 1 := by
    refine hdialect.object registrationData tenants ?_ hrows
    rintro elements rfl
    cases hagreed
  obtain ⟨tenant, rfl⟩ := List.length_eq_one_iff.mp hlength
  refine ⟨tenant, rfl, fun row hrow => ?_⟩
  have hsame : some [row] = some [tenant] := (hdialect.declared _ _ hrow).symm.trans hrows
  obtain ⟨rfl⟩ := hsame
  have hsame := hagreed.symm.trans (own_of_declaredRow hrow).2
  exact ⟨rfl, Option.map_injective (fun _ _ => Json.string.inj) hsame⟩

/-! ## How many rows there are -/

def isStoring : RegistrationCall → Bool
  | .storing _ => true
  | _ => false

/-- Each statement that is executed is that of a request of its own. -/
theorem succeeded_step (h : w.step sha256 dialect a = some t) :
    (w.succeeded? sha256 dialect a).toList.length + t.calls.countP isStoring ≤
      w.calls.countP isStoring + (w.acceptedData? sha256 a).toList.length := by
  have hset : ∀ {i : ℕ} {call}, i < w.calls.length → isStoring call = false →
      (w.calls.set i call).countP isStoring ≤ w.calls.countP isStoring := by
    intro i call hi hcall
    rw [List.countP_set hi, hcall]
    simp
  cases a with
  | clock | refreshChallengeNonce | refreshMaximumAllowedHashValue | updateTermsOfService =>
    obtain rfl := Option.some.inj h
    simp [succeeded?, acceptedData?]
  | handleRegistrationRequest request =>
    simp only [step] at h
    split at h
    · rename_i hhandle
      obtain rfl := Option.some.inj h
      simp [succeeded?, acceptedData?, begin, hhandle, Except.toOption, isStoring]
    · obtain rfl := Option.some.inj h
      simp [succeeded?, begin, isStoring]
  | isActiveTenant =>
    simp only [step] at h
    split at h <;> obtain rfl := Option.some.inj h <;>
      simp [succeeded?, acceptedData?, begin, isStoring]
  | storeSettles i outcome =>
    obtain ⟨data, hi, ⟨-, -, -, -, -, hcalls⟩ | ⟨error, rfl⟩⟩ := storeSettles_cases h
    · obtain ⟨hlt, hget⟩ := List.getElem?_eq_some_iff.mp hi
      have hpos : 0 < w.calls.countP isStoring :=
        List.countP_pos_iff.mpr ⟨_, List.mem_of_getElem? hi, rfl⟩
      have hone : (w.succeeded? sha256 dialect (.storeSettles i outcome)).toList.length ≤ 1 := by
        cases w.succeeded? sha256 dialect (.storeSettles i outcome) <;> simp
      rw [hcalls, List.countP_set hlt, hget]
      simp only [isStoring, if_true, Bool.false_eq_true, if_false, acceptedData?,
        Option.toList_none, List.length_nil]
      omega
    · obtain ⟨hlt, -⟩ := List.getElem?_eq_some_iff.mp hi
      simpa [succeeded?, acceptedData?, h, hi, setCall, List.getElem?_set_self hlt] using
        hset hlt rfl
  | readSettles | answer =>
    simp only [step] at h
    split at h <;> first
      | cases h; done
      | rename_i hi _
        obtain rfl := Option.some.inj h
        simpa [succeeded?, acceptedData?, setCall] using
          hset (List.getElem?_eq_some_iff.mp hi).1 rfl
      | rename_i hi
        obtain rfl := Option.some.inj h
        simpa [succeeded?, acceptedData?, setCall] using
          hset (List.getElem?_eq_some_iff.mp hi).1 rfl

theorem succeeded_length_le (hstart : start.calls = [])
    (hrun : run (step sha256 dialect) start as = some w) :
    (succeeded sha256 dialect start as).length ≤ (acceptedData sha256 dialect start as).length := by
  have hcount : (succeeded sha256 dialect start as).length + w.calls.countP isStoring ≤
      (acceptedData sha256 dialect start as).length := by
    refine run_history (I := fun past w => (succeeded sha256 dialect start past).length +
      w.calls.countP isStoring ≤ (acceptedData sha256 dialect start past).length)
      (fun past u a v hu hI hstep => ?_) (by simp [hstart, succeeded, acceptedData, outputs]) hrun
    have hmore := succeeded_step hstep
    rw [succeeded, acceptedData] at hI ⊢
    rw [outputs_append_singleton hu, outputs_append_singleton hu, List.length_append,
      List.length_append]
    omega
  omega

/-! ## Tenants -/

/-- A tenant that is found active has agreed to the terms in force, before the manager was created
or by a request that was accepted with work for the data that made its row. The table has at most
one tenant more than before for each registration that was accepted, and one row more for each
request. -/
structure Earned (sha256 : Sha256) (dialect : UpsertDialect) (initial : ℤ)
    (start : RegistrationRun) (as : List RegistrationAction) (t : RegistrationRun) : Prop where
  active : ∀ i u tenant result, t.step sha256 dialect (.answer i) = some u →
    u.calls[i]? = some (.checked tenant result) → result.isActiveTenant = true →
      ∃ hash, t.manager.termsOfServiceHash = some hash ∧
        (⟨some tenant, some hash⟩ ∈ start.stored ∨ ∃ v request registrationData,
          Accepts sha256 dialect start as v request registrationData ∧
          dialect registrationData = some [⟨some tenant, some hash⟩] ∧
          (∀ row, declaredRow registrationData = some row →
            row = ⟨some tenant, some hash⟩ ∧ v.manager.termsOfServiceHash = some hash) ∧
          BringsWork sha256 initial v.manager request registrationData)
  tenants : ∀ store, t.manager.registrationStore = some store →
    store.registeredTenants.size ≤
      start.stored.length + (acceptedData sha256 dialect start as).dedup.length
  rows : ∀ store, t.manager.registrationStore = some store →
    store.size ≤ start.stored.length + (acceptedData sha256 dialect start as).length

/-- In every run of a registration manager with a store and terms of service, tenancy is
earned. -/
theorem tenancy_earned {now : ℤ} {random random' : BitVec 256}
    {readFileSync : JsString → Eval JsString} {earlier : List RegisteredTenant}
    {input : RegistrationManager.Input} {m : RegistrationManager} {p : ProofOfWorkManager}
    (hdialect : dialect.Documented)
    (hcreate : RegistrationManager.create sha256 now random random' readFileSync
      (RegistrationStore.ofStored earlier) input = .ok m)
    (hstore : input.registrationStoreUrl.getD [] ≠ [])
    (hterms : input.termsOfServiceFilePath ≠ none) (hp : m.proofOfWorkManager = some p)
    (hI : 1 ≤ p.initialMaximumAllowedHashValueAsBigInt)
    (hrun : run (step sha256 dialect) ⟨m, now, [], earlier⟩ as = some t) :
    Earned sha256 dialect p.initialMaximumAllowedHashValueAsBigInt ⟨m, now, [], earlier⟩ as t := by
  set start : RegistrationRun := ⟨m, now, [], earlier⟩ with hstart
  obtain ⟨ho, hgrounded⟩ := grounded_of_create hcreate hstore hterms hp hI
  have ht := hgrounded.run ho hrun
  -- accepted data is written into one row
  have hwritten : ∀ {v request data}, Accepts sha256 dialect start as v request data →
      ∀ tenants, dialect data = some tenants → ∃ tenant, tenants = [tenant] ∧
        (∀ row, declaredRow data = some row →
          row = tenant ∧ v.manager.termsOfServiceHash = row.termsOfServiceHash) ∧
        BringsWork sha256 p.initialMaximumAllowedHashValueAsBigInt v.manager request data := by
    rintro v request data ⟨front, back, manager, -, hfront, hhandle⟩ tenants hrows
    have hv := hgrounded.run ho hfront
    obtain ⟨tenant, rfl, hdeclared⟩ := hv.row_of_accepted hdialect hhandle hrows
    exact ⟨tenant, rfl, hdeclared, hv.bringsWork hhandle⟩
  refine ⟨fun i u tenant result hanswer hcall hactive => ?_, fun store hstored => ?_,
    fun store hstored => ?_⟩
  · obtain ⟨read, hchecking, rfl⟩ := checked_of_answer hanswer hcall
    obtain ⟨hash, hread, hforce⟩ := (RegistrationManager.checkTenant_iff _ _).mp hactive
    obtain ⟨row, rfl, hhash⟩ := Option.map_eq_some_iff.mp hread
    obtain ⟨hmem, hdid⟩ := ht.reads tenant row (List.mem_of_getElem? hchecking)
    obtain rfl : row = ⟨some tenant, some hash⟩ := by
      cases row
      simp_all
    refine ⟨hash, hforce, ?_⟩
    rcases accepts_of_stored hdialect rfl hrun hmem with
      hearlier | ⟨v, request, data, tenants, haccepts, hrows, hmem⟩
    · exact Or.inl hearlier
    · obtain ⟨row, rfl, hdeclared, hwork⟩ := hwritten haccepts tenants hrows
      obtain rfl := List.mem_singleton.mp hmem
      refine Or.inr ⟨v, request, data, haccepts, hrows, fun row hrow => ?_, hwork⟩
      obtain ⟨rfl, hagreed⟩ := hdeclared row hrow
      exact ⟨rfl, hagreed⟩
  · obtain rfl := Option.some.inj (ht.consistent.symm.trans hstored)
    have hkeys : (RegistrationStore.ofStored t.stored).registeredTenants.keys.map some ⊆
        earlier.map (·.did) ++ (acceptedData sha256 dialect start as).dedup.map
          fun data => ((dialect data).getD []).head?.bind (·.did) := by
      intro did hdid
      obtain ⟨key, hkey, rfl⟩ := List.mem_map.mp hdid
      obtain ⟨tenant, htenant, hsame⟩ :=
        List.mem_map.mp (RegistrationStore.mem_stored_of_key hkey)
      rcases accepts_of_stored hdialect rfl hrun htenant with
        hearlier | ⟨v, request, data, tenants, haccepts, hrows, hmem⟩
      · exact List.mem_append_left _ (List.mem_map.mpr ⟨tenant, hearlier, hsame⟩)
      · obtain ⟨row, rfl, -⟩ := hwritten haccepts tenants hrows
        obtain rfl := List.mem_singleton.mp hmem
        refine List.mem_append_right _ (List.mem_map.mpr ⟨data, ?_, by rw [hrows]; exact hsame⟩)
        exact List.mem_dedup.mpr haccepts.mem_acceptedData
    have hnodup : ((RegistrationStore.ofStored t.stored).registeredTenants.keys.map some).Nodup :=
      List.Nodup.map (Option.some_injective _)
        (RegistrationStore.ofStored t.stored).registeredTenants.nodup
    have hlength := (hnodup.subperm hkeys).length_le
    simpa [OrderedMap.size, OrderedMap.keys] using hlength
  · obtain rfl := Option.some.inj (ht.consistent.symm.trans hstored)
    have hone : ∀ data ∈ succeeded sha256 dialect start as,
        (tenantsOf dialect data).length ≤ 1 := by
      intro data hdata
      obtain ⟨v, request, haccepts⟩ := accepts_of_succeeded hrun rfl hdata
      rw [tenantsOf_eq hdialect]
      cases hrows : dialect data with
      | none => exact Nat.zero_le 1
      | some tenants =>
        obtain ⟨row, rfl, -⟩ := hwritten haccepts tenants hrows
        exact le_rfl
    calc (RegistrationStore.ofStored t.stored).size
      _ ≤ t.stored.length := RegistrationStore.size_ofStored_le t.stored
      _ = earlier.length +
          ((succeeded sha256 dialect start as).flatMap (tenantsOf dialect)).length := by
        rw [stored_eq hdialect hrun, List.length_append]
      _ ≤ earlier.length + (succeeded sha256 dialect start as).length := by
        rw [List.length_flatMap]
        have hsum := List.sum_le_card_nsmul
          ((succeeded sha256 dialect start as).map fun data => (tenantsOf dialect data).length) 1
          (by simpa using hone)
        simpa using hsum
      _ ≤ earlier.length + (acceptedData sha256 dialect start as).length :=
        Nat.add_le_add_left (succeeded_length_le rfl hrun) _

/-- A tenant that registered for the terms in force, and is active. -/
theorem tenancy_earned_active :
    ∃ m, RegistrationManager.create (fun _ => 0) 0 0 1 (fun _ => .ok (js "terms"))
        (RegistrationStore.ofStored []) (config (some (js "terms.txt"))) = .ok m ∧
      ∃ p as w t, m.proofOfWorkManager = some p ∧
        run (step (fun _ => 0) .strict) ⟨m, 0, [], []⟩ as = some w ∧
        w.step (fun _ => 0) .strict (.answer 1) = some t ∧
        t.calls[1]? = some (.checked (js "did:a") ⟨true, none⟩) ∧
        Earned (fun _ => 0) .strict p.initialMaximumAllowedHashValueAsBigInt
          ⟨m, 0, [], []⟩ as w := by
  obtain ⟨m, hm, hany, hanswered⟩ := Eval.exists_of_any
    (x := RegistrationManager.create (fun _ => 0) 0 0 1 (fun _ => .ok (js "terms"))
      (RegistrationStore.ofStored []) (config (some (js "terms.txt"))))
    (P := fun m => m.proofOfWorkManager.any (fun p =>
        decide (1 ≤ p.initialMaximumAllowedHashValueAsBigInt)) = true ∧
      answered m (RegistrationRun.request [(js "termsOfServiceHash", .string zeros)]) (some zeros)
        ⟨true, none⟩ = true)
    (by decide +kernel)
  obtain ⟨p, hp, hinitial⟩ := (Option.any_eq_true _ _).mp hany
  obtain ⟨u, w, t, hrun, -, -, hquery, hanswer, -, hchecked⟩ := exists_of_answered hanswered
  have hasked : run (step (fun _ => 0) .strict) ⟨m, 0, [], []⟩ (registerAndAsk
      (RegistrationRun.request [(js "termsOfServiceHash", .string zeros)]) ++
        [.readSettles 1 (.ok ())]) = some w := by
    rw [run_append, hrun, Option.bind_some, run_cons, hquery]
    rfl
  exact ⟨m, hm, p, _, w, t, hp, hasked, hanswer, hchecked,
    tenancy_earned UpsertDialect.documented_strict hm (by decide) (by decide) hp
      (of_decide_eq_true hinitial) hasked⟩

end RegistrationRun

end DwnServer
