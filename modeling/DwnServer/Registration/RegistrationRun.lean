import DwnServer.Library.Transition
import DwnServer.Registration.RegistrationManager

/-!
# Runs of a `RegistrationManager`

Calls wait for the database, and any number of them wait at a time. A call that waits is
resumed when its query settles; a query that succeeds is executed at that moment. Between
its query and its answer, `isActiveTenant` can be overtaken once more. A run remembers the rows
that were stored.
-/
namespace DwnServer

/-- How far a call has come. `checking` carries the row that was read. -/
inductive RegistrationCall where
  | storing (registrationData : Json)
  | registered
  | rejected (error : ServerThrown)
  | reading (tenant : JsString)
  | checking (tenant : JsString) (read : Option RegisteredTenant)
  | checked (tenant : JsString) (result : ActiveTenantCheckResult)
  | openForAll (tenant : JsString)
  deriving DecidableEq

structure RegistrationRun where
  manager : RegistrationManager
  now : ℤ
  calls : List RegistrationCall
  stored : List RegisteredTenant
  deriving DecidableEq

inductive RegistrationAction where
  | clock (elapsed : ℕ)
  | refreshChallengeNonce (random : BitVec 256)
  | refreshMaximumAllowedHashValue
  | updateTermsOfService (termsOfService : JsString)
  | handleRegistrationRequest (registrationRequest : Json)
  | storeSettles (call : ℕ) (outcome : Except JsString Unit)
  | isActiveTenant (tenant : JsString)
  | readSettles (call : ℕ) (outcome : Except JsString Unit)
  | answer (call : ℕ)

namespace RegistrationRun

variable (sha256 : Sha256) (dialect : UpsertDialect)

def setCall (w : RegistrationRun) (i : ℕ) (call : RegistrationCall) : RegistrationRun :=
  { w with calls := w.calls.set i call }

def begin (w : RegistrationRun) (call : RegistrationCall) : RegistrationRun :=
  { w with calls := w.calls ++ [call] }

/-- The upsert of a registration; a statement that is refused stores nothing. -/
def store (w : RegistrationRun) (i : ℕ) (registrationData : Json)
    (store : RegistrationStore) : RegistrationRun :=
  match dialect registrationData with
  | some tenants =>
    { w.setCall i .registered with
      manager := { w.manager with
        registrationStore := some (store.insertOrUpdateTenantRegistration tenants) }
      stored := w.stored ++ tenants }
  | none => w.setCall i (.rejected .engine)

def step (w : RegistrationRun) : RegistrationAction → Option RegistrationRun
  | .clock elapsed => some { w with now := w.now + elapsed }
  | .refreshChallengeNonce random =>
    some { w with manager := { w.manager with
      proofOfWorkManager :=
        w.manager.proofOfWorkManager.map fun m => m.refreshChallengeNonce sha256 w.now random } }
  | .refreshMaximumAllowedHashValue =>
    some { w with manager := { w.manager with
      proofOfWorkManager :=
        w.manager.proofOfWorkManager.map fun m => (m.refreshMaximumAllowedHashValue w.now).1 } }
  | .updateTermsOfService termsOfService =>
    some { w with manager := w.manager.updateTermsOfService sha256 termsOfService }
  | .handleRegistrationRequest registrationRequest =>
    match w.manager.handleRegistrationRequest sha256 w.now registrationRequest with
    | .ok (manager, registrationData) =>
      some ({ w with manager }.begin (.storing registrationData))
    | .error error => some (w.begin (.rejected error))
  | .storeSettles i outcome =>
    match w.calls[i]?, outcome, w.manager.registrationStore with
    | some (.storing registrationData), .ok _, some store =>
      some (w.store dialect i registrationData store)
    | some (.storing _), .ok _, none => some (w.setCall i (.rejected .engine))
    | some (.storing _), .error message, _ => some (w.setCall i (.rejected (.foreign message)))
    | _, _, _ => none
  | .isActiveTenant tenant =>
    match w.manager.registrationStore with
    | some _ => some (w.begin (.reading tenant))
    | none => some (w.begin (.openForAll tenant))
  | .readSettles i outcome =>
    match w.calls[i]?, outcome, w.manager.registrationStore with
    | some (.reading tenant), .ok _, some store =>
      some (w.setCall i (.checking tenant (store.getTenantRegistration tenant)))
    | some (.reading _), .error message, _ => some (w.setCall i (.rejected (.foreign message)))
    | _, _, _ => none
  | .answer i =>
    match w.calls[i]? with
    | some (.checking tenant read) =>
      some (w.setCall i (.checked tenant (w.manager.checkTenant read)))
    | _ => none

/-! ## What a step does -/

variable {sha256 : Sha256} {dialect : UpsertDialect} {w t : RegistrationRun}
  {a : RegistrationAction}

/-- The calls that a step can begin, or bring to their next stage. -/
inductive Yields (w : RegistrationRun) : RegistrationCall → Prop
  | storing (registrationData : Json) : Yields w (.storing registrationData)
  | registered : Yields w .registered
  | rejected (error : ServerThrown) : Yields w (.rejected error)
  | reading (tenant : JsString) : Yields w (.reading tenant)
  | openForAll {tenant : JsString} (h : w.manager.registrationStore = none) :
      Yields w (.openForAll tenant)
  | checking {tenant : JsString} {store : RegistrationStore}
      (h : w.manager.registrationStore = some store) :
      Yields w (.checking tenant (store.getTenantRegistration tenant))
  | checked {tenant : JsString} {read : Option RegisteredTenant}
      (h : .checking tenant read ∈ w.calls) :
      Yields w (.checked tenant (w.manager.checkTenant read))

/-- A step changes the manager apart from its store, or begins a call, or brings one forward that
waits; a statement that is executed stores the rows of its call. Only an update changes the
terms. -/
inductive Steps (sha256 : Sha256) (dialect : UpsertDialect) (w t : RegistrationRun) :
    RegistrationAction → Prop
  | manages {a : RegistrationAction} {manager : RegistrationManager} {now : ℤ}
      (hstore : manager.registrationStore = w.manager.registrationStore)
      (hterms : manager.termsOfServiceHash = w.manager.termsOfServiceHash ∨
        ∃ termsOfService, a = .updateTermsOfService termsOfService ∧
          manager.termsOfServiceHash = some (ProofOfWork.hashAsHexString sha256 [termsOfService]))
      (h : t = { w with manager, now }) : Steps sha256 dialect w t a
  | begins {a : RegistrationAction} {manager : RegistrationManager} {call : RegistrationCall}
      (hstore : manager.registrationStore = w.manager.registrationStore)
      (hterms : manager.termsOfServiceHash = w.manager.termsOfServiceHash)
      (hcall : w.Yields call) (h : t = { w with manager }.begin call) : Steps sha256 dialect w t a
  | advances {a : RegistrationAction} {i : ℕ} {old call : RegistrationCall}
      (hi : w.calls[i]? = some old) (hold : old ≠ .registered) (hcall : w.Yields call)
      (h : t = w.setCall i call) : Steps sha256 dialect w t a
  | stores {i : ℕ} {outcome : Unit} {registrationData : Json} {store : RegistrationStore}
      {tenants : List RegisteredTenant} (hi : w.calls[i]? = some (.storing registrationData))
      (hstore : w.manager.registrationStore = some store)
      (hrows : dialect registrationData = some tenants)
      (h : t = { w.setCall i .registered with
        manager := { w.manager with
          registrationStore := some (store.insertOrUpdateTenantRegistration tenants) }
        stored := w.stored ++ tenants }) : Steps sha256 dialect w t (.storeSettles i (.ok outcome))

theorem steps (h : w.step sha256 dialect a = some t) : w.Steps sha256 dialect t a := by
  cases a with
  | clock | refreshChallengeNonce | refreshMaximumAllowedHashValue =>
    refine .manages ?_ (Or.inl ?_) (Option.some.inj h).symm <;> rfl
  | updateTermsOfService termsOfService =>
    refine .manages ?_ (Or.inr ⟨termsOfService, rfl, ?_⟩) (Option.some.inj h).symm <;> rfl
  | handleRegistrationRequest registrationRequest =>
    simp only [step] at h
    split at h
    · rename_i hhandle
      obtain ⟨-, -, p, p', -, -, rfl⟩ := RegistrationManager.handleRegistrationRequest_ok hhandle
      refine .begins ?_ ?_ (.storing _) (Option.some.inj h).symm <;> rfl
    · exact .begins rfl rfl (.rejected _) (Option.some.inj h).symm
  | storeSettles i outcome =>
    simp only [step] at h
    split at h
    · rename_i hi hstore
      obtain rfl := Option.some.inj h
      unfold RegistrationRun.store
      split
      · rename_i hrows
        exact .stores hi hstore hrows rfl
      · exact .advances hi (by simp) (.rejected _) rfl
    · rename_i hi _
      exact .advances hi (by simp) (.rejected _) (Option.some.inj h).symm
    · rename_i hi
      exact .advances hi (by simp) (.rejected _) (Option.some.inj h).symm
    · cases h
  | isActiveTenant tenant =>
    simp only [step] at h
    split at h
    · exact .begins rfl rfl (.reading tenant) (Option.some.inj h).symm
    · rename_i hstore
      exact .begins rfl rfl (.openForAll hstore) (Option.some.inj h).symm
  | readSettles i outcome =>
    simp only [step] at h
    split at h
    · rename_i hi hstore
      exact .advances hi (by simp) (.checking hstore) (Option.some.inj h).symm
    · rename_i hi
      exact .advances hi (by simp) (.rejected _) (Option.some.inj h).symm
    · cases h
  | answer i =>
    simp only [step] at h
    split at h
    · rename_i hi
      exact .advances hi (by simp) (.checked (List.mem_of_getElem? hi)) (Option.some.inj h).symm
    · cases h

/-- The terms in force stay, or are those of an update. -/
theorem termsOfServiceHash_cases (h : w.step sha256 dialect a = some t) :
    t.manager.termsOfServiceHash = w.manager.termsOfServiceHash ∨
      ∃ termsOfService, a = .updateTermsOfService termsOfService ∧ t.manager.termsOfServiceHash =
        some (ProofOfWork.hashAsHexString sha256 [termsOfService]) := by
  cases steps h with
  | manages hstore hterms ht =>
    rw [ht]
    exact hterms
  | begins hstore hterms hcall ht =>
    rw [ht]
    exact Or.inl hterms
  | advances hi hold hcall ht =>
    rw [ht]
    exact Or.inl rfl
  | stores hi hstore hrows ht =>
    rw [ht]
    exact Or.inl rfl

/-- Terms that are in force are never taken out of force. -/
theorem terms_step (hw : w.manager.termsOfServiceHash ≠ none)
    (h : w.step sha256 dialect a = some t) : t.manager.termsOfServiceHash ≠ none := by
  rcases termsOfServiceHash_cases h with hsame | ⟨termsOfService, -, hupdate⟩
  · exact hsame.trans_ne hw
  · simp [hupdate]

theorem hasPlainTerms_step (hw : w.manager.HasPlainTerms)
    (h : w.step sha256 dialect a = some t) : t.manager.HasPlainTerms := by
  intro hash hhash
  rcases termsOfServiceHash_cases h with hsame | ⟨termsOfService, -, hupdate⟩
  · exact hw hash (hsame.symm.trans hhash)
  · obtain rfl := Option.some.inj (hupdate.symm.trans hhash)
    exact RegistrationManager.isPlainText_hashAsHexString sha256 [termsOfService]

/-- A query that settles is executed and registers the tenants of its call, or it rejects the call
and changes nothing else. -/
theorem storeSettles_cases {i : ℕ} {outcome : Except JsString Unit}
    (h : w.step sha256 dialect (.storeSettles i outcome) = some t) :
    ∃ registrationData, w.calls[i]? = some (.storing registrationData) ∧
      ((∃ store tenants, w.manager.registrationStore = some store ∧
          dialect registrationData = some tenants ∧ t.stored = w.stored ++ tenants ∧
          t.calls = w.calls.set i .registered) ∨
        ∃ error, t = w.setCall i (.rejected error)) := by
  simp only [step] at h
  split at h
  · rename_i registrationData _ store hi hstore
    obtain rfl := Option.some.inj h
    refine ⟨registrationData, hi, ?_⟩
    unfold RegistrationRun.store
    split
    · rename_i tenants hrows
      exact Or.inl ⟨store, tenants, hstore, hrows, rfl, rfl⟩
    · exact Or.inr ⟨_, rfl⟩
  · rename_i hi _
    exact ⟨_, hi, Or.inr ⟨_, (Option.some.inj h).symm⟩⟩
  · rename_i hi
    exact ⟨_, hi, Or.inr ⟨_, (Option.some.inj h).symm⟩⟩
  · cases h

/-- The call that an action resumes. -/
def resumes? : RegistrationAction → Option ℕ
  | .storeSettles i _ | .readSettles i _ | .answer i => some i
  | _ => none

/-- A step leaves alone the calls that it does not resume. -/
theorem getElem?_of_resumes {n : ℕ} (hn : n < w.calls.length)
    (h : w.step sha256 dialect a = some t) (ha : resumes? a ≠ some n) :
    t.calls[n]? = w.calls[n]? := by
  have hset : ∀ {i : ℕ} {call : RegistrationCall}, i ≠ n →
      (w.calls.set i call)[n]? = w.calls[n]? := fun hne => List.getElem?_set_ne hne
  cases a with
  | clock | refreshChallengeNonce | refreshMaximumAllowedHashValue | updateTermsOfService =>
    obtain rfl := Option.some.inj h
    rfl
  | handleRegistrationRequest | isActiveTenant =>
    simp only [step] at h
    split at h <;> obtain rfl := Option.some.inj h <;> exact List.getElem?_append_left hn
  | storeSettles i outcome =>
    have hne : i ≠ n := fun heq => ha (congrArg some heq)
    obtain ⟨-, -, ⟨-, -, -, -, -, hcalls⟩ | ⟨error, rfl⟩⟩ := storeSettles_cases h
    · rw [hcalls]
      exact hset hne
    · exact hset hne
  | readSettles i | answer i =>
    have hne : i ≠ n := fun heq => ha (congrArg some heq)
    simp only [step] at h
    split at h <;> first
      | cases h; done
      | obtain rfl := Option.some.inj h
        exact hset hne

theorem length_calls_step (h : w.step sha256 dialect a = some t) :
    w.calls.length ≤ t.calls.length := by
  cases steps h with
  | manages hstore hterms ht =>
    rw [ht]
  | begins hstore hterms hcall ht =>
    rw [ht]
    simp [begin]
  | advances hi hold hcall ht =>
    rw [ht]
    simp [setCall]
  | stores hi hstore hrows ht =>
    rw [ht]
    simp [setCall]

/-- A step stores some rows, and begins or advances a call. -/
structure Stepped (w t : RegistrationRun) : Prop where
  stored : ∃ tenants, t.stored = w.stored ++ tenants ∧
    t.manager.registrationStore =
      w.manager.registrationStore.map (·.insertOrUpdateTenantRegistration tenants)
  calls : ∀ call ∈ t.calls, call ∈ w.calls ∨ w.Yields call

theorem Stepped.of_manager {manager : RegistrationManager} {now : ℤ}
    (h : manager.registrationStore = w.manager.registrationStore) :
    w.Stepped { w with manager, now } :=
  ⟨⟨[], by simp [h, RegistrationStore.insertOrUpdateTenantRegistration]⟩, fun _ => Or.inl⟩

theorem Stepped.begin {manager : RegistrationManager} {call : RegistrationCall}
    (h : manager.registrationStore = w.manager.registrationStore) (hcall : w.Yields call) :
    w.Stepped ({ w with manager }.begin call) := by
  refine ⟨⟨[], by
    simp [h, RegistrationRun.begin, RegistrationStore.insertOrUpdateTenantRegistration]⟩,
    fun call' hcall' => ?_⟩
  rcases List.mem_append.mp hcall' with hold | hnew
  · exact Or.inl hold
  · exact Or.inr (List.mem_singleton.mp hnew ▸ hcall)

theorem mem_setCall {i : ℕ} {call call' : RegistrationCall} (hcall : w.Yields call)
    (h : call' ∈ (w.setCall i call).calls) : call' ∈ w.calls ∨ w.Yields call' := by
  rcases List.mem_or_eq_of_mem_set h with hold | rfl
  · exact Or.inl hold
  · exact Or.inr hcall

theorem Stepped.setCall {i : ℕ} {call : RegistrationCall} (hcall : w.Yields call) :
    w.Stepped (w.setCall i call) :=
  ⟨⟨[], by simp [RegistrationRun.setCall, RegistrationStore.insertOrUpdateTenantRegistration]⟩,
    fun _ => mem_setCall hcall⟩

theorem stepped (h : w.step sha256 dialect a = some t) : w.Stepped t := by
  cases steps h with
  | manages hstore hterms ht =>
    rw [ht]
    exact .of_manager hstore
  | begins hstore hterms hcall ht =>
    rw [ht]
    exact .begin hstore hcall
  | advances hi hold hcall ht =>
    rw [ht]
    exact .setCall hcall
  | stores hi hstore hrows ht =>
    rw [ht]
    exact ⟨⟨_, rfl, by simp [hstore]⟩, fun _ => mem_setCall .registered⟩

end RegistrationRun

end DwnServer
