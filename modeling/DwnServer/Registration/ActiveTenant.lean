import DwnServer.Registration.StoredRows

/-!
# Active tenants

A tenant should be active exactly if the terms it last agreed to are the terms in force. A
tenant that registers while no terms are in force agrees to none, which the database keeps
as NULL and returns as `null`; the terms in force are then `undefined`, so the comparison
finds the tenant's agreement outdated.
-/
namespace DwnServer

open Transition

namespace RegistrationRun

variable (sha256 : Sha256) (dialect : UpsertDialect)

/-! ## The requests of a run -/

/-- A run accepts a request, in a state that it goes through. -/
def Accepts (start : RegistrationRun) (as : List RegistrationAction) (v : RegistrationRun)
    (request registrationData : Json) : Prop :=
  ∃ front back manager, as = front ++ .handleRegistrationRequest request :: back ∧
    run (step sha256 dialect) start front = some v ∧
    v.manager.handleRegistrationRequest sha256 v.now request = .ok (manager, registrationData)

/-- The data of the request that succeeds with a step: its rows are written. -/
def succeeded? (w : RegistrationRun) : RegistrationAction → Option Json
  | .storeSettles i outcome =>
    match w.calls[i]?,
      (w.step sha256 dialect (.storeSettles i outcome)).bind fun t => t.calls[i]? with
    | some (.storing registrationData), some .registered => some registrationData
    | _, _ => none
  | _ => none

/-- The data of the requests that succeed in a run, in the order in which they are stored. -/
def succeeded : RegistrationRun → List RegistrationAction → List Json :=
  outputs (step sha256 dialect) (succeeded? sha256 dialect)

/-- The tenants that a request registers, each with the hash it agrees to: the `did` and the
`termsOfServiceHash` of its data, where this is of the declared type. -/
def tenantsOf (registrationData : Json) : List RegisteredTenant :=
  (declaredRow registrationData).elim ((dialect registrationData).getD []) ([·])

variable {sha256 dialect} {start u v w t : RegistrationRun} {a : RegistrationAction}
  {past as : List RegistrationAction} {registrationData : Json}

theorem Accepts.append {request : Json}
    (h : Accepts sha256 dialect start past v request registrationData)
    (more : List RegistrationAction) :
    Accepts sha256 dialect start (past ++ more) v request registrationData := by
  obtain ⟨front, back, manager, rfl, hfront, hhandle⟩ := h
  exact ⟨front, back ++ more, manager, by simp, hfront, hhandle⟩

/-- A call that waits to store data was begun by a request that was accepted with the data. -/
theorem storing_of_step (h : w.step sha256 dialect a = some t)
    (hcall : .storing registrationData ∈ t.calls) :
    .storing registrationData ∈ w.calls ∨ ∃ request manager,
      a = .handleRegistrationRequest request ∧
        w.manager.handleRegistrationRequest sha256 w.now request =
          .ok (manager, registrationData) := by
  have hset : ∀ {i : ℕ} {call}, call ≠ .storing registrationData →
      .storing registrationData ∈ w.calls.set i call → .storing registrationData ∈ w.calls :=
    fun hne hmem => (List.mem_or_eq_of_mem_set hmem).resolve_right fun heq => hne heq.symm
  cases a with
  | clock | refreshChallengeNonce | refreshMaximumAllowedHashValue | updateTermsOfService =>
    obtain rfl := Option.some.inj h
    exact Or.inl hcall
  | handleRegistrationRequest request =>
    simp only [step] at h
    split at h
    · rename_i manager data hhandle
      obtain rfl := Option.some.inj h
      rcases List.mem_append.mp hcall with hold | hnew
      · exact Or.inl hold
      · obtain ⟨rfl⟩ := RegistrationCall.storing.inj (List.mem_singleton.mp hnew)
        exact Or.inr ⟨request, manager, rfl, hhandle⟩
    · obtain rfl := Option.some.inj h
      exact Or.inl (by simpa [begin] using hcall)
  | isActiveTenant =>
    simp only [step] at h
    split at h <;>
    · obtain rfl := Option.some.inj h
      exact Or.inl (by simpa [begin] using hcall)
  | storeSettles i outcome =>
    obtain ⟨-, -, ⟨-, -, -, -, -, hcalls⟩ | ⟨error, rfl⟩⟩ := storeSettles_cases h
    · rw [hcalls] at hcall
      exact Or.inl (hset (by simp) hcall)
    · exact Or.inl (hset (by simp) hcall)
  | readSettles i outcome =>
    simp only [step] at h
    split at h
    · obtain rfl := Option.some.inj h
      exact Or.inl (hset (by simp) hcall)
    · obtain rfl := Option.some.inj h
      exact Or.inl (hset (by simp) hcall)
    · cases h
  | answer i =>
    simp only [step] at h
    split at h
    · obtain rfl := Option.some.inj h
      exact Or.inl (hset (by simp) hcall)
    · cases h

/-- Every call that waits to store data goes back to a request that the run accepted. -/
theorem accepts_of_storing (hrun : run (step sha256 dialect) start as = some w)
    (hstart : start.calls = []) (hcall : .storing registrationData ∈ w.calls) :
    ∃ v request, Accepts sha256 dialect start as v request registrationData := by
  have htraced : ∀ data, .storing data ∈ w.calls →
      ∃ v request, Accepts sha256 dialect start as v request data := by
    refine run_history (I := fun past w => ∀ data, .storing data ∈ w.calls →
        ∃ v request, Accepts sha256 dialect start past v request data)
      (fun past u a v hu hI hstep data hcall => ?_) (by simp [hstart]) hrun
    rcases storing_of_step hstep hcall with hold | ⟨request, manager, rfl, hhandle⟩
    · obtain ⟨v, request, haccepts⟩ := hI data hold
      exact ⟨v, request, haccepts.append _⟩
    · exact ⟨u, request, past, [], manager, rfl, hu, hhandle⟩
  exact htraced _ hcall

/-! ## What is stored -/

theorem tenantsOf_eq (hdialect : dialect.Documented) (registrationData : Json) :
    tenantsOf dialect registrationData = (dialect registrationData).getD [] := by
  unfold tenantsOf
  cases hrow : declaredRow registrationData with
  | none => rfl
  | some tenant => rw [hdialect.declared _ _ hrow]; rfl

/-- A statement that is executed writes the tenants of its request. -/
theorem succeeded?_of_stores {i : ℕ} {outcome : Except JsString Unit}
    (h : w.step sha256 dialect (.storeSettles i outcome) = some t)
    (hi : w.calls[i]? = some (.storing registrationData)) :
    t.stored = w.stored ++ (w.succeeded? sha256 dialect (.storeSettles i outcome)).toList.flatMap
      fun data => (dialect data).getD [] := by
  have hlt : i < w.calls.length := (List.getElem?_eq_some_iff.mp hi).1
  obtain ⟨data, hdata, ⟨store, tenants, -, hrows, hstored, hcalls⟩ | ⟨error, rfl⟩⟩ :=
    storeSettles_cases h
  · obtain rfl := RegistrationCall.storing.inj (Option.some.inj (hi.symm.trans hdata))
    simp [succeeded?, h, hi, hcalls, List.getElem?_set_self hlt, hstored, hrows]
  · simp [succeeded?, h, hi, setCall, List.getElem?_set_self hlt]

/-- The table was filled by the requests that succeeded. -/
theorem stored_eq (hdialect : dialect.Documented)
    (hrun : run (step sha256 dialect) start as = some w) :
    w.stored = start.stored ++ (succeeded sha256 dialect start as).flatMap (tenantsOf dialect) := by
  have htenants : tenantsOf dialect = fun data => (dialect data).getD [] :=
    funext (tenantsOf_eq hdialect)
  rw [htenants]
  refine run_history (I := fun past w => w.stored = start.stored ++
    (succeeded sha256 dialect start past).flatMap fun data => (dialect data).getD [])
    (fun past u a v hu hI hstep => ?_) (by simp [succeeded, outputs]) hrun
  rw [succeeded, outputs_append_singleton hu, List.flatMap_append, ← List.append_assoc, ← succeeded,
    ← hI]
  rcases step_rows hstep with ⟨hsame, -⟩ | ⟨i, outcome, data, -, -, rfl, hi, -⟩
  · cases a with
    | storeSettles i outcome =>
      obtain ⟨data, hi, -⟩ := storeSettles_cases hstep
      exact succeeded?_of_stores hstep hi
    | _ => simp [succeeded?, hsame]
  · exact succeeded?_of_stores hstep hi

/-- The table holds what was stored. -/
def Consistent (w : RegistrationRun) : Prop :=
  w.manager.registrationStore = some (RegistrationStore.ofStored w.stored)

theorem Consistent.step (hw : w.Consistent) (h : w.step sha256 dialect a = some t) :
    t.Consistent := by
  obtain ⟨⟨tenants, hstored, hstore⟩, -⟩ := stepped h
  rw [Consistent, hstored, RegistrationStore.ofStored_append, hstore, hw]
  rfl

theorem Consistent.after_run (hw : w.Consistent)
    (h : run (RegistrationRun.step sha256 dialect) w as = some t) : t.Consistent :=
  run_invariant (fun _ _ _ hs hstep => Consistent.step hs hstep) hw h

theorem accepts_of_succeeded (hrun : run (step sha256 dialect) start as = some w)
    (hstart : start.calls = []) (hdata : registrationData ∈ succeeded sha256 dialect start as) :
    ∃ v request, Accepts sha256 dialect start as v request registrationData := by
  obtain ⟨front, a, back, u, rfl, hfront, hout⟩ := mem_outputs hdata
  cases a with
  | storeSettles i outcome =>
    simp only [succeeded?] at hout
    split at hout
    · rename_i hi _
      obtain rfl := Option.some.inj hout
      obtain ⟨v, request, haccepts⟩ :=
        accepts_of_storing hfront hstart (List.mem_of_getElem? hi)
      exact ⟨v, request, haccepts.append _⟩
    · cases hout
  | _ => cases hout

/-! ## What an answer is derived from -/

/-- The hash that the latest registration of a DID agreed to, of those before the run and those of
the requests that succeeded in it. -/
def latestAgreed (sha256 : Sha256) (dialect : UpsertDialect) (start : RegistrationRun)
    (as : List RegistrationAction) (did : JsString) : Option (Option JsString) :=
  RegistrationStore.latestAgreement
    (start.stored ++ (succeeded sha256 dialect start as).flatMap (tenantsOf dialect)) did

/-- The step does not update the terms or store a registration of the DID. -/
def SparesTenant (dialect : UpsertDialect) (did : JsString) (w : RegistrationRun) :
    RegistrationAction → Prop
  | .updateTermsOfService _ => False
  | .storeSettles i _ => ∀ registrationData, w.calls[i]? = some (.storing registrationData) →
    ∀ tenant ∈ tenantsOf dialect registrationData, tenant.did ≠ some did
  | _ => True

/-- The call has read this row, and is to answer or has answered. -/
def Reads (i : ℕ) (did : JsString) (read : Option RegisteredTenant) (w : RegistrationRun) : Prop :=
  w.calls[i]? = some (.checking did read) ∨ ∃ result, w.calls[i]? = some (.checked did result)

variable {i : ℕ} {did : JsString} {read : Option RegisteredTenant}

theorem Reads.step (hw : w.Reads i did read) (h : w.step sha256 dialect a = some t) :
    t.Reads i did read := by
  have hlt : i < w.calls.length := by
    rcases hw with hchecking | ⟨result, hchecked⟩
    · exact (List.getElem?_eq_some_iff.mp hchecking).1
    · exact (List.getElem?_eq_some_iff.mp hchecked).1
  by_cases ha : resumes? a = some i
  · rcases hw with hchecking | ⟨result, hchecked⟩
    · cases a with
      | answer j =>
        obtain rfl := Option.some.inj ha
        simp only [RegistrationRun.step, hchecking] at h
        obtain rfl := Option.some.inj h
        exact Or.inr ⟨_, List.getElem?_set_self hlt⟩
      | storeSettles | readSettles =>
        obtain rfl := Option.some.inj ha
        simp [RegistrationRun.step, hchecking] at h
      | _ => cases ha
    · cases a with
      | storeSettles | readSettles | answer =>
        obtain rfl := Option.some.inj ha
        simp [RegistrationRun.step, hchecked] at h
      | _ => cases ha
  · rw [Reads, getElem?_of_resumes hlt h ha]
    exact hw

/-- A call that waits to read has not been resumed. -/
theorem reading_of_step (hlt : i < w.calls.length) (h : w.step sha256 dialect a = some t)
    (hi : t.calls[i]? = some (.reading did)) : w.calls[i]? = some (.reading did) := by
  by_cases ha : resumes? a = some i
  · have hset : ∀ {call}, call ≠ .reading did → (w.calls.set i call)[i]? ≠ some (.reading did) := by
      intro call hne heq
      rw [List.getElem?_set_self hlt] at heq
      exact hne (Option.some.inj heq)
    cases a with
    | storeSettles j outcome =>
      obtain rfl := Option.some.inj ha
      obtain ⟨-, -, ⟨-, -, -, -, -, hcalls⟩ | ⟨error, rfl⟩⟩ := storeSettles_cases h
      · rw [hcalls] at hi
        exact absurd hi (hset (by simp))
      · exact absurd hi (hset (by simp))
    | readSettles | answer =>
      obtain rfl := Option.some.inj ha
      simp only [RegistrationRun.step] at h
      split at h <;> first
        | cases h; done
        | obtain rfl := Option.some.inj h
          exact absurd hi (hset (by simp))
    | _ => cases ha
  · rwa [← getElem?_of_resumes hlt h ha]

theorem reading_of_readSettles {outcome : Except JsString Unit}
    (h : w.step sha256 dialect (.readSettles i outcome) = some t) :
    ∃ tenant, w.calls[i]? = some (.reading tenant) := by
  simp only [RegistrationRun.step] at h
  split at h
  · rename_i hi _
    exact ⟨_, hi⟩
  · rename_i hi
    exact ⟨_, hi⟩
  · cases h

/-- The query of a call reads the latest row of its DID. -/
theorem Consistent.reads (hw : w.Consistent) (hi : w.calls[i]? = some (.reading did))
    (h : w.step sha256 dialect (.readSettles i (.ok ())) = some t) :
    t.calls[i]? = some (.checking did ((RegistrationStore.latestAgreement w.stored did).map
      fun termsOfServiceHash => ⟨some did, termsOfServiceHash⟩)) ∧
    t.manager = w.manager := by
  have hlt : i < w.calls.length := (List.getElem?_eq_some_iff.mp hi).1
  rw [Consistent] at hw
  simp only [RegistrationRun.step, hi, hw] at h
  obtain rfl := Option.some.inj h
  rw [← RegistrationStore.getTenantRegistration_ofStored]
  exact ⟨List.getElem?_set_self hlt, rfl⟩

/-- It answers with the terms in force then. -/
theorem answer_of_reads (hw : w.Reads i did read)
    (h : w.step sha256 dialect (.answer i) = some t) :
    t.calls[i]? = some (.checked did (w.manager.checkTenant read)) := by
  rcases hw with hchecking | ⟨result, hchecked⟩
  · have hlt : i < w.calls.length := (List.getElem?_eq_some_iff.mp hchecking).1
    simp only [RegistrationRun.step, hchecking] at h
    obtain rfl := Option.some.inj h
    exact List.getElem?_set_self hlt
  · simp [RegistrationRun.step, hchecked] at h

theorem checked_of_answer {result : ActiveTenantCheckResult}
    (h : w.step sha256 dialect (.answer i) = some t)
    (hi : t.calls[i]? = some (.checked did result)) :
    ∃ read, w.calls[i]? = some (.checking did read) ∧ result = w.manager.checkTenant read := by
  simp only [RegistrationRun.step] at h
  split at h
  · rename_i tenant read hchecking
    obtain rfl := Option.some.inj h
    have hlt : i < w.calls.length := (List.getElem?_eq_some_iff.mp hchecking).1
    have hset : (w.calls.set i _)[i]? = some (.checked did result) := hi
    rw [List.getElem?_set_self hlt] at hset
    obtain ⟨rfl, rfl⟩ := RegistrationCall.checked.inj (Option.some.inj hset)
    exact ⟨read, hchecking, rfl⟩
  · cases h

theorem answer_at_once (hw : w.Consistent) (hi : w.calls[i]? = some (.reading did))
    (h : run (step sha256 dialect) w [.readSettles i (.ok ()), .answer i] = some t) :
    t.calls[i]? = some (.checked did (w.manager.checkTenant
      ((RegistrationStore.latestAgreement w.stored did).map
        fun termsOfServiceHash => ⟨some did, termsOfServiceHash⟩))) := by
  obtain ⟨u, hu, hrest⟩ := Option.bind_eq_some_iff.mp h
  obtain ⟨v, hv, hlast⟩ := Option.bind_eq_some_iff.mp hrest
  obtain rfl := Option.some.inj hlast
  obtain ⟨hchecking, hmanager⟩ := hw.reads hi hu
  rw [answer_of_reads (Or.inl hchecking) hv, hmanager]

/-- What an answer for a DID is derived from stays, in a step that spares the tenant. -/
theorem SparesTenant.kept (hdialect : dialect.Documented) (hspares : w.SparesTenant dialect did a)
    (h : w.step sha256 dialect a = some t) :
    t.manager.termsOfServiceHash = w.manager.termsOfServiceHash ∧
      RegistrationStore.latestAgreement t.stored did =
        RegistrationStore.latestAgreement w.stored did := by
  constructor
  · refine (termsOfServiceHash_cases h).resolve_right ?_
    rintro ⟨termsOfService, rfl, -⟩
    exact hspares
  · rcases step_rows h with ⟨hsame, -⟩ |
      ⟨i, outcome, data, store, tenants, rfl, hi, -, hrows, hmore, -⟩
    · rw [hsame]
    · have htenants : tenantsOf dialect data = tenants := by
        rw [tenantsOf_eq hdialect, hrows]
        rfl
      rw [hmore]
      exact RegistrationStore.latestAgreement_append_of_ne (htenants ▸ hspares data hi)

/-- The terms in force and the latest agreement of the DID are these, and the call is for the DID
as long as it waits to read. -/
structure Finds (i : ℕ) (did : JsString) (inForce : Option JsString)
    (agreement : Option (Option JsString)) (w : RegistrationRun) : Prop where
  consistent : w.Consistent
  called : i < w.calls.length
  reading : ∀ tenant, w.calls[i]? = some (.reading tenant) → tenant = did
  terms : w.manager.termsOfServiceHash = inForce
  agreement : RegistrationStore.latestAgreement w.stored did = agreement

variable {inForce : Option JsString} {agreement : Option (Option JsString)}

theorem Finds.step (hdialect : dialect.Documented) (hw : w.Finds i did inForce agreement)
    (hspares : w.SparesTenant dialect did a) (h : w.step sha256 dialect a = some t) :
    t.Finds i did inForce agreement := by
  obtain ⟨hterms, hagreement⟩ := hspares.kept hdialect h
  refine ⟨hw.consistent.step h, hw.called.trans_le (length_calls_step h), fun tenant hi => ?_,
    hterms.trans hw.terms, hagreement.trans hw.agreement⟩
  exact hw.reading tenant (reading_of_step hw.called h hi)

theorem Finds.after_run (hdialect : dialect.Documented) (hw : w.Finds i did inForce agreement)
    (hspares : Along (RegistrationRun.step sha256 dialect)
      (fun s a _ => s.SparesTenant dialect did a) w as)
    (h : run (RegistrationRun.step sha256 dialect) w as = some t) :
    t.Finds i did inForce agreement := by
  have hthroughout : Throughout (RegistrationRun.step sha256 dialect)
      (Finds i did inForce agreement) w as :=
    throughout_of_along (fun _ hs => hs) (fun _ _ _ hs hR hstep => hs.step hdialect hR hstep) hw
      hspares
  exact throughout_iff.mp hthroughout as t List.prefix_rfl h

theorem checkTenant_congr {m m' : RegistrationManager}
    (h : m'.termsOfServiceHash = m.termsOfServiceHash) (row : Option RegisteredTenant) :
    m'.checkTenant row = m.checkTenant row := by
  simp only [RegistrationManager.checkTenant, h]

/-- In every run with a registration store, an answer of `isActiveTenant` is the one that the
latest of the registrations stored by the time of its query and the terms in force ask for, unless
there are no terms and the agreement is to none. These registrations are those of the requests
that succeeded, each of which agreed to the terms then in force, and others do not change the
answer. -/
theorem active_iff {now : ℤ} {random random' : BitVec 256} {readFileSync : JsString → Eval JsString}
    {earlier : List RegisteredTenant} {input : RegistrationManager.Input} {m : RegistrationManager}
    (hdialect : dialect.Documented)
    (hcreate : RegistrationManager.create sha256 now random random' readFileSync
      (RegistrationStore.ofStored earlier) input = .ok m)
    (hstore : input.registrationStoreUrl.getD [] ≠ []) {front mid : List RegistrationAction}
    {u' : RegistrationRun} (hfront : run (step sha256 dialect) ⟨m, now, [], earlier⟩ front = some u)
    (hreading : u.calls[i]? = some (.reading did))
    (hquery : u.step sha256 dialect (.readSettles i (.ok ())) = some u')
    (hmid : run (step sha256 dialect) u' mid = some v)
    (hanswer : v.step sha256 dialect (.answer i) = some t) :
    (∃ result, t.calls[i]? = some (.checked did result) ∧
      ((result.isActiveTenant = true ↔ latestAgreed sha256 dialect ⟨m, now, [], earlier⟩ front did =
          some v.manager.termsOfServiceHash) ↔
        ¬(v.manager.termsOfServiceHash = none ∧
          latestAgreed sha256 dialect ⟨m, now, [], earlier⟩ front did = some none))) ∧
    (∀ registrationData ∈ succeeded sha256 dialect ⟨m, now, [], earlier⟩ front, ∃ w request,
      Accepts sha256 dialect ⟨m, now, [], earlier⟩ front w request registrationData ∧
      request.own (js "registrationData") = some registrationData ∧
      registrationData.own (js "termsOfServiceHash") =
        RegistrationManager.hashValue w.manager.termsOfServiceHash) ∧
    ∀ others w s s', Along (step sha256 dialect) (fun w a _ => w.SparesTenant dialect did a) u
        others → run (step sha256 dialect) u others = some w →
      run (step sha256 dialect) u [.readSettles i (.ok ()), .answer i] = some s →
      run (step sha256 dialect) w [.readSettles i (.ok ()), .answer i] = some s' →
      s'.calls[i]? = s.calls[i]? := by
  have hstart : Consistent ⟨m, now, [], earlier⟩ :=
    RegistrationManager.registrationStore_of_create hcreate hstore
  have hu := hstart.after_run hfront
  refine ⟨?_, fun data hdata => ?_, ?_⟩
  · have hlatest : RegistrationStore.latestAgreement u.stored did =
        latestAgreed sha256 dialect ⟨m, now, [], earlier⟩ front did := by
      rw [stored_eq hdialect hfront, latestAgreed]
    obtain ⟨hchecking, -⟩ := hu.reads hreading hquery
    rw [hlatest] at hchecking
    have hreads := run_invariant (fun _ _ _ hs hstep => Reads.step hs hstep)
      (show u'.Reads i did _ from Or.inl hchecking) hmid
    refine ⟨_, answer_of_reads hreads hanswer, ?_⟩
    rw [RegistrationManager.checkTenant_iff]
    rcases latestAgreed sha256 dialect _ front did with _ | _ | agreed
    · simp
    · cases v.manager.termsOfServiceHash <;> simp
    · cases v.manager.termsOfServiceHash <;> simp [eq_comm]
  · obtain ⟨w, request, before, after, manager, hsplit, hbefore, hhandle⟩ :=
      accepts_of_succeeded hfront rfl hdata
    obtain ⟨hregistered, hagreed, -⟩ := RegistrationManager.handleRegistrationRequest_ok hhandle
    exact ⟨w, request, ⟨before, after, manager, hsplit, hbefore, hhandle⟩, hregistered, hagreed⟩
  · intro others w s s' hspares hothers hs hs'
    have hfinds : u.Finds i did u.manager.termsOfServiceHash
        (RegistrationStore.latestAgreement u.stored did) :=
      ⟨hu, (List.getElem?_eq_some_iff.mp hreading).1, fun tenant hi =>
        RegistrationCall.reading.inj (Option.some.inj (hi.symm.trans hreading)), rfl, rfl⟩
    have hw := hfinds.after_run hdialect hspares hothers
    obtain ⟨_, hread, -⟩ := Option.bind_eq_some_iff.mp hs'
    obtain ⟨tenant, hi⟩ := reading_of_readSettles hread
    obtain rfl := hw.reading tenant hi
    rw [answer_at_once hw.consistent hi hs', answer_at_once hu hreading hs, hw.agreement,
      checkTenant_congr hw.terms]

/-! ## A tenant that agreed to the terms, and one that had none to agree to -/

/-- A store and a file of terms, or none, with every proof of work sufficient. -/
def config (termsOfServiceFilePath : Option JsString) : RegistrationManager.Input :=
  ⟨some (js "sqlite://"), termsOfServiceFilePath, none, some (List.replicate 64 (unit 'F'))⟩

/-- The request of `did:a`, with a proof of work for the manager that drew the bytes 1. -/
def request (termsOfServiceHash : List (JsString × Json)) : Json := .object
  [(js "registrationData", .object ((js "did", .string (js "did:a")) :: termsOfServiceHash)),
    (js "proofOfWork", .object
      [(js "challengeNonce", .string (ProofOfWork.generateNonce 1)),
        (js "responseNonce", .string (List.replicate 64 (unit 'A')))])]

/-- Register, and ask. -/
def registerAndAsk (registrationRequest : Json) : List RegistrationAction :=
  [.handleRegistrationRequest registrationRequest, .storeSettles 0 (.ok ()),
    .isActiveTenant (js "did:a")]

/-- The hash of every text. -/
def zeros : JsString := List.replicate 64 (unit '0')

/-- Whether the tenant has agreed to the terms in force when it asks, and gets this answer. -/
def answered (m : RegistrationManager) (registrationRequest : Json) (agreed : Option JsString)
    (result : ActiveTenantCheckResult) : Bool :=
  (run (step (fun _ => 0) .strict) ⟨m, 0, [], []⟩ (registerAndAsk registrationRequest)).any fun u =>
    decide (u.calls[1]? = some (.reading (js "did:a")) ∧
      latestAgreed (fun _ => 0) .strict ⟨m, 0, [], []⟩ (registerAndAsk registrationRequest)
        (js "did:a") = some agreed) &&
    (u.step (fun _ => 0) .strict (.readSettles 1 (.ok ()))).any fun u' =>
      (u'.step (fun _ => 0) .strict (.answer 1)).any fun t => decide
        (u'.manager.termsOfServiceHash = agreed ∧
          t.calls[1]? = some (.checked (js "did:a") result))

theorem exists_of_answered {m : RegistrationManager} {registrationRequest : Json}
    {agreed : Option JsString} {result : ActiveTenantCheckResult}
    (h : answered m registrationRequest agreed result = true) :
    ∃ u u' t, run (step (fun _ => 0) .strict) ⟨m, 0, [], []⟩
        (registerAndAsk registrationRequest) = some u ∧
      u.calls[1]? = some (.reading (js "did:a")) ∧
      latestAgreed (fun _ => 0) .strict ⟨m, 0, [], []⟩ (registerAndAsk registrationRequest)
        (js "did:a") = some agreed ∧
      u.step (fun _ => 0) .strict (.readSettles 1 (.ok ())) = some u' ∧
      u'.step (fun _ => 0) .strict (.answer 1) = some t ∧
      u'.manager.termsOfServiceHash = agreed ∧
      t.calls[1]? = some (.checked (js "did:a") result) := by
  obtain ⟨u, hrun, hasked⟩ := (Option.any_eq_true _ _).mp h
  obtain ⟨hreading, hasked⟩ := (Bool.and_eq_true _ _).mp hasked
  obtain ⟨hreading, hagreed⟩ := of_decide_eq_true hreading
  obtain ⟨u', hquery, hasked⟩ := (Option.any_eq_true _ _).mp hasked
  obtain ⟨t, hanswer, hchecked⟩ := (Option.any_eq_true _ _).mp hasked
  obtain ⟨hterms, hchecked⟩ := of_decide_eq_true hchecked
  exact ⟨u, u', t, hrun, hreading, hagreed, hquery, hanswer, hterms, hchecked⟩

/-- A tenant that agreed to the terms in force is active. -/
theorem active_of_agreement :
    ∃ m, RegistrationManager.create (fun _ => 0) 0 0 1 (fun _ => .ok (js "terms"))
        (RegistrationStore.ofStored []) (config (some (js "terms.txt"))) = .ok m ∧
      ∃ u u' t result, run (step (fun _ => 0) .strict) ⟨m, 0, [], []⟩
          (registerAndAsk (request [(js "termsOfServiceHash", .string zeros)])) = some u ∧
        u.step (fun _ => 0) .strict (.readSettles 1 (.ok ())) = some u' ∧
        u'.step (fun _ => 0) .strict (.answer 1) = some t ∧
        t.calls[1]? = some (.checked (js "did:a") result) ∧ result.isActiveTenant = true := by
  obtain ⟨m, hm, hevaluated⟩ := Eval.exists_of_any
    (x := RegistrationManager.create (fun _ => 0) 0 0 1 (fun _ => .ok (js "terms"))
      (RegistrationStore.ofStored []) (config (some (js "terms.txt"))))
    (P := fun m => answered m (request [(js "termsOfServiceHash", .string zeros)]) (some zeros)
      ⟨true, none⟩ = true)
    (by decide +kernel)
  obtain ⟨u, u', t, hrun, hreading, hagreed, hquery, hanswer, hterms, hchecked⟩ :=
    exists_of_answered hevaluated
  obtain ⟨⟨result, hresult, hiff⟩, -, -⟩ := active_iff UpsertDialect.documented_strict hm
    (by decide) hrun hreading hquery (run_nil _ u') hanswer
  refine ⟨m, hm, u, u', t, result, hrun, hquery, hanswer, hresult, ?_⟩
  rw [hagreed, hterms] at hiff
  exact (hiff.mpr (by simp)).mpr rfl

/-- Without terms, a registered tenant is not active. -/
theorem not_active : ¬∀ (sha256 : Sha256) (dialect : UpsertDialect) (now : ℤ)
    (random random' : BitVec 256) (readFileSync : JsString → Eval JsString)
    (earlier : List RegisteredTenant) (input : RegistrationManager.Input) (m : RegistrationManager),
    dialect.Documented → RegistrationManager.create sha256 now random random' readFileSync
      (RegistrationStore.ofStored earlier) input = .ok m →
    input.registrationStoreUrl.getD [] ≠ [] → ∀ i did front mid u u' v t result,
    run (step sha256 dialect) ⟨m, now, [], earlier⟩ front = some u →
    u.calls[i]? = some (.reading did) →
    u.step sha256 dialect (.readSettles i (.ok ())) = some u' →
    run (step sha256 dialect) u' mid = some v → v.step sha256 dialect (.answer i) = some t →
    t.calls[i]? = some (.checked did result) →
    (result.isActiveTenant = true ↔ latestAgreed sha256 dialect ⟨m, now, [], earlier⟩ front did =
      some v.manager.termsOfServiceHash) := by
  intro h
  obtain ⟨m, hm, hevaluated⟩ := Eval.exists_of_any
    (x := RegistrationManager.create (fun _ => 0) 0 0 1 (fun _ => .error .engine)
      (RegistrationStore.ofStored []) (config none))
    (P := fun m => answered m (request []) none
      ⟨false, some (js "Agreed terms-of-service is outdated.")⟩ = true)
    (by decide +kernel)
  obtain ⟨u, u', t, hrun, hreading, hagreed, hquery, hanswer, hterms, hchecked⟩ :=
    exists_of_answered hevaluated
  have hiff := h (fun _ => 0) .strict 0 0 1 (fun _ => .error .engine) [] (config none) m
    UpsertDialect.documented_strict hm (by decide) 1 _ _ [] u u' u' t _ hrun hreading hquery
    (run_nil _ u') hanswer hchecked
  rw [hagreed, hterms] at hiff
  cases hiff.mpr rfl

end RegistrationRun

end DwnServer
