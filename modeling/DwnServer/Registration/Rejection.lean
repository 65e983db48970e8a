import DwnServer.Registration.StoredRows

/-!
# What a rejected registration leaves behind

A request goes through the terms, the proof of work and the database. The first two leave
everything as it was when they reject. The proof of work is recorded when it is accepted, which
is before the database has answered, so a request that the database rejects leaves its record.
-/
namespace DwnServer

open Transition

namespace ProofOfWorkManager

/-- A recorded response nonce is refused before anything else is looked at. -/
theorem verifyProofOfWork_of_recorded {sha256 : Sha256} {m : ProofOfWorkManager} {r : JsString}
    (hr : m.proofOfWorkOfLastMinute.has r = true) (now : ℤ) (challengeNonce : JsValue)
    (requestData : JsString) :
    m.verifyProofOfWork sha256 now challengeNonce (some (.string r)) requestData =
      .error (.server .proofOfWorkManagerResponseNonceReused
        (js "Not allowed to reused response nonce: " ++ r ++ js ".")) := by
  have hhas : m.hasProofOfWork (some (.string r)) = true := hr
  rw [verifyProofOfWork, if_pos hhas]
  rfl

end ProofOfWorkManager

namespace RegistrationManager

variable {sha256 : Sha256} {m m' : RegistrationManager} {now now' : ℤ}
  {request registrationData : Json}

/-- The proofs of work of the last minute, if there is a manager for them. -/
def recorded (m : RegistrationManager) : Option (OrderedMap JsString ℤ) :=
  m.proofOfWorkManager.map (·.proofOfWorkOfLastMinute)

/-- `m'` is `m` with the response nonce of the request recorded, one more that the solve rate
counts. -/
structure Records (m m' : RegistrationManager) (now : ℤ) (request : Json) (r : JsString) :
    Prop where
  responseNonce : (request.own (js "proofOfWork")).readOptional "responseNonce" = some (.string r)
  recorded : ∃ p, m.proofOfWorkManager = some p ∧
    m' = { m with proofOfWorkManager := some (p.recordProofOfWork now r) } ∧
    (p.recordProofOfWork now r).proofOfWorkOfLastMinute.entries =
      p.proofOfWorkOfLastMinute.entries ++ [(r, now)]

/-- A request that passes the checks is recorded. -/
theorem records_of_ok
    (h : m.handleRegistrationRequest sha256 now request = .ok (m', registrationData)) :
    ∃ r, m.Records m' now request r := by
  obtain ⟨-, -, p, p', hp, hverify, rfl⟩ := handleRegistrationRequest_ok h
  obtain ⟨c, r, -, hr, hfresh, -, -, -, rfl⟩ :=
    ProofOfWorkManager.verifyProofOfWork_eq_ok.mp hverify
  exact ⟨r, hr, p, hp, rfl, OrderedMap.entries_set_of_absent hfresh now⟩

/-- As long as the nonce of a request is recorded and the terms are the same, the request is
refused as one that reuses it. -/
theorem handleRegistrationRequest_again {m₂ : RegistrationManager} {p : ProofOfWorkManager}
    {r : JsString}
    (h : m.handleRegistrationRequest sha256 now request = .ok (m', registrationData))
    (hnonce : (request.own (js "proofOfWork")).readOptional "responseNonce" = some (.string r))
    (hterms : m₂.termsOfServiceHash = m.termsOfServiceHash) (hp : m₂.proofOfWorkManager = some p)
    (hr : p.proofOfWorkOfLastMinute.has r = true) :
    m₂.handleRegistrationRequest sha256 now' request =
      .error (.server .proofOfWorkManagerResponseNonceReused
        (js "Not allowed to reused response nonce: " ++ r ++ js ".")) := by
  obtain ⟨hdata, hagreed, -⟩ := handleRegistrationRequest_ok h
  have hnull : JsValue.isNullish (some registrationData) = false := by
    cases hnull : JsValue.isNullish (some registrationData) with
    | false => rfl
    | true =>
      simp [handleRegistrationRequest, JsValue.read_eq, hdata, hnull, bind, Except.bind] at h
  have hproof : (request.own (js "proofOfWork")).isNullish = false := by
    obtain ⟨proofOfWork, hproofOfWork, hread⟩ := Option.bind_eq_some_iff.mp hnonce
    rw [hproofOfWork]
    exact JsValue.isNullish_of_own hread
  have hread : JsValue.readOptional (some registrationData) "termsOfServiceHash" =
      hashValue m₂.termsOfServiceHash := by
    rw [hterms]
    exact hagreed
  simp [handleRegistrationRequest, JsValue.read_eq, hdata, hnull, hread, hproof, hp, hnonce,
    ProofOfWorkManager.verifyProofOfWork_of_recorded hr, bind, Except.bind]

end RegistrationManager

namespace RegistrationRun

variable {sha256 : Sha256} {dialect : UpsertDialect} {w u t : RegistrationRun}
  {a : RegistrationAction} {as : List RegistrationAction} {request : Json} {n : ℕ}

/-- Only its query settles a call that waits for the database. -/
theorem storing_of_ne {registrationData : Json}
    (hn : w.calls[n]? = some (.storing registrationData)) (h : w.step sha256 dialect a = some t)
    (ha : ∀ outcome, a ≠ .storeSettles n outcome) :
    t.calls[n]? = some (.storing registrationData) := by
  rw [getElem?_of_resumes (List.getElem?_eq_some_iff.mp hn).1 h ?_, hn]
  intro hresumes
  cases a with
  | storeSettles i outcome =>
    obtain rfl := Option.some.inj hresumes
    exact ha outcome rfl
  | readSettles | answer =>
    obtain rfl := Option.some.inj hresumes
    simp [step, hn] at h
  | _ => cases hresumes

theorem registered_run (hn : w.calls[n]? = some .registered)
    (hrun : run (step sha256 dialect) w as = some t) : t.calls[n]? = some .registered := by
  refine run_invariant (I := fun w => w.calls[n]? = some .registered) ?_ hn hrun
  intro w a t hw hstep
  rcases step_rows hstep with ⟨-, hkept⟩ | ⟨i, _, _, _, _, -, hi, -, -, -, hcalls⟩
  · exact hkept n hw
  · rw [hcalls]
    have hne : i ≠ n := by
      rintro rfl
      cases hi.symm.trans hw
    exact (List.getElem?_set_ne hne).trans hw

/-- A call that waits and is rejected later was rejected by the database, in a step that
changed nothing else. -/
theorem rejected_of_storing {registrationData : Json} {error : ServerThrown}
    (hn : w.calls[n]? = some (.storing registrationData))
    (hrun : run (step sha256 dialect) w as = some t) (ht : t.calls[n]? = some (.rejected error)) :
    ∃ before outcome after u u', as = before ++ .storeSettles n outcome :: after ∧
      run (step sha256 dialect) w before = some u ∧
      u.step sha256 dialect (.storeSettles n outcome) = some u' ∧
      u'.manager = u.manager ∧ u'.stored = u.stored := by
  induction as generalizing w with
  | nil =>
    obtain rfl := Option.some.inj hrun
    cases hn.symm.trans ht
  | cons a as ih =>
    obtain ⟨v, hv, hrest⟩ := Option.bind_eq_some_iff.mp hrun
    by_cases ha : ∃ outcome, a = .storeSettles n outcome
    · obtain ⟨outcome, rfl⟩ := ha
      obtain ⟨-, -, ⟨-, -, -, -, -, hcalls⟩ | ⟨e, rfl⟩⟩ := storeSettles_cases hv
      · have hlt : n < w.calls.length := (List.getElem?_eq_some_iff.mp hn).1
        have hregistered : v.calls[n]? = some .registered := by
          rw [hcalls]
          exact List.getElem?_set_self hlt
        cases (registered_run hregistered hrest).symm.trans ht
      · exact ⟨[], outcome, as, w, _, rfl, rfl, hv, rfl, rfl⟩
    · have hwaits := storing_of_ne hn hv fun outcome h => ha ⟨outcome, h⟩
      obtain ⟨before, outcome, after, u, u', rfl, hbefore, hsettles, hkept⟩ := ih hwaits hrest
      refine ⟨a :: before, outcome, after, u, u', rfl, ?_, hsettles, hkept⟩
      rw [run_cons, hv]
      exact hbefore

/-- What a rejected request leaves behind. If the checks reject it, everything is as it was. If
the database rejects it, the step that does so changes nothing else either, but the record of the
request stays, and the request is refused as one that reuses its nonce as long as the record is
there and the terms are the same. -/
theorem rejected_leaves {error : ServerThrown}
    (hhandle : w.step sha256 dialect (.handleRegistrationRequest request) = some u)
    (hrun : run (step sha256 dialect) u as = some t)
    (hrejected : t.calls[w.calls.length]? = some (.rejected error)) :
    (u.manager = w.manager ∧ u.stored = w.stored ∧
        ∃ error, u.calls[w.calls.length]? = some (.rejected error)) ∨
      (∃ before outcome after v v', as = before ++ .storeSettles w.calls.length outcome :: after ∧
        run (step sha256 dialect) u before = some v ∧
        v.step sha256 dialect (.storeSettles w.calls.length outcome) = some v' ∧
        v'.manager = v.manager ∧ v'.stored = v.stored) ∧
      u.stored = w.stored ∧ ∃ r, w.manager.Records u.manager w.now request r ∧
        ∀ (m : RegistrationManager) (now : ℤ), m.termsOfServiceHash = w.manager.termsOfServiceHash →
          (∃ record ∈ m.recorded, record.has r = true) →
          m.handleRegistrationRequest sha256 now request =
            .error (.server .proofOfWorkManagerResponseNonceReused
              (js "Not allowed to reused response nonce: " ++ r ++ js ".")) := by
  simp only [step] at hhandle
  split at hhandle
  · rename_i manager registrationData hok
    obtain rfl := Option.some.inj hhandle
    obtain ⟨r, hrecords⟩ := RegistrationManager.records_of_ok hok
    refine Or.inr ⟨rejected_of_storing List.getElem?_concat_length hrun hrejected, rfl, r, hrecords,
      ?_⟩
    rintro m now hterms ⟨record, hrecord, hr⟩
    obtain ⟨p, hp, rfl⟩ := Option.map_eq_some_iff.mp hrecord
    exact RegistrationManager.handleRegistrationRequest_again hok hrecords.responseNonce hterms hp
      hr
  · obtain rfl := Option.some.inj hhandle
    exact Or.inl ⟨rfl, rfl, _, List.getElem?_concat_length⟩

/-! ## A database that does not answer -/

/-- A request without terms to agree to. -/
def attempt : Json := WritingRun.request (WritingRun.tenant (js "did:a"))

/-- Its query fails. -/
def connectFails : RegistrationAction := .storeSettles 0 (.error (js "connect ECONNREFUSED"))

/-- A manager without terms, whose challenge every response nonce solves. -/
theorem exists_create_noTerms :
    ∃ m, RegistrationManager.create (fun _ => 0) 0 0 1 (fun _ => .error .engine) .empty
        WritingRun.noTerms = .ok m ∧ m.recorded = some .empty ∧
      (run (step (fun _ => 0) .strict) ⟨m, 0, [], []⟩
        [.handleRegistrationRequest attempt, connectFails]).any (fun t => decide
          (t.calls = [.rejected (.foreign (js "connect ECONNREFUSED"))] ∧
            t.manager.recorded = some (OrderedMap.empty.set (List.replicate 64 (unit 'A')) 0))) =
        true :=
  Eval.exists_of_any (by decide +kernel)

/-- The database is not there: the attempt fails, and its proof of work is used up. -/
theorem not_rejected_leaves : ¬∀ (sha256 : Sha256) (dialect : UpsertDialect) (now : ℤ)
    (random random' : BitVec 256) (readFileSync : JsString → Eval JsString)
    (earlier : List RegisteredTenant) (input : RegistrationManager.Input) (m : RegistrationManager),
    dialect.Documented → RegistrationManager.create sha256 now random random' readFileSync
      (RegistrationStore.ofStored earlier) input = .ok m →
    ∀ as w request u as' t error, run (step sha256 dialect) ⟨m, now, [], earlier⟩ as = some w →
      w.step sha256 dialect (.handleRegistrationRequest request) = some u →
      (as' = [] ∨ ∃ outcome, as' = [.storeSettles w.calls.length outcome]) →
      run (step sha256 dialect) u as' = some t →
      t.calls[w.calls.length]? = some (.rejected error) →
      t.manager.recorded = w.manager.recorded ∧ t.stored = w.stored := by
  intro h
  obtain ⟨m, hm, hempty, hevaluated⟩ := exists_create_noTerms
  obtain ⟨t, hrun, hcalls, hrecorded⟩ := exists_of_run hevaluated
  obtain ⟨u, hu, hrest⟩ := Option.bind_eq_some_iff.mp hrun
  obtain ⟨hkept, -⟩ := h (fun _ => 0) .strict 0 0 1 (fun _ => .error .engine) []
    WritingRun.noTerms m UpsertDialect.documented_strict hm [] _ attempt u [connectFails] t _ rfl hu
    (Or.inr ⟨_, rfl⟩) hrest (by rw [hcalls]; rfl)
  rw [hrecorded, hempty] at hkept
  revert hkept
  decide +kernel

/-- The same attempt, step by step: it is the database that rejects it. -/
theorem rejected_leaves_attempt : ∃ (w u t : RegistrationRun) (error : ServerThrown),
    w.step (fun _ => 0) .strict (.handleRegistrationRequest attempt) = some u ∧
      run (step (fun _ => 0) .strict) u [connectFails] = some t ∧
      t.calls[w.calls.length]? = some (.rejected error) ∧
      ∃ r, w.manager.Records u.manager w.now attempt r := by
  obtain ⟨m, -, hempty, hevaluated⟩ := exists_create_noTerms
  obtain ⟨t, hrun, hcalls, hrecorded⟩ := exists_of_run hevaluated
  obtain ⟨u, hu, hrest⟩ := Option.bind_eq_some_iff.mp hrun
  have hrejected : t.calls[0]? = some (.rejected (.foreign (js "connect ECONNREFUSED"))) := by
    rw [hcalls]
    rfl
  refine ⟨_, u, t, _, hu, hrest, hrejected, ?_⟩
  rcases rejected_leaves hu hrest hrejected with ⟨-, -, e, he⟩ | ⟨-, -, r, hrecords, -⟩
  · have hcall : u.calls[0]? = some (.rejected e) := he
    simp [step, connectFails, hcall] at hrest
  · exact ⟨r, hrecords⟩

end RegistrationRun

end DwnServer
