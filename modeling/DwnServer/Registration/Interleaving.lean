import DwnServer.Library.Async
import DwnServer.Registration.BoundWork
import DwnServer.Registration.Replay

/-!
# Interleaved proofs of work

`verifyProofOfWork` and `recordProofOfWork` are asynchronous, but neither of them waits, and the
second is called without `await`. A call has therefore checked and recorded its response nonce
before any other code runs; what the event loop interleaves is when callers go on.
-/
namespace DwnServer

open Transition

/-- What the methods read and write. -/
structure ProofOfWorkHost where
  manager : ProofOfWorkManager
  now : ℤ

namespace ProofOfWorkHost

open ProofOfWorkManager

/-- A method of the manager that may throw. -/
abbrev Method (α : Type) := ExceptT ServerThrown (Async ProofOfWorkHost) α

def thisManager : Method ProofOfWorkManager := ExceptT.lift do return (← Async.get).manager

def recordProofOfWork (proofOfWorkId : JsString) : Method Unit :=
  ExceptT.lift <| Async.modify fun host =>
    { host with manager := host.manager.recordProofOfWork host.now proofOfWorkId }

/-- `verifyProofOfWork`, statement by statement. -/
def verifyProofOfWork (sha256 : Sha256) (challengeNonce responseNonce : JsValue)
    (requestData : JsString) : Method Unit := do
  if (← thisManager).hasProofOfWork responseNonce then
    let text ← liftM (responseNonce.toText (C := DwnServerErrorCode))
    throw (.server .proofOfWorkManagerResponseNonceReused
      (js "Not allowed to reused response nonce: " ++ text ++ js "."))
  let responseText ← liftM (responseNonce.toText (C := DwnServerErrorCode))
  if !isHexString responseText || !responseNonce.hasLength 64 then
    throw (.server .proofOfWorkManagerInvalidResponseNonceFormat
      (js "Response nonce not a HEX string representing a 256 bit value: " ++ responseText ++
        js "."))
  match (← thisManager).acceptedChallenge? challengeNonce with
  | none =>
    let text ← liftM (challengeNonce.toText (C := DwnServerErrorCode))
    throw (.server .proofOfWorkManagerInvalidChallengeNonce
      (js "Unknown or expired challenge nonce: " ++ text ++ js "."))
  | some challengeNonce =>
    let maximumAllowedHashValue := (← thisManager).currentMaximumAllowedHashValueAsBigInt
    liftM (ProofOfWork.verifyResponseNonce sha256 maximumAllowedHashValue challengeNonce
      responseText requestData)
    -- the promise is not awaited
    let _ ← ExceptT.lift (recordProofOfWork responseText).run.call

variable {sha256 : Sha256} {host : ProofOfWorkHost} {challengeNonce responseNonce : JsValue}
  {requestData : JsString}

theorem answers_thisManager (host : ProofOfWorkHost) :
    Async.Answers thisManager.run host (.ok host.manager) host :=
  Async.answers_lift ((Async.answers_get host).bind (Async.answers_pure _ _))

theorem answers_recordProofOfWork (host : ProofOfWorkHost) (r : JsString) :
    (recordProofOfWork r).run.Answers host (.ok ())
      { host with manager := host.manager.recordProofOfWork host.now r } :=
  Async.answers_lift (Async.answers_modify _ _)

/-- The method as one function of the state: what it answers and leaves. -/
def verified (sha256 : Sha256) (host : ProofOfWorkHost) (challengeNonce responseNonce : JsValue)
    (requestData : JsString) : Eval Unit × ProofOfWorkHost :=
  match host.manager.verifyProofOfWork sha256 host.now challengeNonce responseNonce requestData with
  | .ok manager => (.ok (), { host with manager })
  | .error error => (.error error, host)

/-- A call has done all of it when it returns. -/
theorem answers_verifyProofOfWork :
    (verifyProofOfWork sha256 challengeNonce responseNonce requestData).run.Answers host
      (verified sha256 host challengeNonce responseNonce requestData).1
      (verified sha256 host challengeNonce responseNonce requestData).2 := by
  refine (answers_thisManager host).bind_ok ?_
  unfold verified
  cases hreused : host.manager.hasProofOfWork responseNonce with
  | true =>
    rw [ProofOfWorkManager.verifyProofOfWork, if_pos hreused]
    cases htext : responseNonce.toText (C := DwnServerErrorCode) with
    | error e => exact (Async.answers_liftM _ _).bind_error
    | ok text => exact (Async.answers_liftM _ _).bind_ok (Async.answers_throw _ _)
  | false =>
    have hfirst : ¬host.manager.hasProofOfWork responseNonce = true := by simp [hreused]
    cases htext : responseNonce.toText (C := DwnServerErrorCode) with
    | error e =>
      rw [ProofOfWorkManager.verifyProofOfWork, if_neg hfirst, htext]
      exact (Async.answers_liftM _ _).bind_error
    | ok responseText =>
      refine (Async.answers_liftM _ _).bind_ok ?_
      cases hformat : !isHexString responseText || !responseNonce.hasLength 64 with
      | true =>
        rw [ProofOfWorkManager.verifyProofOfWork, if_neg hfirst, htext]
        simp only [bind, Except.bind, hformat]
        exact Async.answers_throw _ _
      | false =>
        refine (answers_thisManager host).bind_ok ?_
        cases hchallenge : host.manager.acceptedChallenge? challengeNonce with
        | none =>
          rw [ProofOfWorkManager.verifyProofOfWork, if_neg hfirst, htext]
          simp only [bind, Except.bind, hformat, hchallenge]
          cases htext : challengeNonce.toText (C := DwnServerErrorCode) with
          | error e => exact (Async.answers_liftM _ _).bind_error
          | ok text => exact (Async.answers_liftM _ _).bind_ok (Async.answers_throw _ _)
        | some c =>
          simp only [Bool.or_eq_false_iff, Bool.not_eq_false'] at hformat
          have hchecks : host.manager.PassesChecks challengeNonce responseNonce c responseText :=
            ⟨htext, hformat.1, hformat.2, hchallenge⟩
          rw [hchecks.verifyProofOfWork hreused]
          refine (answers_thisManager host).bind_ok ?_
          dsimp only
          cases hverify : ProofOfWork.verifyResponseNonce sha256
              host.manager.currentMaximumAllowedHashValueAsBigInt c responseText requestData with
          | error e => exact (Async.answers_liftM _ _).bind_error
          | ok u =>
            refine (Async.answers_liftM _ _).bind_ok ?_
            have hrecord := (answers_recordProofOfWork host responseText).call
            exact (Async.answers_lift hrecord).bind_ok (Async.answers_pure _ _)

/-- The code of a caller: `await proofOfWorkManager.verifyProofOfWork(...)`. -/
def submit (sha256 : Sha256) (challengeNonce responseNonce : JsValue) (requestData : JsString) :
    Async ProofOfWorkHost (Eval Unit) := do
  let promise ← (verifyProofOfWork sha256 challengeNonce responseNonce requestData).run.call
  promise.await

theorem segment_submit :
    (submit sha256 challengeNonce responseNonce requestData).segment host =
      (.wait (.answer (verified sha256 host challengeNonce responseNonce requestData).1),
        (verified sha256 host challengeNonce responseNonce requestData).2) :=
  answers_verifyProofOfWork.call.segment_bind

end ProofOfWorkHost

/-! ## The event loop -/

/-- A call of `verifyProofOfWork`, and what is left of its caller. -/
structure ProofOfWorkCall where
  challengeNonce : JsValue
  responseNonce : JsValue
  requestData : JsString
  time : ℤ
  caller : Async ProofOfWorkHost (Eval Unit)

structure ProofOfWorkLoop where
  host : ProofOfWorkHost
  calls : List ProofOfWorkCall

/-- The actions of a run, and a caller that goes on. -/
inductive LoopAction where
  | run (a : ProofOfWorkAction)
  | resume (call : ℕ)

/-- What the call will answer or has answered, when nothing else is left of it. -/
def ProofOfWorkCall.outcome? (x : ProofOfWorkCall) : Option (Eval Unit) := x.caller.settled?

def ProofOfWorkCall.accepted? (x : ProofOfWorkCall) : Option Acceptance :=
  match x.outcome? with
  | some (.ok ()) => some ⟨x.challengeNonce, x.responseNonce, x.requestData, x.time⟩
  | _ => none

namespace ProofOfWorkLoop

open ProofOfWorkManager

def new (m : ProofOfWorkManager) (now : ℤ) : ProofOfWorkLoop := ⟨⟨m, now⟩, []⟩

def step (sha256 : Sha256) (w : ProofOfWorkLoop) : LoopAction → Option ProofOfWorkLoop
  | .run (.clock elapsed) => some { w with host := { w.host with now := w.host.now + elapsed } }
  | .run (.verifyProofOfWork challengeNonce responseNonce requestData) =>
    let (caller, host) :=
      (ProofOfWorkHost.submit sha256 challengeNonce responseNonce requestData).segment w.host
    some ⟨host, w.calls ++ [⟨challengeNonce, responseNonce, requestData, w.host.now, caller⟩]⟩
  | .run (.recordProofOfWork proofOfWorkId) =>
    some { w with host :=
      ((ProofOfWorkHost.recordProofOfWork proofOfWorkId).run.segment w.host).2 }
  | .run (.refreshChallengeNonce random) =>
    some { w with host := { w.host with
      manager := w.host.manager.refreshChallengeNonce sha256 w.host.now random } }
  | .run .refreshMaximumAllowedHashValue =>
    some { w with host := { w.host with
      manager := (w.host.manager.refreshMaximumAllowedHashValue w.host.now).1 } }
  | .resume i =>
    w.calls[i]?.bind fun x =>
      match x.caller with
      | .wait next =>
        let (caller, host) := next.segment w.host
        some ⟨host, w.calls.set i { x with caller }⟩
      | _ => none

/-- The state of this one at which every call is one step. -/
def atomic (w : ProofOfWorkLoop) : ProofOfWorkRun :=
  ⟨w.host.manager, w.host.now, w.calls.filterMap ProofOfWorkCall.accepted?⟩

/-- A call has its outcome, and at most its caller waits for it. -/
def Decided (w : ProofOfWorkLoop) : Prop :=
  ∀ x ∈ w.calls, ∃ outcome, x.caller = .wait (.answer outcome) ∨ x.caller = .answer outcome

/-- The proof of work is accepted in this state of the manager. -/
def Acceptable (sha256 : Sha256) (m : ProofOfWorkManager) (challengeNonce responseNonce : JsValue)
    (requestData : JsString) : Prop :=
  ∃ c r, challengeNonce = some (.string c) ∧ responseNonce = some (.string r) ∧
    m.proofOfWorkOfLastMinute.get? r = none ∧ IsResponseNonce r ∧
    c ∈ m.challengeNonces.acceptable ∧
    ProofOfWork.hashValue sha256 c r requestData ≤ m.currentMaximumAllowedHashValueAsBigInt

variable {sha256 : Sha256} {w t : ProofOfWorkLoop} {a : ProofOfWorkAction} {i : ℕ}

/-- Calls that wait nowhere make a step of the loop one of the manager's runs. -/
theorem atomic_run (h : w.step sha256 (.run a) = some t) :
    w.atomic.step sha256 a = some t.atomic := by
  cases a with
  | clock | refreshChallengeNonce | refreshMaximumAllowedHashValue | recordProofOfWork =>
    obtain rfl := Option.some.inj h
    rfl
  | verifyProofOfWork challengeNonce responseNonce requestData =>
    simp only [step, ProofOfWorkHost.segment_submit, ProofOfWorkHost.verified] at h
    obtain rfl := Option.some.inj h
    simp only [ProofOfWorkRun.step, atomic]
    cases w.host.manager.verifyProofOfWork sha256 w.host.now challengeNonce responseNonce
        requestData with
    | ok m =>
      simp [ProofOfWorkCall.accepted?, ProofOfWorkCall.outcome?, Async.settled?]
    | error e =>
      simp [ProofOfWorkCall.accepted?, ProofOfWorkCall.outcome?, Async.settled?]

theorem map_set_of_eq {β : Type} {f : ProofOfWorkCall → β} {calls : List ProofOfWorkCall} {i : ℕ}
    {x y : ProofOfWorkCall} (hx : calls[i]? = some x) (h : f y = f x) :
    (calls.set i y).map f = calls.map f := by
  rw [List.map_set, h]
  refine List.ext_getElem? fun j => ?_
  rw [List.getElem?_set]
  split_ifs with hj hlength
  · rw [← hj, List.getElem?_map, hx, Option.map_some]
  · rw [← hj, List.getElem?_eq_none (by omega)]
  · rfl

/-- A caller that goes on takes its outcome and changes nothing. -/
theorem Decided.resume (hw : w.Decided) (h : w.step sha256 (.resume i) = some t) :
    ∃ x outcome, w.calls[i]? = some x ∧ x.caller = .wait (.answer outcome) ∧
      t = { w with calls := w.calls.set i { x with caller := .answer outcome } } := by
  obtain ⟨x, hx, h⟩ := Option.bind_eq_some_iff.mp h
  obtain ⟨outcome, hwait | hanswer⟩ := hw x (List.mem_of_getElem? hx)
  · rw [hwait] at h
    exact ⟨x, outcome, hx, hwait, (Option.some.inj h).symm⟩
  · rw [hanswer] at h
    cases h

theorem Decided.outcome_resume (hw : w.Decided) (h : w.step sha256 (.resume i) = some t) :
    t.host = w.host ∧ t.atomic = w.atomic ∧
      t.calls.map ProofOfWorkCall.outcome? = w.calls.map ProofOfWorkCall.outcome? := by
  obtain ⟨x, outcome, hx, hwait, rfl⟩ := hw.resume h
  have houtcome : ProofOfWorkCall.outcome? { x with caller := .answer outcome } = x.outcome? := by
    simp only [ProofOfWorkCall.outcome?, hwait, Async.settled?]
  have haccepted : ProofOfWorkCall.accepted? { x with caller := .answer outcome } =
      x.accepted? := by
    simp only [ProofOfWorkCall.accepted?, houtcome]
  refine ⟨rfl, ?_, map_set_of_eq hx houtcome⟩
  have hmap := map_set_of_eq hx haccepted
  have hfilter : ∀ calls : List ProofOfWorkCall,
      calls.filterMap ProofOfWorkCall.accepted? =
        (calls.map ProofOfWorkCall.accepted?).filterMap id := by
    intro calls
    rw [List.filterMap_map]
    rfl
  simp only [atomic]
  rw [hfilter, hmap, ← hfilter]

/-- A step of the loop adds the call that it makes, if any. -/
theorem calls_run (h : w.step sha256 (.run a) = some t) :
    t.calls = w.calls ∨ ∃ c r d, a = .verifyProofOfWork c r d ∧ t.calls = w.calls ++
      [⟨c, r, d, w.host.now, .wait (.answer (w.host.verified sha256 c r d).1)⟩] := by
  cases a with
  | clock | refreshChallengeNonce | refreshMaximumAllowedHashValue | recordProofOfWork =>
    obtain rfl := Option.some.inj h
    exact Or.inl rfl
  | verifyProofOfWork challengeNonce responseNonce requestData =>
    simp only [step, ProofOfWorkHost.segment_submit] at h
    obtain rfl := Option.some.inj h
    exact Or.inr ⟨_, _, _, rfl, rfl⟩

theorem Decided.step {a : LoopAction} (hw : w.Decided) (h : w.step sha256 a = some t) :
    t.Decided := by
  cases a with
  | run a =>
    rcases calls_run h with hcalls | ⟨c, r, d, -, hcalls⟩
    · rw [Decided, hcalls]
      exact hw
    · rw [Decided, hcalls]
      refine List.forall_mem_append.mpr ⟨hw, List.forall_mem_singleton.mpr ⟨_, Or.inl rfl⟩⟩
  | resume i =>
    obtain ⟨x, outcome, -, -, rfl⟩ := hw.resume h
    intro y hy
    rcases List.mem_or_eq_of_mem_set hy with hold | rfl
    · exact hw y hold
    · exact ⟨outcome, Or.inr rfl⟩

/-- The call is accepted in the state `host` and records its response nonce, or it is rejected
there and changes nothing. -/
def DecidedIn (sha256 : Sha256) (host : ProofOfWorkHost) (x : ProofOfWorkCall)
    (after : ProofOfWorkHost) : Prop :=
  (Acceptable sha256 host.manager x.challengeNonce x.responseNonce x.requestData ∧
    x.outcome? = some (.ok ()) ∧ ∃ r, x.responseNonce = some (.string r) ∧
      after = { host with manager := host.manager.recordProofOfWork host.now r }) ∨
  ¬Acceptable sha256 host.manager x.challengeNonce x.responseNonce x.requestData ∧
    (∃ e, x.outcome? = some (.error e)) ∧ after = host

/-- A call is decided in the state that it is made in. What is decided stays so, and a caller that
goes on changes nothing. -/
structure TakesEffect (sha256 : Sha256) (w : ProofOfWorkLoop) (a : LoopAction)
    (t : ProofOfWorkLoop) : Prop where
  call : ∀ c r d, a = .run (.verifyProofOfWork c r d) → ∃ caller,
    t.calls = w.calls ++ [⟨c, r, d, w.host.now, caller⟩] ∧
      DecidedIn sha256 w.host ⟨c, r, d, w.host.now, caller⟩ t.host
  decided : w.calls.map ProofOfWorkCall.outcome? <+: t.calls.map ProofOfWorkCall.outcome?
  resume : ∀ i, a = .resume i → t.host = w.host

theorem exists_decidedIn {c r : JsValue} {d : JsString}
    (h : w.step sha256 (.run (.verifyProofOfWork c r d)) = some t) : ∃ caller,
      t.calls = w.calls ++ [⟨c, r, d, w.host.now, caller⟩] ∧
        DecidedIn sha256 w.host ⟨c, r, d, w.host.now, caller⟩ t.host := by
  simp only [step, ProofOfWorkHost.segment_submit] at h
  obtain rfl := Option.some.inj h
  refine ⟨_, rfl, ?_⟩
  simp only [DecidedIn, ProofOfWorkCall.outcome?, Async.settled?, ProofOfWorkHost.verified]
  cases hverify : w.host.manager.verifyProofOfWork sha256 w.host.now c r d with
  | ok m =>
    obtain ⟨c', r', rfl, rfl, hfresh, hformat, hchallenge, hhash, rfl⟩ :=
      verifyProofOfWork_eq_ok.mp hverify
    exact Or.inl ⟨⟨c', r', rfl, rfl, hfresh, hformat, hchallenge, hhash⟩, rfl, r', rfl, rfl⟩
  | error e =>
    refine Or.inr ⟨?_, ⟨e, rfl⟩, rfl⟩
    rintro ⟨c', r', hc, hr, hfresh, hformat, hchallenge, hhash⟩
    have hok : w.host.manager.verifyProofOfWork sha256 w.host.now c r d = .ok _ :=
      verifyProofOfWork_eq_ok.mpr ⟨c', r', hc, hr, hfresh, hformat, hchallenge, hhash, rfl⟩
    cases hok.symm.trans hverify

theorem Decided.takesEffect {a : LoopAction} (hw : w.Decided) (h : w.step sha256 a = some t) :
    TakesEffect sha256 w a t := by
  cases a with
  | run a =>
    refine ⟨?_, ?_, nofun⟩
    · rintro c r d ⟨⟩
      exact exists_decidedIn h
    · rcases calls_run h with hcalls | ⟨c, r, d, -, hcalls⟩
      · rw [hcalls]
      · rw [hcalls, List.map_append]
        exact List.prefix_append _ _
  | resume i =>
    obtain ⟨hhost, -, houtcomes⟩ := hw.outcome_resume h
    exact ⟨nofun, houtcomes ▸ List.prefix_rfl, fun _ _ => hhost⟩

/-- Accepted calls with one response nonce are more than a minute apart. -/
def Spaced (w : ProofOfWorkLoop) : Prop :=
  w.calls.Pairwise fun x y => x.outcome? = some (.ok ()) → y.outcome? = some (.ok ()) →
    x.responseNonce = y.responseNonce → x.time + 60000 < y.time

theorem accepted?_of_ok {x : ProofOfWorkCall} (h : x.outcome? = some (.ok ())) :
    x.accepted? = some ⟨x.challengeNonce, x.responseNonce, x.requestData, x.time⟩ := by
  simp only [ProofOfWorkCall.accepted?, h]

theorem spaced_of_remembered (hw : w.atomic.Remembered) : w.Spaced :=
  (List.pairwise_filterMap.mp hw.spaced).imp fun h hx hy =>
    h _ (accepted?_of_ok hx) _ (accepted?_of_ok hy)

/-- What every step keeps. -/
structure Orderly (w : ProofOfWorkLoop) : Prop where
  decided : w.Decided
  remembered : w.atomic.Remembered

theorem Orderly.step {a : LoopAction} (hw : w.Orderly) (h : w.step sha256 a = some t) :
    t.Orderly := by
  refine ⟨hw.decided.step h, ?_⟩
  cases a with
  | run a => exact hw.remembered.step (atomic_run h)
  | resume i =>
    obtain ⟨-, hatomic, -⟩ := hw.decided.outcome_resume h
    exact hatomic ▸ hw.remembered

/-- However calls of `verifyProofOfWork`, their callers and the timers interleave, each call takes
effect in the one state that it is made in, and of the calls of a minute with one response nonce
at most one is accepted. -/
theorem calls_atomic (sha256 : Sha256) (m : ProofOfWorkManager) (now : ℤ) (as : List LoopAction) :
    Along (step sha256) (TakesEffect sha256) (new m now) as ∧
      Throughout (step sha256) Spaced (new m now) as := by
  have hnew : (new m now).Orderly :=
    ⟨List.forall_mem_nil _, List.Pairwise.nil, List.forall_mem_nil _, List.forall_mem_nil _⟩
  constructor
  · exact along_of_preserved (fun _ _ _ hw h => ⟨hw.step h, hw.decided.takesEffect h⟩) hnew as
  · exact throughout_of_invariant (fun _ hw => spaced_of_remembered hw.remembered)
      (fun _ _ _ hw h => hw.step h) hnew as

end ProofOfWorkLoop

end DwnServer
