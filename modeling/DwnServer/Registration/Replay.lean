import DwnServer.Registration.ProofOfWorkRun

/-!
# Replayed proofs of work

An accepted response nonce is remembered for one minute, and an evaluation forgets it only
after that. A replay within the minute is refused and changes nothing; a later one is
accepted as long as its challenge nonce still is, which may be many minutes.
-/
namespace DwnServer

open Transition

namespace ProofOfWorkRun

/-- Acceptances of one response nonce are more than a minute apart, and a proof of work with
a response nonce accepted within the last minute has no effect. -/
def ReplaysSpaced (sha256 : Sha256) (w : ProofOfWorkRun) : Prop :=
  w.accepted.Pairwise (fun a b => a.responseNonce = b.responseNonce → a.time + 60000 < b.time) ∧
    ∀ a ∈ w.accepted, w.now ≤ a.time + 60000 → ∀ challengeNonce requestData,
      w.step sha256 (.verifyProofOfWork challengeNonce a.responseNonce requestData) = some w

/-- The response nonces accepted in the last minute are recorded. -/
structure Remembered (w : ProofOfWorkRun) : Prop where
  spaced : w.accepted.Pairwise fun a b =>
    a.responseNonce = b.responseNonce → a.time + 60000 < b.time
  past : ∀ a ∈ w.accepted, a.time ≤ w.now
  recorded : ∀ a ∈ w.accepted, w.now ≤ a.time + 60000 → ∃ r time,
    a.responseNonce = some (.string r) ∧
      w.manager.proofOfWorkOfLastMinute.get? r = some time ∧ a.time ≤ time

variable {sha256 : Sha256} {w t : ProofOfWorkRun} {a : ProofOfWorkAction}

/-- Recording a proof of work forgets nothing. -/
theorem Remembered.record (hw : w.Remembered) (r : JsString) :
    ∀ a ∈ w.accepted, w.now ≤ a.time + 60000 → ∃ r' time, a.responseNonce = some (.string r') ∧
      (w.manager.recordProofOfWork w.now r).proofOfWorkOfLastMinute.get? r' = some time ∧
        a.time ≤ time := by
  intro a ha hrecent
  obtain ⟨r', time, hnonce, hget, htime⟩ := hw.recorded a ha hrecent
  by_cases hsame : r' = r
  · exact ⟨r', w.now, hnonce, by simp [ProofOfWorkManager.recordProofOfWork, hsame], hw.past a ha⟩
  · refine ⟨r', time, hnonce, ?_, htime⟩
    simp [ProofOfWorkManager.recordProofOfWork, OrderedMap.get?_set, hsame, hget]

theorem Remembered.step (hw : w.Remembered) (h : w.step sha256 a = some t) : t.Remembered := by
  rcases step_cases h with
    ⟨elapsed, rfl⟩ | ⟨c, r, data, -, hfresh, rfl⟩ | ⟨r, -, rfl⟩ | ⟨nonces, rfl⟩ | ⟨-, rfl⟩ | rfl
  · refine ⟨hw.spaced, fun a ha => ?_, fun a ha hrecent => hw.recorded a ha ?_⟩
    · exact (hw.past a ha).trans (by simp)
    · dsimp only at hrecent
      omega
  · refine ⟨?_, fun a ha => ?_, fun a ha hrecent => ?_⟩
    · refine List.pairwise_append.mpr ⟨hw.spaced, List.pairwise_singleton _ _, ?_⟩
      intro a ha b hb hsame
      obtain rfl := List.mem_singleton.mp hb
      -- within the minute the nonce would still be recorded
      by_contra hrecent
      obtain ⟨r', time, hnonce, hget, -⟩ := hw.recorded a ha (by simpa using hrecent)
      obtain rfl : r' = r := by simpa using hnonce.symm.trans hsame
      simp [hfresh] at hget
    · rcases List.mem_append.mp ha with hold | hnew
      · exact hw.past a hold
      · obtain rfl := List.mem_singleton.mp hnew
        exact le_rfl
    · rcases List.mem_append.mp ha with hold | hnew
      · exact hw.record r a hold hrecent
      · obtain rfl := List.mem_singleton.mp hnew
        exact ⟨r, w.now, rfl, by simp [ProofOfWorkManager.recordProofOfWork], le_rfl⟩
  · exact ⟨hw.spaced, hw.past, hw.record r⟩
  · exact ⟨hw.spaced, hw.past, hw.recorded⟩
  · refine ⟨hw.spaced, hw.past, fun a ha hrecent => ?_⟩
    obtain ⟨r, time, hnonce, hget, htime⟩ := hw.recorded a ha hrecent
    refine ⟨r, time, hnonce, ?_, htime⟩
    rw [(w.manager.refreshMaximumAllowedHashValue_kept w.now).2.2]
    refine OrderedMap.get?_filter.mpr ⟨hget, ?_⟩
    simp only [decide_eq_true_eq, not_lt]
    dsimp only at hrecent
    omega
  · exact hw

theorem Remembered.replays (hw : w.Remembered) : w.ReplaysSpaced sha256 := by
  refine ⟨hw.spaced, fun a ha hrecent challengeNonce requestData => ?_⟩
  obtain ⟨r, time, hnonce, hget, -⟩ := hw.recorded a ha hrecent
  cases hverify : w.manager.verifyProofOfWork sha256 w.now challengeNonce a.responseNonce
      requestData with
  | error e => simp [ProofOfWorkRun.step, hverify]
  | ok manager =>
    obtain ⟨c, r', -, hr', hfresh, -⟩ := ProofOfWorkManager.verifyProofOfWork_eq_ok.mp hverify
    obtain rfl : r = r' := by simpa using hnonce.symm.trans hr'
    simp [hfresh] at hget

/-- In every run of a manager, replays of a response nonce are a minute apart. -/
theorem replaysSpaced (sha256 : Sha256) (m : ProofOfWorkManager) (now : ℤ)
    (as : List ProofOfWorkAction) :
    Throughout (step sha256) (ReplaysSpaced sha256) ⟨m, now, []⟩ as :=
  throughout_of_invariant (fun _ => Remembered.replays) (fun _ _ _ hw h => hw.step h)
    ⟨List.Pairwise.nil, by simp, by simp⟩ as

/-! ## A replay after seventy seconds -/

/-- The easiest configuration: every hash is allowed. -/
def easiest : ProofOfWorkManager.Input :=
  ⟨10, true, some (List.replicate 64 (unit 'F')), none, none, none, none⟩

/-- An evaluation every ten seconds, for seventy seconds. -/
def seventySeconds : List ProofOfWorkAction :=
  (List.replicate 7 [.clock 10000, .refreshMaximumAllowedHashValue]).flatten

/-- A proof of work for the first challenge of a manager that drew the bytes 1. -/
def submission : Acceptance :=
  ⟨some (.string (ProofOfWork.generateNonce 1)), some (.string (List.replicate 64 (unit 'A'))),
    js "\x7b\x7d", 0⟩

def submit : ProofOfWorkAction :=
  .verifyProofOfWork submission.challengeNonce submission.responseNonce submission.requestData

/-- The challenge nonce is valid for ten minutes and the response nonce remembered for one. -/
theorem not_acceptedOnce : ¬∀ (sha256 : Sha256) (now : ℤ) (random random' : BitVec 256)
    (input : ProofOfWorkManager.Input) (m : ProofOfWorkManager),
    ProofOfWorkManager.create sha256 now random random' input = .ok m →
    ∀ as t, run (step sha256) ⟨m, now, []⟩ as = some t →
      t.accepted.Pairwise fun a b => ¬(a.challengeNonce = b.challengeNonce ∧
        a.responseNonce = b.responseNonce ∧ a.requestData = b.requestData) := by
  intro h
  obtain ⟨m, hm, t, hrun, haccepted⟩ : ∃ m,
      ProofOfWorkManager.create (fun _ => 0) 0 0 1 easiest = .ok m ∧
      ∃ t, run (step fun _ => 0) ⟨m, 0, []⟩ ([submit] ++ seventySeconds ++ [submit]) = some t ∧
        t.accepted = [submission, { submission with time := 70000 }] := by
    refine ⟨(ProofOfWorkManager.construct (2 ^ 256 - 1) 0 easiest).start (fun _ => 0) 0 1, ?_,
      exists_of_run ?_⟩ <;> decide +kernel
  have honce := h (fun _ => 0) 0 0 1 easiest m hm _ t hrun
  rw [haccepted] at honce
  simp at honce

end ProofOfWorkRun

end DwnServer
