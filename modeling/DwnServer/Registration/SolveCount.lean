import DwnServer.Registration.Replay

/-!
# The solve count of an evaluation

A proof of work is recorded under its response nonce, and a nonce that is recorded is refused.
So between two cleanups no entry is overwritten, and a cleanup takes out entries that are too
old for every later evaluation as well: what is left are the acceptances of the last minute.
-/
namespace DwnServer

open Transition

/-- A record that does not come from `verifyProofOfWork`; only tests make one. -/
def ProofOfWorkAction.isRecording : ProofOfWorkAction → Bool
  | .recordProofOfWork _ => true
  | _ => false

/-- What a record keeps of an acceptance. -/
def Acceptance.entry (a : Acceptance) : JsValue × ℤ := (a.responseNonce, a.time)

namespace ProofOfWorkRun

/-- The acceptances from a time on. -/
def acceptedSince (w : ProofOfWorkRun) (time : ℤ) : List Acceptance :=
  w.accepted.filter fun a => time ≤ a.time

/-- The proofs of work that are recorded with a time from the given one on. -/
def recordedSince (w : ProofOfWorkRun) (time : ℤ) : List (JsString × ℤ) :=
  w.manager.proofOfWorkOfLastMinute.entries.filter fun e => time ≤ e.2

/-- For every evaluation that is still to come, what it would count was accepted. -/
structure Counted (w : ProofOfWorkRun) : Prop where
  past : ∀ a ∈ w.accepted, a.time ≤ w.now
  counted : ∀ time, w.now - 60000 ≤ time →
    (w.recordedSince time).map (fun e => (some (.string e.1), e.2)) =
      (w.acceptedSince time).map Acceptance.entry

variable {sha256 : Sha256} {w t : ProofOfWorkRun} {a : ProofOfWorkAction}

/-- A fresh nonce goes last, with the time of its acceptance. -/
theorem recordedSince_record {r : JsString}
    (hfresh : w.manager.proofOfWorkOfLastMinute.get? r = none) (accepted : List Acceptance)
    (time : ℤ) :
    recordedSince ⟨w.manager.recordProofOfWork w.now r, w.now, accepted⟩ time =
      w.recordedSince time ++ if time ≤ w.now then [(r, w.now)] else [] := by
  simp only [recordedSince, ProofOfWorkManager.recordProofOfWork,
    OrderedMap.entries_set_of_absent hfresh, List.filter_append, List.filter_singleton]
  split_ifs with h <;> simp [h]

/-- A cleanup takes out only what no later evaluation counts. -/
theorem recordedSince_removeProofOfWorkOlderThanOneMinute {time : ℤ} (h : w.now - 60000 ≤ time) :
    (w.manager.removeProofOfWorkOlderThanOneMinute w.now).proofOfWorkOfLastMinute.entries.filter
        (fun e => time ≤ e.2) = w.recordedSince time := by
  simp only [ProofOfWorkManager.removeProofOfWorkOlderThanOneMinute, OrderedMap.filter,
    recordedSince, List.filter_filter]
  apply List.filter_congr
  intro e _
  simp only [Bool.and_eq_left_iff_imp, decide_eq_true_eq, not_lt]
  intro he
  omega

theorem Counted.step (hw : w.Counted) (ha : a.isRecording = false)
    (h : w.step sha256 a = some t) : t.Counted := by
  rcases step_cases h with
    ⟨elapsed, rfl⟩ | ⟨c, r, data, -, hfresh, rfl⟩ | ⟨r, rfl, -⟩ | ⟨nonces, rfl⟩ | ⟨-, rfl⟩ | rfl
  · refine ⟨?_, ?_⟩
    · intro a ha
      have := hw.past a ha
      dsimp only
      omega
    · intro time htime
      apply hw.counted
      dsimp only at htime
      omega
  · refine ⟨?_, ?_⟩
    · intro a ha
      rcases List.mem_append.mp ha with hold | hnew
      · exact hw.past a hold
      · rw [List.mem_singleton.mp hnew]
    · intro time htime
      rw [recordedSince_record hfresh, acceptedSince, List.filter_append, List.map_append,
        List.map_append, hw.counted time htime, acceptedSince]
      by_cases hrecent : time ≤ w.now <;> simp [hrecent, Acceptance.entry]
  · cases ha
  · exact ⟨hw.past, hw.counted⟩
  · refine ⟨hw.past, ?_⟩
    intro time htime
    obtain ⟨-, -, hrecord⟩ := w.manager.refreshMaximumAllowedHashValue_kept w.now
    have hkept := recordedSince_removeProofOfWorkOlderThanOneMinute (w := w) htime
    rw [recordedSince, hrecord]
    exact (congrArg _ hkept).trans (hw.counted time htime)
  · exact hw

/-- After the cleanup of an evaluation, the record holds the acceptances of the last minute. -/
theorem Counted.entries (hw : w.Counted) :
    (w.manager.removeProofOfWorkOlderThanOneMinute w.now).proofOfWorkOfLastMinute.entries.map
        (fun e => (some (Json.string e.1), e.2)) =
      (w.accepted.filter fun a => w.now - 60000 ≤ a.time ∧ a.time ≤ w.now).map
        Acceptance.entry := by
  have hrecorded : (w.manager.removeProofOfWorkOlderThanOneMinute
      w.now).proofOfWorkOfLastMinute.entries = w.recordedSince (w.now - 60000) := by
    simp [ProofOfWorkManager.removeProofOfWorkOlderThanOneMinute, OrderedMap.filter,
      recordedSince]
  have haccepted : (w.accepted.filter fun a => w.now - 60000 ≤ a.time ∧ a.time ≤ w.now) =
      w.acceptedSince (w.now - 60000) := by
    apply List.filter_congr
    intro a ha
    simp [hw.past a ha]
  rw [hrecorded, haccepted]
  exact hw.counted _ le_rfl

/-- The solve count that an evaluation uses is the number of the acceptances of the last minute:
after its cleanup it goes on with this number, and has recorded each of them once. -/
theorem solveCount_eq {m : ProofOfWorkManager} {now : ℤ} {as : List ProofOfWorkAction}
    (hm : m.proofOfWorkOfLastMinute = .empty) (has : ∀ a ∈ as, a.isRecording = false)
    (hrun : run (step sha256) ⟨m, now, []⟩ as = some w) :
    let accepted := w.accepted.filter fun a => w.now - 60000 ≤ a.time ∧ a.time ≤ w.now
    let cleaned := w.manager.removeProofOfWorkOlderThanOneMinute w.now
    (w.manager.refreshMaximumAllowedHashValue w.now =
        match cleaned.updateMaximumAllowedHashValue accepted.length with
        | .ok evaluated => (evaluated, .ok ())
        | .error error => (cleaned, .error error)) ∧
      (w.manager.refreshMaximumAllowedHashValue w.now).1.proofOfWorkOfLastMinute.entries.map
          (fun e => (some (.string e.1), e.2)) = accepted.map Acceptance.entry := by
  have hw : w.Counted := by
    refine run_invariant_of_forall (fun _ _ _ hw ha h => Counted.step hw ha h) has ⟨?_, ?_⟩ hrun
    · simp
    · simp [recordedSince, acceptedSince, hm]
  intro accepted cleaned
  have hcount : cleaned.currentSolveCountPerMinute = accepted.length := by
    have hlength := congrArg List.length hw.entries
    rwa [List.length_map, List.length_map] at hlength
  refine ⟨?_, ?_⟩
  · rw [← hcount]
    rfl
  · obtain ⟨-, -, hkept⟩ := w.manager.refreshMaximumAllowedHashValue_kept w.now
    rw [hkept]
    exact hw.entries

/-! ## A proof of work that is a minute old, and not a millisecond more -/

/-- An evaluation exactly a minute later still counts the proof of work. -/
theorem solveCount_afterOneMinute :
    ∃ w, run (step fun _ => 0) ⟨ProofOfWorkManager.construct (2 ^ 256 - 1) 1 easiest, 0, []⟩
        [submit, .clock 60000] = some w ∧
      w.manager.refreshMaximumAllowedHashValue w.now =
        match (w.manager.removeProofOfWorkOlderThanOneMinute
          w.now).updateMaximumAllowedHashValue 1 with
        | .ok evaluated => (evaluated, .ok ())
        | .error error => (w.manager.removeProofOfWorkOlderThanOneMinute w.now, .error error) := by
  obtain ⟨w, hrun, haccepted⟩ : ∃ w,
      run (step fun _ => 0) ⟨ProofOfWorkManager.construct (2 ^ 256 - 1) 1 easiest, 0, []⟩
        [submit, .clock 60000] = some w ∧
      (w.accepted.filter fun a => w.now - 60000 ≤ a.time ∧ a.time ≤ w.now).length = 1 :=
    exists_of_run (by decide +kernel)
  have hcount := (solveCount_eq rfl (by decide) hrun).1
  rw [haccepted] at hcount
  exact ⟨w, hrun, hcount⟩

end ProofOfWorkRun

end DwnServer
