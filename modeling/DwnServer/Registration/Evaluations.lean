import DwnServer.Registration.DifficultyStep

/-!
# Evaluations that throw

An evaluation converts the number of evaluations in a minute to a bigint, which throws when it
is not whole. The promise of the evaluation is not awaited, so nobody learns of it: the old
proofs of work are gone and the maximum stays.
-/
namespace DwnServer

open Transition

namespace ProofOfWorkManager

/-- What the comments of the code assume of a configuration. -/
structure Assumed (options : ProofOfWorkOptions) : Prop where
  rated : Rated options
  evaluations : 1 ≤ difficultyEvaluationsPerMinute options

/-- The number of evaluations in a minute is whole. -/
def WholeEvaluations (options : ProofOfWorkOptions) : Prop :=
  (difficultyEvaluationsPerMinute options).den = 1

instance (options : ProofOfWorkOptions) : Decidable (WholeEvaluations options) :=
  inferInstanceAs (Decidable ((difficultyEvaluationsPerMinute options).den = 1))

/-- An increment is remembered unless the maximum has been lowered, which takes whole
evaluations. -/
def Remembers (m : ProofOfWorkManager) : Prop :=
  WholeEvaluations m.toProofOfWorkOptions ∨ m.hashValueIncrementPerEvaluation ≠ none

variable {m m' : ProofOfWorkManager} {n : ℕ}

theorem exists_eq_of_whole (hm : Assumed m.toProofOfWorkOptions)
    (hwhole : WholeEvaluations m.toProofOfWorkOptions) :
    ∃ E : ℕ, 1 ≤ E ∧ difficultyEvaluationsPerMinute m.toProofOfWorkOptions = E := by
  have heq : difficultyEvaluationsPerMinute m.toProofOfWorkOptions =
      (difficultyEvaluationsPerMinute m.toProofOfWorkOptions).num :=
    (Rat.coe_int_num_of_den_eq_one hwhole).symm
  have hone := hm.evaluations
  rw [heq] at hone
  obtain ⟨E, hE⟩ := Int.eq_ofNat_of_zero_le (zero_le_one.trans (by exact_mod_cast hone))
  rw [hE] at heq hone
  exact ⟨E, by exact_mod_cast hone, heq⟩

/-- Lowering the maximum goes through exactly with whole evaluations. -/
theorem exists_decreased_iff (hm : Assumed m.toProofOfWorkOptions)
    (hcount : m.desiredSolveCountPerMinute < n) :
    (∃ maximum, m.decreased n = .ok maximum) ↔ WholeEvaluations m.toProofOfWorkOptions := by
  have hrate := scaleFactor_le_scaledRate hm.rated hcount
  have hscale : (0 : ℤ) < scaleFactor := by decide
  simp only [decreased, bind, Except.bind]
  rw [BigInt.div_of_ne_zero _ (b := ⌊_⌋) (by unfold scaledRate at hrate; omega),
    BigInt.div_of_ne_zero _ hscale.ne']
  constructor
  · rintro ⟨maximum, h⟩
    by_contra hfraction
    unfold WholeEvaluations at hfraction
    simp only [BigInt.ofNumber, if_neg hfraction] at h
    cases h
  · intro hwhole
    obtain ⟨E, hE1, hE⟩ := exists_eq_of_whole hm hwhole
    rw [hE, BigInt.ofNumber_natCast]
    dsimp only
    rw [BigInt.div_of_ne_zero _ (by omega)]
    exact ⟨_, rfl⟩

theorem exists_increment (hm : Assumed m.toProofOfWorkOptions) (hremembers : m.Remembers) :
    ∃ increment, m.hashValueIncrementPerEvaluation.elim m.newIncrement .ok = .ok increment := by
  cases hremembered : m.hashValueIncrementPerEvaluation with
  | some increment => exact ⟨increment, rfl⟩
  | none =>
    have hwhole := hremembers.resolve_right (not_not.mpr hremembered)
    obtain ⟨E, hE1, hE⟩ := exists_eq_of_whole hm hwhole
    exact ⟨_, newIncrement_eq hE hE1⟩

/-- The update goes through exactly if the solve rate is not high or the evaluations are
whole. -/
theorem exists_update_iff (hm : Assumed m.toProofOfWorkOptions) (hremembers : m.Remembers) :
    (∃ m', m.updateMaximumAllowedHashValue n = .ok m') ↔
      (n : ℚ) ≤ m.desiredSolveCountPerMinute ∨
        WholeEvaluations m.toProofOfWorkOptions := by
  unfold updateMaximumAllowedHashValue
  split_ifs with hcount hinitial
  · rw [or_iff_right (not_le.mpr hcount), ← exists_decreased_iff hm hcount]
    cases m.decreased n with
    | error e =>
      refine iff_of_false ?_ ?_
      · rintro ⟨m', h⟩
        cases h
      · rintro ⟨maximum, h⟩
        cases h
    | ok maximum => exact iff_of_true ⟨_, rfl⟩ ⟨maximum, rfl⟩
  · exact iff_of_true ⟨m, rfl⟩ (Or.inl (not_lt.mp hcount))
  · obtain ⟨increment, hincrement⟩ := exists_increment hm hremembers
    rw [hincrement]
    exact iff_of_true ⟨_, rfl⟩ (Or.inl (not_lt.mp hcount))

theorem Remembers.update (hm : Assumed m.toProofOfWorkOptions) (hremembers : m.Remembers)
    (h : m.updateMaximumAllowedHashValue n = .ok m') : m'.Remembers := by
  rcases updateMaximumAllowedHashValue_ok h with
    ⟨hcount, maximum, hdecreased, rfl⟩ | ⟨-, -, rfl⟩ | ⟨-, -, increment, -, rfl⟩
  · exact Or.inl ((exists_decreased_iff hm hcount).mp ⟨maximum, hdecreased⟩)
  · exact hremembers
  · exact Or.inr (Option.some_ne_none increment)

theorem refresh_completes_iff (now : ℤ) :
    (m.refreshMaximumAllowedHashValue now).2 = .ok () ↔
      ∃ m', (m.removeProofOfWorkOlderThanOneMinute now).updateMaximumAllowedHashValue
        (m.removeProofOfWorkOlderThanOneMinute now).currentSolveCountPerMinute = .ok m' := by
  unfold refreshMaximumAllowedHashValue
  dsimp only
  cases (m.removeProofOfWorkOlderThanOneMinute now).updateMaximumAllowedHashValue
      (m.removeProofOfWorkOlderThanOneMinute now).currentSolveCountPerMinute with
  | error e =>
    refine iff_of_false (fun h => by cases h) ?_
    rintro ⟨m', h⟩
    cases h
  | ok m' => exact iff_of_true rfl ⟨m', rfl⟩

end ProofOfWorkManager

namespace ProofOfWorkRun

open ProofOfWorkManager

/-- An evaluation runs to completion. -/
def Completes (w : ProofOfWorkRun) (a : ProofOfWorkAction) (_ : ProofOfWorkRun) : Prop :=
  a = .refreshMaximumAllowedHashValue →
    (w.manager.refreshMaximumAllowedHashValue w.now).2 = .ok ()

/-- An evaluation finds no more solves than desired, or there is a whole number of evaluations in
a minute. -/
def Evaluable (w : ProofOfWorkRun) (a : ProofOfWorkAction) : Prop :=
  a = .refreshMaximumAllowedHashValue →
    (w.solveCount : ℚ) ≤ w.manager.desiredSolveCountPerMinute ∨
      WholeEvaluations w.manager.toProofOfWorkOptions

instance (w : ProofOfWorkRun) : ∀ a, Decidable (w.Evaluable a)
  | .refreshMaximumAllowedHashValue =>
    decidable_of_iff ((w.solveCount : ℚ) ≤ w.manager.desiredSolveCountPerMinute ∨
      WholeEvaluations w.manager.toProofOfWorkOptions) ⟨fun h _ => h, fun h => h rfl⟩
  | .clock _ | .verifyProofOfWork .. | .recordProofOfWork _ | .refreshChallengeNonce _ =>
    .isTrue fun h => nomatch h

/-- What every step keeps. -/
structure Remembering (w : ProofOfWorkRun) : Prop where
  assumed : Assumed w.manager.toProofOfWorkOptions
  remembers : w.manager.Remembers

variable {sha256 : Sha256} {w t : ProofOfWorkRun} {a : ProofOfWorkAction}

theorem Remembering.step (hw : w.Remembering) (h : w.step sha256 a = some t) : t.Remembering := by
  rcases step_cases h with
    ⟨elapsed, rfl⟩ | ⟨_, r, _, -, -, rfl⟩ | ⟨r, -, rfl⟩ | ⟨nonces, rfl⟩ | ⟨-, rfl⟩ | rfl
  case inr.inr.inr.inr.inl =>
    obtain ⟨hkept, -, -⟩ := w.manager.refreshMaximumAllowedHashValue_kept w.now
    refine ⟨hkept ▸ hw.assumed, ?_⟩
    rcases w.manager.refreshMaximumAllowedHashValue_cases w.now with hcleaned | hupdated
    · dsimp only
      rw [hcleaned]
      exact hw.remembers
    · exact Remembers.update (m := w.manager.removeProofOfWorkOlderThanOneMinute w.now)
        hw.assumed hw.remembers hupdated
  all_goals exact ⟨hw.assumed, hw.remembers⟩

theorem Remembering.completes (hw : w.Remembering) : w.Completes a t ↔ w.Evaluable a := by
  refine forall_congr' fun _ => ?_
  rw [refresh_completes_iff]
  exact exists_update_iff (m := w.manager.removeProofOfWorkOlderThanOneMinute w.now) hw.assumed
    hw.remembers

/-- In every run of a manager, the evaluations run to completion exactly if each of them finds the
solve rate low or the evaluations of a minute whole. -/
theorem completes_iff {now : ℤ} {random random' : BitVec 256} {input : ProofOfWorkManager.Input}
    {m : ProofOfWorkManager} (hcreate : create sha256 now random random' input = .ok m)
    (hm : Assumed m.toProofOfWorkOptions) (as : List ProofOfWorkAction) :
    Along (step sha256) Completes ⟨m, now, []⟩ as ↔
      Along (step sha256) (fun w a _ => w.Evaluable a) ⟨m, now, []⟩ as := by
  have hdesired : 0 ≤ m.desiredSolveCountPerMinute := by
    obtain ⟨D, -, hD⟩ := hm.rated.desired
    rw [hD]
    positivity
  obtain ⟨initial, nonces, -, rfl⟩ := create_eq hcreate hdesired
  refine along_congr (I := Remembering) (fun _ _ _ hw h => hw.step h)
    (fun _ _ _ hw _ => hw.completes) ⟨hm, Or.inr ?_⟩
  exact Option.some_ne_none 1

/-! ## An evaluation every seven seconds -/

theorem assumed_everySeconds {seconds : ℚ} (hpos : 0 < seconds) (hle : seconds ≤ 60) :
    Assumed (construct 255 0 (everySeconds seconds)).toProofOfWorkOptions where
  rated := ⟨⟨1, le_rfl, by simp [construct, everySeconds]⟩, by simp [construct, everySeconds]⟩
  evaluations := by
    simp only [difficultyEvaluationsPerMinute, construct, everySeconds, Option.getD_some]
    rw [le_div_iff₀ (by positivity)]
    linarith

/-- Two solves, and six evaluations in a minute. -/
theorem completes_everyTenSeconds : Along (step fun _ => 0) Completes
    ⟨construct 255 0 (everySeconds 10), 0, []⟩
    (recordings 2 ++ [.refreshMaximumAllowedHashValue]) := by
  refine (@completes_iff (fun _ => 0) 0 0 0 (everySeconds 10) _ rfl
    (assumed_everySeconds (by norm_num) (by norm_num)) _).mpr ?_
  decide +kernel

/-- After two solves, the evaluation throws. -/
theorem not_completes : ¬∀ (sha256 : Sha256) (now : ℤ) (random random' : BitVec 256)
    (input : ProofOfWorkManager.Input) (m : ProofOfWorkManager),
    create sha256 now random random' input = .ok m → Assumed m.toProofOfWorkOptions →
    ∀ as, Along (step sha256) Completes ⟨m, now, []⟩ as := by
  intro h
  obtain ⟨t, hrun, hthrows⟩ : ∃ t, run (step fun _ => 0)
      ⟨construct 255 0 (everySeconds 7), 0, []⟩ (recordings 2) = some t ∧
      (t.manager.refreshMaximumAllowedHashValue t.now).2.isOk = false :=
    exists_of_run (by decide +kernel)
  have hcompletes := Along.at (h (fun _ => 0) 0 0 0 (everySeconds 7) _ rfl
    (assumed_everySeconds (by norm_num) (by norm_num))
    (recordings 2 ++ [.refreshMaximumAllowedHashValue])) hrun rfl rfl
  rw [hcompletes] at hthrows
  cases hthrows

end ProofOfWorkRun

end DwnServer
