import DwnServer.Registration.ProofOfWorkRun

/-!
# The difficulty scale

The maximum hash value is documented to run from 1, the hardest, to its initial value. An
evaluation at a high solve rate takes off a share of it that is less than the integral part
of the multiplier over the number of evaluations in a minute, so it stays on the scale
exactly if that fraction is less than one.
-/
namespace DwnServer

open Transition

namespace ProofOfWorkManager

/-- What the documentation asks of a configuration. -/
structure Documented (options : ProofOfWorkOptions) : Prop where
  desired : ∃ D : ℕ, 1 ≤ D ∧ options.desiredSolveCountPerMinute = D
  multiplier : 1 ≤ options.difficultyIncreaseMultiplier
  evaluations : ∃ E : ℕ, 1 ≤ E ∧ difficultyEvaluationsPerMinute options = E
  initial : 1 ≤ options.initialMaximumAllowedHashValueAsBigInt

/-- What the solve rate needs of a configuration. -/
structure Rated (options : ProofOfWorkOptions) : Prop where
  desired : ∃ D : ℕ, 1 ≤ D ∧ options.desiredSolveCountPerMinute = D
  multiplier : 1 ≤ options.difficultyIncreaseMultiplier

theorem Documented.rated {options : ProofOfWorkOptions} (h : Documented options) :
    Rated options :=
  ⟨h.desired, h.multiplier⟩

/-- The maximum is on the scale. -/
def InScale (m : ProofOfWorkManager) : Prop :=
  1 ≤ m.currentMaximumAllowedHashValueAsBigInt ∧
    m.currentMaximumAllowedHashValueAsBigInt ≤ m.initialMaximumAllowedHashValueAsBigInt

/-- A remembered increment, if there is one, makes nothing harder. -/
def IncrementNonneg (m : ProofOfWorkManager) : Prop :=
  ∀ increment, m.hashValueIncrementPerEvaluation = some increment → 0 ≤ increment

/-- The solve rate in millionths of the desired one, with the multiplier. -/
def scaledRate (options : ProofOfWorkOptions) (count : ℕ) : ℤ :=
  ⌊roundDouble (roundDouble (roundDouble (count / options.desiredSolveCountPerMinute) *
    options.difficultyIncreaseMultiplier) * scaleFactor)⌋

/-! The code rounds as doubles do. The following compute the rate with any rounding, as none in
exact arithmetic. -/

def scaledRateBy (round : ℚ → ℚ) (options : ProofOfWorkOptions) (count : ℕ) : ℤ :=
  ⌊round (round (round (count / options.desiredSolveCountPerMinute) *
    options.difficultyIncreaseMultiplier) * scaleFactor)⌋

def decreasedBy (round : ℚ → ℚ) (m : ProofOfWorkManager) (latestSolveCountPerMinute : ℕ) :
    Eval ℤ := do
  let newMaximumPriorToMultiplierAdjustment ←
    BigInt.div (m.currentMaximumAllowedHashValueAsBigInt * scaleFactor)
      (scaledRateBy round m.toProofOfWorkOptions latestSolveCountPerMinute)
  let multiplier ← BigInt.div ⌊m.difficultyIncreaseMultiplier * scaleFactor⌋ scaleFactor
  let decreaseAmountPriorToFrequencyAdjustment :=
    (m.currentMaximumAllowedHashValueAsBigInt - newMaximumPriorToMultiplierAdjustment) * multiplier
  let evaluations ← BigInt.ofNumber (difficultyEvaluationsPerMinute m.toProofOfWorkOptions)
  let hashValueDecreaseAmount ← BigInt.div decreaseAmountPriorToFrequencyAdjustment evaluations
  return m.currentMaximumAllowedHashValueAsBigInt - hashValueDecreaseAmount

theorem decreasedBy_roundDouble (m : ProofOfWorkManager) (n : ℕ) :
    m.decreasedBy roundDouble n = m.decreased n := rfl

variable {m : ProofOfWorkManager} {D E n : ℕ}

/-! ## One evaluation at a high solve rate -/

/-- The multiplier loses its fraction. -/
theorem floor_mul_scaleFactor_tdiv {k : ℚ} (hk : 0 ≤ k) :
    (⌊k * scaleFactor⌋).tdiv scaleFactor = ⌊k⌋ := by
  have hnonneg : 0 ≤ ⌊k * scaleFactor⌋ := Int.floor_nonneg.mpr (by simp [scaleFactor]; positivity)
  have hfloor := Int.floor_div_natCast (k * scaleFactor) 1000000
  rw [Int.tdiv_eq_ediv_of_nonneg hnonneg]
  have hcancel : k * scaleFactor / (1000000 : ℕ) = k := by
    simp [scaleFactor]
  rw [hcancel] at hfloor
  exact hfloor.symm

/-- Rounding keeps the scaled rate at or above what a double below the rate gives. -/
theorem le_scaledRate {options : ProofOfWorkOptions} (hm : Rated options) {count : ℕ} {e k : ℤ}
    (hn : n * 1000000 ≤ 2 ^ 53) (he : -1074 ≤ e)
    (hcount : (n : ℚ) * 2 ^ e * options.desiredSolveCountPerMinute ≤ count)
    (hk : (k : ℚ) ≤ n * 2 ^ e * scaleFactor) : k ≤ scaledRate options count := by
  obtain ⟨D, hD, hdesired⟩ := hm.desired
  have hpos : (0 : ℚ) < options.desiredSolveCountPerMinute := by
    rw [hdesired]
    exact_mod_cast hD
  have hrate : (n : ℚ) * 2 ^ e ≤ roundDouble (count / options.desiredSolveCountPerMinute) :=
    le_roundDouble (by omega) he ((le_div_iff₀ hpos).mpr hcount)
  have hmultiplied : (n : ℚ) * 2 ^ e ≤
      roundDouble (roundDouble (count / options.desiredSolveCountPerMinute) *
        options.difficultyIncreaseMultiplier) :=
    le_roundDouble (by omega) he
      (hrate.trans (le_mul_of_one_le_right (le_trans (by positivity) hrate) hm.multiplier))
  have hscale : (n : ℚ) * 2 ^ e * scaleFactor = (n * 1000000 : ℕ) * 2 ^ e := by
    push_cast [scaleFactor]
    ring
  have hscaled := le_roundDouble hn he (hscale ▸
    mul_le_mul_of_nonneg_right hmultiplied (by norm_num [scaleFactor] : (0 : ℚ) ≤ scaleFactor))
  exact Int.le_floor.mpr (hk.trans (hscale.trans_le hscaled))

/-- Above the desired rate, the scaled rate exceeds the scale. -/
theorem scaleFactor_le_scaledRate {options : ProofOfWorkOptions} (hm : Rated options)
    {count : ℕ}
    (hcount : options.desiredSolveCountPerMinute < count) :
    scaleFactor ≤ scaledRate options count :=
  le_scaledRate (n := 1) (e := 0) hm (by norm_num) (by norm_num) (by simpa using hcount.le)
    (by simp)

/-- The new maximum: the share beyond the desired rate, times the multiplier, over the
evaluations in a minute, is taken off. -/
theorem decreasedBy_eq {round : ℚ → ℚ} (hk : 0 ≤ m.difficultyIncreaseMultiplier)
    (hE : difficultyEvaluationsPerMinute m.toProofOfWorkOptions = E) (hE1 : 1 ≤ E)
    (hrate : scaleFactor ≤
      scaledRateBy round m.toProofOfWorkOptions n) :
    m.decreasedBy round n = .ok (m.currentMaximumAllowedHashValueAsBigInt -
      ((m.currentMaximumAllowedHashValueAsBigInt -
        (m.currentMaximumAllowedHashValueAsBigInt * scaleFactor).tdiv
          (scaledRateBy round m.toProofOfWorkOptions n)) *
        ⌊m.difficultyIncreaseMultiplier⌋).tdiv E) := by
  have hscale : (0 : ℤ) < scaleFactor := by decide
  simp only [decreasedBy, bind, Except.bind]
  rw [BigInt.div_of_ne_zero _ (by omega), BigInt.div_of_ne_zero _ hscale.ne', hE,
    BigInt.ofNumber_natCast]
  dsimp only
  rw [BigInt.div_of_ne_zero _ (by omega), floor_mul_scaleFactor_tdiv hk]
  rfl

theorem decreased_eq (hm : Documented m.toProofOfWorkOptions)
    (hE : difficultyEvaluationsPerMinute m.toProofOfWorkOptions = E) (hE1 : 1 ≤ E)
    (hcount : m.desiredSolveCountPerMinute < n) :
    m.decreased n = .ok (m.currentMaximumAllowedHashValueAsBigInt -
      ((m.currentMaximumAllowedHashValueAsBigInt -
        (m.currentMaximumAllowedHashValueAsBigInt * scaleFactor).tdiv
          (scaledRate m.toProofOfWorkOptions n)) *
        ⌊m.difficultyIncreaseMultiplier⌋).tdiv E) := by
  rw [← decreasedBy_roundDouble]
  exact decreasedBy_eq (zero_le_one.trans hm.multiplier) hE hE1
    (scaleFactor_le_scaledRate hm.rated hcount)

/-- An evaluation takes off something between nothing and `K / E` of the maximum. -/
theorem decrease_bounds {M rate K E : ℤ} (hM : 0 ≤ M) (hrate : scaleFactor ≤ rate) (hK : 0 ≤ K)
    (hE : 0 < E) :
    0 ≤ ((M - (M * scaleFactor).tdiv rate) * K).tdiv E ∧
      ((M - (M * scaleFactor).tdiv rate) * K).tdiv E * E ≤ M * K := by
  have hscale : (0 : ℤ) < scaleFactor := by decide
  have hprior : (M * scaleFactor).tdiv rate = M * scaleFactor / rate :=
    Int.tdiv_eq_ediv_of_nonneg (by positivity)
  have hprior0 : 0 ≤ M * scaleFactor / rate := Int.ediv_nonneg (by positivity) (by omega)
  have hprior1 : M * scaleFactor / rate ≤ M :=
    Int.ediv_le_of_le_mul (by omega) (mul_le_mul_of_nonneg_left hrate hM)
  have hshare0 : 0 ≤ (M - M * scaleFactor / rate) * K := mul_nonneg (by omega) hK
  have hshare1 : (M - M * scaleFactor / rate) * K ≤ M * K :=
    mul_le_mul_of_nonneg_right (by omega) hK
  rw [hprior, Int.tdiv_eq_ediv_of_nonneg hshare0]
  exact ⟨Int.ediv_nonneg hshare0 hE.le, (Int.ediv_mul_le _ hE.ne').trans hshare1⟩

theorem floor_multiplier_nonneg (hm : Documented m.toProofOfWorkOptions) :
    0 ≤ ⌊m.difficultyIncreaseMultiplier⌋ :=
  Int.floor_nonneg.mpr (zero_le_one.trans hm.multiplier)

/-- A decrease by less than the whole stays on the scale. -/
theorem decreased_inScale (hm : Documented m.toProofOfWorkOptions) (hscale : m.InScale)
    (hless : (⌊m.difficultyIncreaseMultiplier⌋ : ℚ) <
      difficultyEvaluationsPerMinute m.toProofOfWorkOptions)
    (hcount : m.desiredSolveCountPerMinute < n) {maximum : ℤ}
    (h : m.decreased n = .ok maximum) :
    1 ≤ maximum ∧ maximum ≤ m.currentMaximumAllowedHashValueAsBigInt := by
  obtain ⟨E, hE1, hE⟩ := hm.evaluations
  have hK : ⌊m.difficultyIncreaseMultiplier⌋ < (E : ℤ) := by
    rw [hE] at hless
    exact_mod_cast hless
  obtain ⟨hM, -⟩ := hscale
  obtain ⟨hnonneg, hle⟩ := decrease_bounds (E := E)
    (M := m.currentMaximumAllowedHashValueAsBigInt) (by omega)
    (scaleFactor_le_scaledRate hm.rated hcount) (floor_multiplier_nonneg hm) (by omega)
  rw [decreased_eq hm hE hE1 hcount] at h
  obtain rfl := Except.ok.inj h
  refine ⟨?_, by omega⟩
  have hstrict := lt_of_mul_lt_mul_right
    (hle.trans_lt (mul_lt_mul_of_pos_left hK (by omega))) (by omega)
  omega

/-- A share of at least the whole leaves nothing, when the rate is high enough. -/
theorem decreased_nonpos (hm : Documented m.toProofOfWorkOptions)
    (hM : 0 ≤ m.currentMaximumAllowedHashValueAsBigInt)
    (hmore : difficultyEvaluationsPerMinute m.toProofOfWorkOptions ≤
      (⌊m.difficultyIncreaseMultiplier⌋ : ℚ))
    (hcount : m.desiredSolveCountPerMinute < n)
    (hrate : m.currentMaximumAllowedHashValueAsBigInt * scaleFactor <
      scaledRate m.toProofOfWorkOptions n) :
    ∃ maximum ≤ 0, m.decreased n = .ok maximum := by
  obtain ⟨E, hE1, hE⟩ := hm.evaluations
  have hK : (E : ℤ) ≤ ⌊m.difficultyIncreaseMultiplier⌋ := by
    rw [hE] at hmore
    exact_mod_cast hmore
  have hprior : (m.currentMaximumAllowedHashValueAsBigInt * scaleFactor).tdiv
      (scaledRate m.toProofOfWorkOptions n) = 0 :=
    Int.tdiv_eq_zero_of_lt (mul_nonneg hM (by decide)) hrate
  refine ⟨_, ?_, decreased_eq hm hE hE1 hcount⟩
  rw [hprior, sub_zero, Int.tdiv_eq_ediv_of_nonneg (mul_nonneg hM (by omega))]
  have hwhole := Int.le_ediv_of_mul_le (a := m.currentMaximumAllowedHashValueAsBigInt) (c := E)
    (by omega) (mul_le_mul_of_nonneg_left hK hM)
  omega

/-! ## One evaluation at a low solve rate -/

theorem newIncrement_eq (hE : difficultyEvaluationsPerMinute m.toProofOfWorkOptions = E)
    (hE1 : 1 ≤ E) :
    m.newIncrement = .ok ((m.initialMaximumAllowedHashValueAsBigInt -
      m.currentMaximumAllowedHashValueAsBigInt).tdiv (10 * E)) := by
  have hten : 10 * (E : ℚ) = ((10 * E : ℕ) : ℚ) := by push_cast; ring
  simp only [newIncrement, hE, hten, BigInt.ofNumber_natCast, bind, Except.bind]
  rw [BigInt.div_of_ne_zero _ (by omega)]
  push_cast
  rfl

theorem increment_nonneg (hm : Documented m.toProofOfWorkOptions) (hscale : m.InScale)
    (hincrement : m.IncrementNonneg) {increment : ℤ}
    (h : m.hashValueIncrementPerEvaluation.elim m.newIncrement .ok = .ok increment) :
    0 ≤ increment := by
  obtain ⟨E, hE1, hE⟩ := hm.evaluations
  cases hremembered : m.hashValueIncrementPerEvaluation with
  | some remembered =>
    rw [hremembered] at h
    obtain rfl := Except.ok.inj h
    exact hincrement _ hremembered
  | none =>
    rw [hremembered] at h
    obtain rfl := Except.ok.inj ((newIncrement_eq hE hE1).symm.trans h)
    exact Int.tdiv_nonneg (by have := hscale.2; omega) (by omega)

/-! ## Every evaluation -/

/-- In a documented configuration an evaluation does not throw. -/
theorem exists_updateMaximumAllowedHashValue (hm : Documented m.toProofOfWorkOptions) :
    ∃ m', m.updateMaximumAllowedHashValue n = .ok m' := by
  obtain ⟨E, hE1, hE⟩ := hm.evaluations
  unfold updateMaximumAllowedHashValue
  split_ifs with hcount
  · rw [decreased_eq hm hE hE1 hcount]
    exact ⟨_, rfl⟩
  · exact ⟨m, rfl⟩
  · cases m.hashValueIncrementPerEvaluation with
    | some increment => exact ⟨_, rfl⟩
    | none =>
      rw [Option.elim, newIncrement_eq hE hE1]
      exact ⟨_, rfl⟩

/-- An evaluation in a configuration whose multiplier is small enough stays on the scale. -/
theorem InScale.update {m' : ProofOfWorkManager} (hm : Documented m.toProofOfWorkOptions)
    (hless : (⌊m.difficultyIncreaseMultiplier⌋ : ℚ) <
      difficultyEvaluationsPerMinute m.toProofOfWorkOptions)
    (hscale : m.InScale) (hincrement : m.IncrementNonneg)
    (h : m.updateMaximumAllowedHashValue n = .ok m') :
    m'.InScale ∧ m'.IncrementNonneg := by
  rcases updateMaximumAllowedHashValue_ok h with
    ⟨hcount, maximum, hdecreased, rfl⟩ | ⟨-, -, rfl⟩ | ⟨-, -, increment, hadded, rfl⟩
  · obtain ⟨hlow, hhigh⟩ := decreased_inScale hm hscale hless hcount hdecreased
    exact ⟨⟨hlow, hhigh.trans hscale.2⟩, nofun⟩
  · exact ⟨hscale, hincrement⟩
  · have hnonneg := increment_nonneg hm hscale hincrement hadded
    obtain ⟨hlow, hhigh⟩ := hscale
    refine ⟨⟨le_min (by omega) (by omega), min_le_right _ _⟩, fun i hi => ?_⟩
    obtain rfl := Option.some.inj hi
    exact hnonneg

end ProofOfWorkManager

/-! ## Runs -/

namespace ProofOfWorkRun

open ProofOfWorkManager

/-- What every step keeps. -/
structure Scaled (options : ProofOfWorkOptions) (w : ProofOfWorkRun) : Prop where
  options : w.manager.toProofOfWorkOptions = options
  inScale : w.manager.InScale
  increment : w.manager.IncrementNonneg

variable {sha256 : Sha256} {options : ProofOfWorkOptions}

theorem Scaled.step {w t : ProofOfWorkRun} {a : ProofOfWorkAction} (hm : Documented options)
    (hless : (⌊options.difficultyIncreaseMultiplier⌋ : ℚ) < difficultyEvaluationsPerMinute options)
    (hw : w.Scaled options) (h : w.step sha256 a = some t) : t.Scaled options := by
  obtain ⟨hoptions, hscale, hincrement⟩ := hw
  rcases step_cases h with
    ⟨elapsed, rfl⟩ | ⟨_, r, _, -, -, rfl⟩ | ⟨r, -, rfl⟩ | ⟨nonces, rfl⟩ | ⟨-, rfl⟩ | rfl
  case inr.inr.inr.inr.inl =>
    obtain ⟨hkept, -, -⟩ := w.manager.refreshMaximumAllowedHashValue_kept w.now
    subst hoptions
    rcases w.manager.refreshMaximumAllowedHashValue_cases w.now with hcleaned | hupdated
    · exact ⟨hkept, by rw [hcleaned]; exact hscale, by rw [hcleaned]; exact hincrement⟩
    · obtain ⟨hscale', hincrement'⟩ :=
        InScale.update (m := w.manager.removeProofOfWorkOlderThanOneMinute w.now) hm hless hscale
          hincrement hupdated
      exact ⟨hkept, hscale', hincrement'⟩
  all_goals exact ⟨hoptions, hscale, hincrement⟩

/-- Record `n` different proofs of work. -/
def recordings (n : ℕ) : List ProofOfWorkAction :=
  (List.range n).map fun i => .recordProofOfWork (List.replicate i 0)

variable (sha256) in
theorem run_recordings (w : ProofOfWorkRun) (hempty : w.manager.proofOfWorkOfLastMinute = .empty)
    (n : ℕ) :
    ∃ proofs, run (step sha256) w (recordings n) =
        some { w with manager := { w.manager with proofOfWorkOfLastMinute := proofs } } ∧
      proofs.entries = (List.range n).map fun i => (List.replicate i 0, w.now) := by
  induction n with
  | zero => exact ⟨.empty, by simp [recordings, ← hempty], rfl⟩
  | succ n ih =>
    obtain ⟨proofs, hrun, hentries⟩ := ih
    refine ⟨proofs.set (List.replicate n 0) w.now, ?_, ?_⟩
    · rw [recordings, List.range_succ, List.map_append, run_append, ← recordings, hrun]
      rfl
    · have hfresh : proofs.get? (List.replicate n 0) = none := by
        rw [← OrderedMap.has_eq_false, OrderedMap.has, hentries]
        simp only [List.any_map, List.any_eq_false, List.mem_range, Function.comp_apply,
          decide_eq_true_eq]
        intro i hi heq
        have := congrArg List.length heq
        simp at this
        omega
      rw [OrderedMap.entries_set_of_absent hfresh, hentries, List.range_succ, List.map_append]
      rfl

variable (sha256) in
/-- Enough proofs of work at once push the maximum off the scale, when an evaluation may
take off all of it. -/
theorem exists_run_off_scale (w : ProofOfWorkRun) (hm : Documented w.manager.toProofOfWorkOptions)
    (hempty : w.manager.proofOfWorkOfLastMinute = .empty) (hscale : w.manager.InScale)
    (hmore : difficultyEvaluationsPerMinute w.manager.toProofOfWorkOptions ≤
      (⌊w.manager.difficultyIncreaseMultiplier⌋ : ℚ)) :
    ∃ as t, run (step sha256) w as = some t ∧
      t.manager.currentMaximumAllowedHashValueAsBigInt ≤ 0 := by
  obtain ⟨D, hD, hdesired⟩ := hm.desired
  obtain ⟨M, hM⟩ := Int.eq_ofNat_of_zero_le (zero_le_one.trans hscale.1)
  obtain ⟨proofs, hrun, hentries⟩ := run_recordings sha256 w hempty (D * 2 ^ M)
  let m : ProofOfWorkManager := { w.manager with proofOfWorkOfLastMinute := proofs }
  have hcount : m.currentSolveCountPerMinute = D * 2 ^ M := by
    simp [currentSolveCountPerMinute, OrderedMap.size, m, hentries]
  have hpower : M < 2 ^ M := Nat.lt_two_pow_self
  have hover : m.desiredSolveCountPerMinute < m.currentSolveCountPerMinute := by
    have hmore : D < D * 2 ^ M := by
      have := hscale.1
      exact lt_mul_of_one_lt_right (by omega) (by omega)
    rw [hcount, show m.desiredSolveCountPerMinute = D from hdesired]
    exact_mod_cast hmore
  have hrate : m.currentMaximumAllowedHashValueAsBigInt * scaleFactor <
      scaledRate m.toProofOfWorkOptions m.currentSolveCountPerMinute := by
    have hfloor : 2 ^ M * scaleFactor ≤ scaledRate m.toProofOfWorkOptions (D * 2 ^ M) := by
      refine le_scaledRate (n := 1) (e := M) hm.rated (by norm_num) (by omega) ?_ (by simp)
      rw [show m.desiredSolveCountPerMinute = D from hdesired]
      push_cast
      rw [zpow_natCast]
      exact le_of_eq (by ring)
    have hless : (M : ℤ) * scaleFactor < 2 ^ M * scaleFactor :=
      mul_lt_mul_of_pos_right (by exact_mod_cast hpower) (by decide)
    rw [hcount, show m.currentMaximumAllowedHashValueAsBigInt = M from hM]
    exact hless.trans_le hfloor
  obtain ⟨maximum, hnonpos, hdecreased⟩ := decreased_nonpos (m := m) hm
    (zero_le_one.trans hscale.1) hmore hover hrate
  -- the clock stands still, so the evaluation cleans nothing up
  have hfresh : ∀ e ∈ m.proofOfWorkOfLastMinute.entries, w.now - 60000 ≤ e.2 := by
    intro e he
    obtain ⟨i, -, rfl⟩ := List.mem_map.mp (hentries ▸ he)
    simp
  refine ⟨recordings (D * 2 ^ M) ++ [.refreshMaximumAllowedHashValue], _, by
    rw [run_append, hrun]; rfl, ?_⟩
  exact (refreshMaximumAllowedHashValue_of_decreased hfresh hover hdecreased).trans_le hnonpos

/-- In every reachable state the maximum is on the scale, exactly if the integral part of
the multiplier is below the number of evaluations in a minute. -/
theorem inScale_iff {now : ℤ} {random random' : BitVec 256} {input : ProofOfWorkManager.Input}
    {m : ProofOfWorkManager} (hcreate : create sha256 now random random' input = .ok m)
    (hm : Documented m.toProofOfWorkOptions) :
    (∀ as t, run (step sha256) ⟨m, now, []⟩ as = some t →
        1 ≤ t.manager.currentMaximumAllowedHashValueAsBigInt ∧
          t.manager.currentMaximumAllowedHashValueAsBigInt ≤
            m.initialMaximumAllowedHashValueAsBigInt) ↔
      (⌊m.difficultyIncreaseMultiplier⌋ : ℚ) <
        difficultyEvaluationsPerMinute m.toProofOfWorkOptions := by
  have hdesired : 0 ≤ m.desiredSolveCountPerMinute := by
    obtain ⟨D, -, hD⟩ := hm.desired
    rw [hD]
    positivity
  obtain ⟨initial, nonces, -, rfl⟩ := create_eq hcreate hdesired
  have hstart : Scaled (construct initial random input).toProofOfWorkOptions
      ⟨{ construct initial random input with challengeNonces := nonces }, now, []⟩ :=
    ⟨rfl, ⟨hm.initial, le_rfl⟩, fun i hi => by obtain rfl := Option.some.inj hi; decide⟩
  constructor
  · intro h
    by_contra hmore
    obtain ⟨as, t, hrun, hnonpos⟩ := exists_run_off_scale sha256
      ⟨{ construct initial random input with challengeNonces := nonces }, now, []⟩ hm rfl
      hstart.inScale (not_lt.mp hmore)
    have := (h as t hrun).1
    omega
  · intro hless as t hrun
    obtain ⟨hoptions, ⟨hlow, hhigh⟩, -⟩ :=
      run_invariant (fun _ _ _ hw hstep => Scaled.step hm hless hw hstep) hstart hrun
    exact ⟨hlow, hhigh.trans_eq (by rw [hoptions])⟩

/-! ## One evaluation a minute -/

/-- A manager of initial maximum `FF` that evaluates its difficulty every `seconds`. -/
def everySeconds (seconds : ℚ) : ProofOfWorkManager.Input :=
  ⟨1, false, some (js "FF"), none, none, none, some seconds⟩

theorem documented_everySeconds {E : ℕ} (hE : 1 ≤ E) :
    Documented (construct 255 0 (everySeconds (60 / E))).toProofOfWorkOptions where
  desired := ⟨1, le_rfl, by simp [construct, everySeconds]⟩
  multiplier := by simp [construct, everySeconds]
  evaluations := by
    have hE0 : (E : ℚ) ≠ 0 := by
      have : 0 < E := hE
      positivity
    refine ⟨E, hE, ?_⟩
    simp only [difficultyEvaluationsPerMinute, construct, everySeconds, Option.getD_some]
    field_simp
    norm_num
  initial := by simp [construct]

/-- Six evaluations a minute, the default, keep the maximum on the scale. -/
theorem inScale_everyTenSeconds :
    ∃ t, run (step fun _ => 0) ⟨construct 255 0 (everySeconds (60 / 6)), 0, []⟩
        (recordings 2 ++ List.replicate 8 .refreshMaximumAllowedHashValue) = some t ∧
      1 ≤ t.manager.currentMaximumAllowedHashValueAsBigInt ∧
        t.manager.currentMaximumAllowedHashValueAsBigInt ≤ 255 := by
  have hscale := (@inScale_iff (fun _ => 0) 0 0 0 (everySeconds (60 / 6)) _ rfl
    (documented_everySeconds (by decide))).mpr (by decide +kernel)
  obtain ⟨t, hrun, -⟩ : ∃ t, run (step fun _ => 0)
      ⟨construct 255 0 (everySeconds (60 / 6)), 0, []⟩
      (recordings 2 ++ List.replicate 8 .refreshMaximumAllowedHashValue) = some t ∧ True :=
    exists_of_run (by decide +kernel)
  exact ⟨t, hrun, hscale _ t hrun⟩

/-- One evaluation a minute halves the maximum at twice the desired rate, down to zero. -/
theorem not_inScale : ¬∀ (sha256 : Sha256) (now : ℤ) (random random' : BitVec 256)
    (input : ProofOfWorkManager.Input) (m : ProofOfWorkManager),
    create sha256 now random random' input = .ok m → Documented m.toProofOfWorkOptions →
    m.initialMaximumAllowedHashValueAsBigInt < 2 ^ 256 →
    ∀ as t, run (step sha256) ⟨m, now, []⟩ as = some t →
      1 ≤ t.manager.currentMaximumAllowedHashValueAsBigInt ∧
        t.manager.currentMaximumAllowedHashValueAsBigInt ≤
          m.initialMaximumAllowedHashValueAsBigInt := by
  intro h
  obtain ⟨t, hrun, hzero⟩ : ∃ t, run (step fun _ => 0)
      ⟨construct 255 0 (everySeconds (60 / 1)), 0, []⟩
      (recordings 2 ++ List.replicate 8 .refreshMaximumAllowedHashValue) = some t ∧
      t.manager.currentMaximumAllowedHashValueAsBigInt = 0 :=
    exists_of_run (by decide +kernel)
  have hscale := (h (fun _ => 0) 0 0 0 (everySeconds (60 / 1)) _ rfl
    (by exact_mod_cast documented_everySeconds le_rfl) (by decide) _ t hrun).1
  omega

end ProofOfWorkRun

end DwnServer
