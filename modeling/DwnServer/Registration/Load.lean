import DwnServer.Registration.Difficulty

/-!
# More load

An evaluation that finds more solves never leaves a larger maximum. Above the desired count
the maximum falls with the solve rate, also where the rate is rounded; at the desired count
and below it does not fall at all.
-/
namespace DwnServer

namespace ProofOfWorkManager

/-! ## Any rounding -/

/-- The evaluation after the cleanup. -/
def updateBy (round : ℚ → ℚ) (m : ProofOfWorkManager) : Eval ProofOfWorkManager := do
  if (m.currentSolveCountPerMinute : ℚ) > m.desiredSolveCountPerMinute then
    let newMaximum ← m.decreasedBy round m.currentSolveCountPerMinute
    return { m with
      currentMaximumAllowedHashValueAsBigInt := newMaximum
      hashValueIncrementPerEvaluation := none }
  else m.updateMaximumAllowedHashValue m.currentSolveCountPerMinute

/-- The state after an evaluation, and whether it threw. -/
def refreshBy (round : ℚ → ℚ) (m : ProofOfWorkManager) (now : ℤ) :
    ProofOfWorkManager × Eval Unit :=
  let m := m.removeProofOfWorkOlderThanOneMinute now
  match m.updateBy round with
  | .ok m => (m, .ok ())
  | .error error => (m, .error error)

/-- Without rounding. -/
def refreshExactly : ProofOfWorkManager → ℤ → ProofOfWorkManager × Eval Unit := refreshBy id

theorem refreshBy_roundDouble (m : ProofOfWorkManager) (now : ℤ) :
    m.refreshBy roundDouble now = m.refreshMaximumAllowedHashValue now := by
  have hupdate : ∀ m : ProofOfWorkManager,
      m.updateBy roundDouble = m.updateMaximumAllowedHashValue m.currentSolveCountPerMinute := by
    intro m
    unfold updateBy updateMaximumAllowedHashValue
    rw [decreasedBy_roundDouble]
    split_ifs <;> rfl
  rw [refreshBy, hupdate]
  rfl

/-- A rounding keeps the order, and loses no more than it has to of one and of the scale. -/
structure IsRounding (round : ℚ → ℚ) : Prop where
  mono : ∀ ⦃q r : ℚ⦄, 0 ≤ q → q ≤ r → round q ≤ round r
  one : 1 ≤ round 1
  scale : (scaleFactor : ℚ) ≤ round scaleFactor

theorem isRounding_id : IsRounding id := ⟨fun _ _ _ h => h, le_rfl, le_rfl⟩

theorem isRounding_roundDouble : IsRounding roundDouble where
  mono _ _ := roundDouble_mono
  one := by
    have h := @le_roundDouble 1 0 1 (by norm_num) (by norm_num) (by norm_num)
    simpa using h
  scale := by
    have h := @le_roundDouble 1000000 0 scaleFactor (by norm_num) (by norm_num)
      (by norm_num [scaleFactor])
    simpa [scaleFactor] using h

variable {round : ℚ → ℚ} {options : ProofOfWorkOptions} {m : ProofOfWorkManager}

section Rate

variable {n₁ n₂ : ℕ}

theorem IsRounding.one_le (hround : IsRounding round) {q : ℚ} (h : 1 ≤ q) : 1 ≤ round q :=
  hround.one.trans (hround.mono zero_le_one h)

/-- A higher count gives a higher rate. -/
theorem scaledRateBy_mono (hround : IsRounding round) (ho : Rated options)
    (hover : options.desiredSolveCountPerMinute < n₁) (h : n₁ ≤ n₂) :
    scaleFactor ≤ scaledRateBy round options n₁ ∧
      scaledRateBy round options n₁ ≤ scaledRateBy round options n₂ := by
  obtain ⟨D, hD, hdesired⟩ := ho.desired
  have hpos : (0 : ℚ) < options.desiredSolveCountPerMinute := by
    rw [hdesired]
    exact_mod_cast hD
  have hk := ho.multiplier
  have hscale : (0 : ℚ) ≤ scaleFactor := by norm_num [scaleFactor]
  have hrate : 1 ≤ (n₁ : ℚ) / options.desiredSolveCountPerMinute :=
    (one_le_div₀ hpos).mpr hover.le
  have hrates : (n₁ : ℚ) / options.desiredSolveCountPerMinute ≤
      n₂ / options.desiredSolveCountPerMinute :=
    div_le_div_of_nonneg_right (by exact_mod_cast h) hpos.le
  have hone := hround.one_le hrate
  have hmultiplied := one_le_mul_of_one_le_of_one_le hone hk
  have hone' := hround.one_le hmultiplied
  constructor
  · refine Int.le_floor.mpr (hround.scale.trans (hround.mono hscale ?_))
    exact le_mul_of_one_le_left hscale hone'
  · refine Int.floor_mono (hround.mono (mul_nonneg (zero_le_one.trans hone') hscale) ?_)
    refine mul_le_mul_of_nonneg_right (hround.mono (zero_le_one.trans hmultiplied) ?_) hscale
    exact mul_le_mul_of_nonneg_right (hround.mono (zero_le_one.trans hrate) hrates)
      (zero_le_one.trans hk)

/-- A higher rate takes more off. -/
theorem decrease_mono {M rate₁ rate₂ K E : ℤ} (hM : 0 ≤ M) (hrate : scaleFactor ≤ rate₁)
    (h : rate₁ ≤ rate₂) (hK : 0 ≤ K) (hE : 0 < E) :
    ((M - (M * scaleFactor).tdiv rate₁) * K).tdiv E ≤
      ((M - (M * scaleFactor).tdiv rate₂) * K).tdiv E := by
  have hscale : (0 : ℤ) < scaleFactor := by decide
  have hpart : 0 ≤ M * scaleFactor := by positivity
  have hprior : (M * scaleFactor).tdiv rate₂ ≤ (M * scaleFactor).tdiv rate₁ := by
    rw [Int.tdiv_eq_ediv_of_nonneg hpart, Int.tdiv_eq_ediv_of_nonneg hpart]
    refine Int.le_ediv_of_mul_le (by omega) ?_
    calc M * scaleFactor / rate₂ * rate₁ ≤ M * scaleFactor / rate₂ * rate₂ :=
          mul_le_mul_of_nonneg_left h (Int.ediv_nonneg hpart (by omega))
      _ ≤ M * scaleFactor := Int.ediv_mul_le _ (by omega)
  have hprior₁ : (M * scaleFactor).tdiv rate₁ ≤ M := by
    rw [Int.tdiv_eq_ediv_of_nonneg hpart]
    exact Int.ediv_le_of_le_mul (by omega) (mul_le_mul_of_nonneg_left hrate hM)
  have hshare : (M - (M * scaleFactor).tdiv rate₁) * K ≤
      (M - (M * scaleFactor).tdiv rate₂) * K :=
    mul_le_mul_of_nonneg_right (by omega) hK
  have hshare₀ : 0 ≤ (M - (M * scaleFactor).tdiv rate₁) * K := mul_nonneg (by omega) hK
  rw [Int.tdiv_eq_ediv_of_nonneg hshare₀, Int.tdiv_eq_ediv_of_nonneg (hshare₀.trans hshare)]
  exact Int.ediv_le_ediv hE hshare

end Rate

/-! ## One state, two solve counts -/

/-- The manager with other proofs of work in its memory. -/
def withProofs (m : ProofOfWorkManager) (proofs : OrderedMap JsString ℤ) : ProofOfWorkManager :=
  { m with proofOfWorkOfLastMinute := proofs }

/-- The solves that an evaluation counts. -/
def solvesAt (proofs : OrderedMap JsString ℤ) (now : ℤ) : ℕ :=
  (proofs.filter fun _ t => ¬t < now - 60 * 1000).size

/-- Both evaluations run to completion, and the second leaves no larger maximum. -/
structure NoEasier (refresh : ProofOfWorkManager → ProofOfWorkManager × Eval Unit)
    (m₁ m₂ : ProofOfWorkManager) : Prop where
  first : (refresh m₁).2 = .ok ()
  second : (refresh m₂).2 = .ok ()
  maximum : (refresh m₂).1.currentMaximumAllowedHashValueAsBigInt ≤
    (refresh m₁).1.currentMaximumAllowedHashValueAsBigInt

variable {proofs proofs₁ proofs₂ : OrderedMap JsString ℤ} {now : ℤ}

theorem refreshBy_of_ok {m' : ProofOfWorkManager}
    (h : (m.removeProofOfWorkOlderThanOneMinute now).updateBy round = .ok m') :
    m.refreshBy round now = (m', .ok ()) := by
  simp only [refreshBy, h]

theorem updateBy_of_over {maximum : ℤ}
    (hover : m.desiredSolveCountPerMinute < m.currentSolveCountPerMinute)
    (h : m.decreasedBy round m.currentSolveCountPerMinute = .ok maximum) :
    m.updateBy round = .ok { m with
      currentMaximumAllowedHashValueAsBigInt := maximum
      hashValueIncrementPerEvaluation := none } := by
  unfold updateBy
  rw [if_pos hover, h]
  rfl

theorem updateBy_of_under (round : ℚ → ℚ)
    (hunder : (m.currentSolveCountPerMinute : ℚ) ≤ m.desiredSolveCountPerMinute) :
    m.updateBy round = m.updateMaximumAllowedHashValue m.currentSolveCountPerMinute :=
  if_neg (not_lt.mpr hunder)

/-- An evaluation at a high solve rate takes off a share of the maximum. -/
theorem refreshBy_of_over (hround : IsRounding round) (hm : Documented m.toProofOfWorkOptions)
    {E : ℕ} (hE : difficultyEvaluationsPerMinute m.toProofOfWorkOptions = E) (hE1 : 1 ≤ E)
    (hover : m.desiredSolveCountPerMinute < solvesAt proofs now) :
    ((m.withProofs proofs).refreshBy round now).2 = .ok () ∧
      ((m.withProofs proofs).refreshBy round now).1.currentMaximumAllowedHashValueAsBigInt =
        m.currentMaximumAllowedHashValueAsBigInt -
          ((m.currentMaximumAllowedHashValueAsBigInt -
            (m.currentMaximumAllowedHashValueAsBigInt * scaleFactor).tdiv
              (scaledRateBy round m.toProofOfWorkOptions (solvesAt proofs now))) *
            ⌊m.difficultyIncreaseMultiplier⌋).tdiv E := by
  have hrate := (scaledRateBy_mono hround hm.rated hover le_rfl).1
  -- the cleanup changes neither the options nor the maximum
  let p := (m.withProofs proofs).removeProofOfWorkOlderThanOneMinute now
  have hdecreased := decreasedBy_eq (m := p) (zero_le_one.trans hm.multiplier) hE hE1 hrate
  have hrefresh := refreshBy_of_ok (updateBy_of_over (m := p) hover hdecreased)
  exact ⟨congrArg Prod.snd hrefresh,
    congrArg (fun r => r.1.currentMaximumAllowedHashValueAsBigInt) hrefresh⟩

theorem refreshBy_of_over_le (hround : IsRounding round) (hm : Documented m.toProofOfWorkOptions)
    (hscale : m.InScale) (hover : m.desiredSolveCountPerMinute < solvesAt proofs now) :
    ((m.withProofs proofs).refreshBy round now).2 = .ok () ∧
      ((m.withProofs proofs).refreshBy round now).1.currentMaximumAllowedHashValueAsBigInt ≤
        m.currentMaximumAllowedHashValueAsBigInt := by
  obtain ⟨E, hE1, hE⟩ := hm.evaluations
  obtain ⟨hcompletes, hmaximum⟩ := refreshBy_of_over hround hm hE hE1 hover
  have hdecrease := (decrease_bounds (zero_le_one.trans hscale.1)
    (scaledRateBy_mono hround hm.rated hover le_rfl).1 (floor_multiplier_nonneg hm)
    (by omega : (0 : ℤ) < E)).1
  exact ⟨hcompletes, by omega⟩

/-- An evaluation at a low solve rate lowers nothing, and its solve count does not matter. -/
theorem exists_refreshBy_of_under (round : ℚ → ℚ) (hm : Documented m.toProofOfWorkOptions)
    (hscale : m.InScale) (hincrement : m.IncrementNonneg) (now : ℤ) :
    ∃ maximum, m.currentMaximumAllowedHashValueAsBigInt ≤ maximum ∧
      ∀ proofs, (solvesAt proofs now : ℚ) ≤ m.desiredSolveCountPerMinute →
        ((m.withProofs proofs).refreshBy round now).2 = .ok () ∧
          ((m.withProofs proofs).refreshBy round now).1.currentMaximumAllowedHashValueAsBigInt =
            maximum := by
  obtain ⟨E, hE1, hE⟩ := hm.evaluations
  obtain ⟨increment, hadded⟩ : ∃ increment,
      m.hashValueIncrementPerEvaluation.elim m.newIncrement .ok = .ok increment := by
    cases m.hashValueIncrementPerEvaluation with
    | some remembered => exact ⟨remembered, rfl⟩
    | none => exact ⟨_, newIncrement_eq hE hE1⟩
  have hnonneg := increment_nonneg hm hscale hincrement hadded
  obtain ⟨hlow, hhigh⟩ := hscale
  refine ⟨min (m.currentMaximumAllowedHashValueAsBigInt + increment)
    m.initialMaximumAllowedHashValueAsBigInt, le_min (by omega) hhigh, fun proofs hunder => ?_⟩
  let p := (m.withProofs proofs).removeProofOfWorkOlderThanOneMinute now
  obtain ⟨m', hupdate⟩ := exists_updateMaximumAllowedHashValue (m := p) hm
  have hrefresh := refreshBy_of_ok ((updateBy_of_under (m := p) round hunder).trans hupdate)
  refine ⟨congrArg Prod.snd hrefresh, ?_⟩
  rw [hrefresh]
  rcases updateMaximumAllowedHashValue_ok hupdate with
    ⟨hover, -⟩ | ⟨-, hinitial, rfl⟩ | ⟨-, -, increment', hadded', rfl⟩
  · exact absurd hover (not_lt.mpr hunder)
  · have hinitial' : m.currentMaximumAllowedHashValueAsBigInt =
        m.initialMaximumAllowedHashValueAsBigInt := hinitial
    exact hinitial'.trans (by omega)
  · obtain rfl := Except.ok.inj (hadded'.symm.trans hadded)
    rfl

/-- From one state, an evaluation with more solves leaves no larger maximum. -/
theorem noEasier_refreshBy (hround : IsRounding round) (hm : Documented m.toProofOfWorkOptions)
    (hscale : m.InScale) (hincrement : m.IncrementNonneg)
    (h : solvesAt proofs₁ now ≤ solvesAt proofs₂ now) :
    NoEasier (fun m => m.refreshBy round now) (m.withProofs proofs₁) (m.withProofs proofs₂) := by
  obtain ⟨E, hE1, hE⟩ := hm.evaluations
  obtain ⟨maximum, hraised, hunder⟩ := exists_refreshBy_of_under round hm hscale hincrement now
  rcases le_or_gt (solvesAt proofs₂ now : ℚ) m.desiredSolveCountPerMinute with hlow₂ | hover₂
  · -- neither solve rate is high
    have hlow₁ : (solvesAt proofs₁ now : ℚ) ≤ m.desiredSolveCountPerMinute :=
      le_trans (by exact_mod_cast h) hlow₂
    obtain ⟨hcompletes₁, hmaximum₁⟩ := hunder proofs₁ hlow₁
    obtain ⟨hcompletes₂, hmaximum₂⟩ := hunder proofs₂ hlow₂
    exact ⟨hcompletes₁, hcompletes₂, (hmaximum₂.trans hmaximum₁.symm).le⟩
  rcases le_or_gt (solvesAt proofs₁ now : ℚ) m.desiredSolveCountPerMinute with hlow₁ | hover₁
  · -- the first evaluation lowers nothing, the second raises nothing
    obtain ⟨hcompletes₁, hmaximum₁⟩ := hunder proofs₁ hlow₁
    obtain ⟨hcompletes₂, hmaximum₂⟩ := refreshBy_of_over_le hround hm hscale hover₂
    exact ⟨hcompletes₁, hcompletes₂, hmaximum₂.trans (hraised.trans_eq hmaximum₁.symm)⟩
  · obtain ⟨hcompletes₁, hmaximum₁⟩ := refreshBy_of_over hround hm hE hE1 hover₁
    obtain ⟨hcompletes₂, hmaximum₂⟩ := refreshBy_of_over hround hm hE hE1 hover₂
    obtain ⟨hrate, hrates⟩ := scaledRateBy_mono hround hm.rated hover₁ h
    have hdecrease := decrease_mono (zero_le_one.trans hscale.1) hrate hrates
      (floor_multiplier_nonneg hm) (by omega : (0 : ℤ) < E)
    refine ⟨hcompletes₁, hcompletes₂, ?_⟩
    rw [hmaximum₁, hmaximum₂]
    omega

/-- From one state, an evaluation with more solves leaves no larger maximum, in exact arithmetic
and in the arithmetic of the code. -/
theorem more_solves_no_easier (hm : Documented m.toProofOfWorkOptions) (hscale : m.InScale)
    (hincrement : m.IncrementNonneg) (h : solvesAt proofs₁ now ≤ solvesAt proofs₂ now) :
    NoEasier (fun m => m.refreshExactly now) (m.withProofs proofs₁) (m.withProofs proofs₂) ∧
      NoEasier (fun m => m.refreshMaximumAllowedHashValue now) (m.withProofs proofs₁)
        (m.withProofs proofs₂) := by
  refine ⟨noEasier_refreshBy isRounding_id hm hscale hincrement h, ?_⟩
  have hdoubles := noEasier_refreshBy isRounding_roundDouble hm hscale hincrement h
  simpa only [refreshBy_roundDouble] using hdoubles

/-- One solve a minute is desired, and there are six evaluations. -/
def sixEvaluations : ProofOfWorkManager := construct 255 0 (ProofOfWorkRun.everySeconds (60 / 6))

/-- No solve, and two solves. -/
theorem two_solves_no_easier :
    NoEasier (fun m => m.refreshExactly 0) (sixEvaluations.withProofs .empty)
        (sixEvaluations.withProofs ((OrderedMap.empty.set (js "a") 0).set (js "b") 0)) ∧
      NoEasier (fun m => m.refreshMaximumAllowedHashValue 0) (sixEvaluations.withProofs .empty)
        (sixEvaluations.withProofs ((OrderedMap.empty.set (js "a") 0).set (js "b") 0)) := by
  refine more_solves_no_easier ?_ ⟨by decide, le_rfl⟩ (fun increment h => ?_) (by decide)
  · exact_mod_cast ProofOfWorkRun.documented_everySeconds (E := 6) (by decide)
  · obtain rfl := Option.some.inj h
    decide

end ProofOfWorkManager

end DwnServer
