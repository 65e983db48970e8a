import DwnServer.Registration.Difficulty
import DwnServer.Registration.RegistrationManager

/-!
# One difficulty evaluation

Registrations are managed at ten solves a minute, with a multiplier of one and an evaluation
every ten seconds. An evaluation then takes off at most a sixth of the maximum, or adds the
remembered increment to it, or a sixtieth of what is missing when none is remembered.
-/
namespace DwnServer

open Transition

namespace ProofOfWorkManager

/-- The options that registrations are managed with. -/
structure ManagesRegistrations (options : ProofOfWorkOptions) : Prop where
  desired : options.desiredSolveCountPerMinute = 10
  multiplier : options.difficultyIncreaseMultiplier = 1
  evaluations : difficultyEvaluationsPerMinute options = 6
  initial : 1 ≤ options.initialMaximumAllowedHashValueAsBigInt

theorem ManagesRegistrations.documented {options : ProofOfWorkOptions}
    (h : ManagesRegistrations options) : Documented options where
  desired := ⟨10, by norm_num, by rw [h.desired]; norm_num⟩
  multiplier := h.multiplier.ge
  evaluations := ⟨6, by norm_num, by rw [h.evaluations]; norm_num⟩
  initial := h.initial

theorem managesRegistrations_construct {initial : ℤ} (h : 1 ≤ initial) (random : BitVec 256)
    (input : RegistrationManager.Input) :
    ManagesRegistrations (construct initial random input.proofOfWork).toProofOfWorkOptions where
  desired := rfl
  multiplier := rfl
  evaluations := by
    norm_num [difficultyEvaluationsPerMinute, construct, RegistrationManager.Input.proofOfWork]
  initial := h

/-! ## Lowering the maximum -/

/-- The maximum after an evaluation at a high solve rate, in millionths of the desired one. -/
def lowered (maximum rate : ℤ) : ℤ := maximum - (maximum - maximum * scaleFactor / rate) / 6

variable {options : ProofOfWorkOptions} {maximum rate : ℤ}

/-- Above ten solves the rate is 1.1, or a rounding error less. -/
theorem le_scaledRate_of_over (h : ManagesRegistrations options) {count : ℕ}
    (hcount : 10 < count) : 1099999 ≤ scaledRate options count := by
  refine le_scaledRate (n := 4724464025) (e := -32) h.documented.rated (by norm_num) (by norm_num)
    ?_ (by norm_num [scaleFactor])
  have hcount' : (11 : ℚ) ≤ count := by exact_mod_cast hcount
  rw [h.desired]
  refine le_trans ?_ hcount'
  norm_num

theorem div_rate_bounds (hmaximum : 0 ≤ maximum) (hrate : 1099999 ≤ rate) :
    0 ≤ maximum * scaleFactor / rate ∧
      maximum * scaleFactor / rate * 1099999 ≤ maximum * scaleFactor := by
  have hnonneg : 0 ≤ maximum * scaleFactor / rate :=
    Int.ediv_nonneg (mul_nonneg hmaximum (by decide)) (by omega)
  refine ⟨hnonneg, ?_⟩
  calc maximum * scaleFactor / rate * 1099999
      ≤ maximum * scaleFactor / rate * rate := mul_le_mul_of_nonneg_left hrate hnonneg
    _ ≤ maximum * scaleFactor := Int.ediv_mul_le _ (by omega)

/-- The division of the code truncates, on numbers that are not negative. -/
theorem lowered_eq_tdiv (hmaximum : 0 ≤ maximum) (hrate : 1099999 ≤ rate) :
    maximum - ((maximum - (maximum * scaleFactor).tdiv rate) * ⌊(1 : ℚ)⌋).tdiv (6 : ℕ) =
      lowered maximum rate := by
  obtain ⟨hnonneg, hle⟩ := div_rate_bounds hmaximum hrate
  have hless : maximum * scaleFactor / rate ≤ maximum := by
    unfold scaleFactor at *
    omega
  rw [Int.floor_one, mul_one, Int.tdiv_eq_ediv_of_nonneg (mul_nonneg hmaximum (by decide)),
    Int.tdiv_eq_ediv_of_nonneg (by omega)]
  rfl

theorem lowered_le (hmaximum : 0 ≤ maximum) (hrate : 1099999 ≤ rate) :
    lowered maximum rate ≤ maximum := by
  obtain ⟨hnonneg, hle⟩ := div_rate_bounds hmaximum hrate
  unfold lowered
  unfold scaleFactor at *
  omega

theorem le_lowered (hmaximum : 0 ≤ maximum) (hrate : 1099999 ≤ rate) :
    5 * maximum ≤ 6 * lowered maximum rate := by
  obtain ⟨hnonneg, hle⟩ := div_rate_bounds hmaximum hrate
  unfold lowered
  omega

theorem lowered_lt (hmaximum : 66 ≤ maximum) (hrate : 1099999 ≤ rate) :
    lowered maximum rate < maximum := by
  have hmaximum' : 0 ≤ maximum := by omega
  obtain ⟨hnonneg, hle⟩ := div_rate_bounds hmaximum' hrate
  unfold lowered
  unfold scaleFactor at *
  omega

end ProofOfWorkManager

namespace ProofOfWorkRun

open ProofOfWorkManager

/-- The solve count that an evaluation finds. -/
def solveCount (w : ProofOfWorkRun) : ℕ :=
  (w.manager.removeProofOfWorkOlderThanOneMinute w.now).currentSolveCountPerMinute

def maximum (w : ProofOfWorkRun) : ℤ := w.manager.currentMaximumAllowedHashValueAsBigInt

def increment (w : ProofOfWorkRun) : Option ℤ := w.manager.hashValueIncrementPerEvaluation

variable {sha256 : Sha256} {options : ProofOfWorkOptions} {w t : ProofOfWorkRun}

theorem Scaled.maximum_bounds (hw : w.Scaled options) :
    1 ≤ w.maximum ∧ w.maximum ≤ options.initialMaximumAllowedHashValueAsBigInt :=
  ⟨hw.inScale.1, hw.inScale.2.trans_eq (by rw [hw.options])⟩

/-- An evaluation lowers the maximum, finds nothing to do, or adds an increment. -/
theorem evaluation_cases (ho : ManagesRegistrations options) (hw : w.Scaled options)
    (h : w.step sha256 .refreshMaximumAllowedHashValue = some t) :
    (10 < w.solveCount ∧
      t.maximum = lowered w.maximum (scaledRate options w.solveCount) ∧ t.increment = none) ∨
    (w.solveCount ≤ 10 ∧ w.maximum = options.initialMaximumAllowedHashValueAsBigInt ∧
      t.maximum = w.maximum ∧ t.increment = w.increment) ∨
    w.solveCount ≤ 10 ∧ w.maximum < options.initialMaximumAllowedHashValueAsBigInt ∧
      ∃ increment, w.increment.getD
          ((options.initialMaximumAllowedHashValueAsBigInt - w.maximum) / 60) = increment ∧
        t.maximum = min (w.maximum + increment) options.initialMaximumAllowedHashValueAsBigInt ∧
        t.increment = some increment := by
  obtain ⟨hoptions, ⟨hlow, hhigh⟩, -⟩ := hw
  obtain rfl := Option.some.inj h
  subst hoptions
  -- the cleanup changes neither the options nor the maximum
  set m := w.manager.removeProofOfWorkOlderThanOneMinute w.now with hm
  have hover : m.desiredSolveCountPerMinute < m.currentSolveCountPerMinute ↔ 10 < w.solveCount := by
    rw [show m.desiredSolveCountPerMinute = 10 from ho.desired]
    exact_mod_cast Iff.rfl
  obtain ⟨m', hupdate⟩ := exists_updateMaximumAllowedHashValue (m := m) ho.documented
  simp only [maximum, increment, refreshMaximumAllowedHashValue_of_ok hupdate]
  rcases updateMaximumAllowedHashValue_ok hupdate with
    ⟨hcount, lower, hdecreased, rfl⟩ | ⟨hcount, hinitial, rfl⟩ |
      ⟨hcount, hinitial, increment, hadded, rfl⟩
  · refine Or.inl ⟨hover.mp hcount, ?_, rfl⟩
    have hrate := le_scaledRate_of_over ho (hover.mp hcount)
    rw [decreased_eq (m := m) (E := 6) ho.documented (by exact_mod_cast ho.evaluations)
      (by norm_num) hcount] at hdecreased
    rw [← Except.ok.inj hdecreased, show m.difficultyIncreaseMultiplier = 1 from ho.multiplier]
    exact lowered_eq_tdiv (zero_le_one.trans hlow) hrate
  · exact Or.inr (Or.inl ⟨not_lt.mp (hover.not.mp (not_lt.mpr hcount)), hinitial, rfl, rfl⟩)
  · refine Or.inr (Or.inr ⟨not_lt.mp (hover.not.mp (not_lt.mpr hcount)),
      lt_of_le_of_ne hhigh hinitial, increment, ?_, rfl, rfl⟩)
    cases hremembered : m.hashValueIncrementPerEvaluation with
    | some remembered =>
      rw [hremembered] at hadded
      rw [show w.manager.hashValueIncrementPerEvaluation = some remembered from hremembered]
      exact Except.ok.inj hadded
    | none =>
      rw [hremembered, Option.elim, newIncrement_eq (E := 6) (by exact_mod_cast ho.evaluations)
        (by norm_num)] at hadded
      rw [show w.manager.hashValueIncrementPerEvaluation = none from hremembered,
        ← Except.ok.inj hadded]
      exact (Int.tdiv_eq_ediv_of_nonneg (by omega)).symm

/-! ## From the creation on -/

/-- A registration manager creates its manager of proofs of work at the initial difficulty. -/
theorem scaled_of_create {now : ℤ} {random random' : BitVec 256}
    {readFileSync : JsString → Eval JsString} {store : RegistrationStore}
    {input : RegistrationManager.Input} {m : RegistrationManager} {p : ProofOfWorkManager}
    (hcreate : RegistrationManager.create sha256 now random random' readFileSync store input =
      .ok m)
    (hp : m.proofOfWorkManager = some p) (hI : 1 ≤ p.initialMaximumAllowedHashValueAsBigInt) :
    ManagesRegistrations p.toProofOfWorkOptions ∧ Scaled p.toProofOfWorkOptions ⟨p, now, []⟩ ∧
      p.proofOfWorkOfLastMinute = .empty ∧
      p.currentMaximumAllowedHashValueAsBigInt = p.initialMaximumAllowedHashValueAsBigInt ∧
      p.hashValueIncrementPerEvaluation = some 1 := by
  have hcreated := RegistrationManager.proofOfWorkManager_of_create hcreate hp
  have hdesired : 0 ≤ p.desiredSolveCountPerMinute := by
    rw [desiredSolveCountPerMinute_of_create hcreated]
    norm_num [RegistrationManager.Input.proofOfWork]
  obtain ⟨initial, nonces, -, rfl⟩ := create_eq hcreated hdesired
  refine ⟨managesRegistrations_construct hI random input, ⟨rfl, ⟨hI, le_rfl⟩, fun i hi => ?_⟩,
    rfl, rfl, rfl⟩
  obtain rfl := Option.some.inj hi
  decide

theorem scaled_step {a : ProofOfWorkAction} (ho : ManagesRegistrations options)
    (hw : w.Scaled options) (h : w.step sha256 a = some t) : t.Scaled options := by
  refine Scaled.step ho.documented ?_ hw h
  rw [ho.multiplier, ho.evaluations]
  norm_num

theorem scaled_run {as : List ProofOfWorkAction} (ho : ManagesRegistrations options)
    (hw : w.Scaled options) (h : run (step sha256) w as = some t) : t.Scaled options :=
  run_invariant (fun _ _ _ hs hstep => scaled_step ho hs hstep) hw h

/-- What an evaluation should do to the maximum at a solve count. -/
structure BoundedStep (initial before after : ℤ) (count : ℕ) : Prop where
  harder : 10 < count → (before : ℚ) - before / 6 ≤ after ∧ after ≤ before
  strictly : 10 < count → 66 ≤ before → after < before
  easier : count ≤ 10 → before ≤ after ∧ after ≤ initial
  inScale : 1 ≤ after ∧ after ≤ initial

theorem boundedStep_of_scaled (ho : ManagesRegistrations options) (hw : w.Scaled options)
    (h : w.step sha256 .refreshMaximumAllowedHashValue = some t) :
    BoundedStep options.initialMaximumAllowedHashValueAsBigInt w.maximum t.maximum
      w.solveCount := by
  have hscale := (scaled_step ho hw h).maximum_bounds
  have hpos := hw.maximum_bounds.1
  rcases evaluation_cases ho hw h with
    ⟨hover, hlowered, -⟩ | ⟨hunder, hinitial, hsame, -⟩ |
      ⟨hunder, hless, increment, hincrement, hraised, -⟩
  · have hrate := le_scaledRate_of_over ho hover
    have hle := lowered_le (zero_le_one.trans hpos) hrate
    have hfive := le_lowered (zero_le_one.trans hpos) hrate
    rw [← hlowered] at hle hfive
    refine ⟨fun _ => ⟨?_, hle⟩, fun _ hmany => ?_, fun h => absurd hover (not_lt.mpr h), hscale⟩
    · have hfive' : 5 * (w.maximum : ℚ) ≤ 6 * t.maximum := by exact_mod_cast hfive
      linarith
    · rw [hlowered]
      exact lowered_lt hmany hrate
  · refine ⟨fun h => absurd h (not_lt.mpr hunder), fun h => absurd h (not_lt.mpr hunder),
      fun _ => ⟨hsame.ge, hscale.2⟩, hscale⟩
  · have hnonneg : 0 ≤ increment := by
      rw [← hincrement]
      cases hremembered : w.increment with
      | some remembered => exact hw.increment _ hremembered
      | none => exact Int.ediv_nonneg (by omega) (by norm_num)
    refine ⟨fun h => absurd h (not_lt.mpr hunder), fun h => absurd h (not_lt.mpr hunder),
      fun _ => ⟨?_, hscale.2⟩, hscale⟩
    rw [hraised]
    exact le_min (by omega) (by omega)

/-- In every reachable state, an evaluation moves the maximum in the right direction, by a
bounded step, and keeps it on the scale. -/
theorem steps_bounded {now : ℤ} {random random' : BitVec 256}
    {readFileSync : JsString → Eval JsString} {store : RegistrationStore}
    {input : RegistrationManager.Input} {m : RegistrationManager} {p : ProofOfWorkManager}
    (hcreate : RegistrationManager.create sha256 now random random' readFileSync store input =
      .ok m)
    (hp : m.proofOfWorkManager = some p) (hI : 1 ≤ p.initialMaximumAllowedHashValueAsBigInt)
    {as : List ProofOfWorkAction} (hrun : run (step sha256) ⟨p, now, []⟩ as = some w)
    (h : w.step sha256 .refreshMaximumAllowedHashValue = some t) :
    BoundedStep p.initialMaximumAllowedHashValueAsBigInt w.maximum t.maximum w.solveCount := by
  obtain ⟨ho, hstart, -, -, -⟩ := scaled_of_create hcreate hp hI
  exact boundedStep_of_scaled ho (scaled_run ho hstart hrun) h

/-- A store, no terms and no seed, and an initial maximum. -/
def smallInput (initial : JsString) : RegistrationManager.Input :=
  ⟨some (js "sqlite://"), none, none, some initial⟩

theorem exists_create_small {initial : JsString} {maximum : ℤ}
    (h : (RegistrationManager.create (fun _ => 0) 0 0 1 (fun _ => .error .engine) .empty
      (smallInput initial)).toOption.any (fun m => decide (m.proofOfWorkManager.any (fun p =>
        decide (p.initialMaximumAllowedHashValueAsBigInt = maximum)) = true)) = true) :
    ∃ m, RegistrationManager.create (fun _ => 0) 0 0 1 (fun _ => .error .engine) .empty
        (smallInput initial) = .ok m ∧
      ∃ p, m.proofOfWorkManager = some p ∧ p.initialMaximumAllowedHashValueAsBigInt = maximum := by
  obtain ⟨m, hm, hp⟩ := Eval.exists_of_any h
  obtain ⟨p, hp, hinitial⟩ := (Option.any_eq_true _ _).mp hp
  exact ⟨m, hm, p, hp, of_decide_eq_true hinitial⟩

/-- Twelve solves at an initial maximum of 255. -/
theorem boundedStep_twelve :
    ∃ m, RegistrationManager.create (fun _ => 0) 0 0 1 (fun _ => .error .engine) .empty
        (smallInput (js "FF")) = .ok m ∧
      ∃ p, m.proofOfWorkManager = some p ∧ ∃ w t,
        run (step fun _ => 0) ⟨p, 0, []⟩ (recordings 12) = some w ∧
          w.step (fun _ => 0) .refreshMaximumAllowedHashValue = some t ∧
            BoundedStep 255 w.maximum t.maximum w.solveCount := by
  obtain ⟨m, hm, p, hp, hinitial⟩ := @exists_create_small (js "FF") 255 (by decide +kernel)
  have hempty := (scaled_of_create hm hp (by omega)).2.2.1
  obtain ⟨proofs, hrun, -⟩ := run_recordings (fun _ => 0) ⟨p, 0, []⟩ hempty 12
  have hstep := steps_bounded hm hp (by omega) hrun rfl
  rw [hinitial] at hstep
  exact ⟨m, hm, p, hp, _, _, hrun, rfl, hstep⟩

end ProofOfWorkRun

end DwnServer
