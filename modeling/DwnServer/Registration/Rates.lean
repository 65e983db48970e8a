import DwnServer.Registration.Recovery

/-!
# How fast the difficulty rises and falls

Under a sustained overload each evaluation takes off a fixed share of the maximum, so the
difficulty rises geometrically. When the load is gone each evaluation adds one and the same
increment, so the maximum comes back linearly, in the ten minutes that the increment is made for.
-/
namespace DwnServer

open Transition

namespace ProofOfWorkRun

open ProofOfWorkManager

variable {sha256 : Sha256} {options : ProofOfWorkOptions} {w t : ProofOfWorkRun}
  {a : ProofOfWorkAction} {as : List ProofOfWorkAction} {k : ℕ}

/-! ## Runs under load and without -/

variable (sha256) in
/-- Solves at one moment are all counted by the next evaluation. -/
theorem exists_recorded (w : ProofOfWorkRun) (hempty : w.manager.proofOfWorkOfLastMinute = .empty)
    (n : ℕ) : ∃ u, run (step sha256) w (recordings n) = some u ∧ u.solveCount = n ∧
      u.now = w.now ∧ ∀ e ∈ u.manager.proofOfWorkOfLastMinute.entries, e.2 ≤ u.now := by
  obtain ⟨proofs, hrun, hentries⟩ := run_recordings sha256 w hempty n
  have htimes : ∀ e ∈ proofs.entries, e.2 = w.now := by
    intro e he
    obtain ⟨i, -, rfl⟩ := List.mem_map.mp (hentries ▸ he)
    rfl
  refine ⟨_, hrun, ?_, rfl, fun e he => (htimes e he).le⟩
  rw [solveCount, removeProofOfWorkOlderThanOneMinute_of_fresh fun e he => by simp [htimes e he]]
  simp [currentSolveCountPerMinute, OrderedMap.size, hentries]

theorem Quiet.lowEvaluation (hw : w.Quiet) (ho : ManagesRegistrations options)
    (hs : w.Scaled options) : w.LowEvaluation a := by
  intro ha
  rw [hw.solveCount, hs.options, ho.desired]
  norm_num

theorem Quiet.evaluation (hw : w.Quiet)
    (h : w.step sha256 .refreshMaximumAllowedHashValue = some t) : t.Quiet := by
  obtain rfl := Option.some.inj h
  intro e he
  rw [(w.manager.refreshMaximumAllowedHashValue_kept w.now).2.2, hw.removed] at he
  cases he

variable (sha256) in
/-- Evaluations without load are low. -/
theorem Quiet.exists_low_run (ho : ManagesRegistrations options) (hs : w.Scaled options)
    (hw : w.Quiet) (k : ℕ) :
    ∃ t, run (step sha256) w (List.replicate k .refreshMaximumAllowedHashValue) = some t ∧
      Along (step sha256) (fun s a _ => s.LowEvaluation a) w
        (List.replicate k .refreshMaximumAllowedHashValue) := by
  induction k generalizing w with
  | zero => exact ⟨w, rfl, trivial⟩
  | succ k ih =>
    obtain ⟨u, hu⟩ : ∃ u, w.step sha256 .refreshMaximumAllowedHashValue = some u := ⟨_, rfl⟩
    obtain ⟨t, hrun, hlow⟩ := ih (scaled_step ho hs hu) (hw.evaluation hu)
    refine ⟨t, by rw [List.replicate_succ, run_cons, hu]; exact hrun, fun v hv => ?_⟩
    obtain rfl := Option.some.inj (hu.symm.trans hv)
    exact ⟨hw.lowEvaluation ho hs, hlow⟩

/-- A manager at an initial maximum of 65535 with `n` solves to count. -/
theorem exists_overloaded (n : ℕ) :
    ∃ m, RegistrationManager.create (fun _ => 0) 0 0 1 (fun _ => .error .engine) .empty
        (smallInput (js "FFFF")) = .ok m ∧
      ∃ p, m.proofOfWorkManager = some p ∧ p.initialMaximumAllowedHashValueAsBigInt = 65535 ∧
        ∃ v, run (step fun _ => 0) ⟨p, 0, []⟩ (recordings n) = some v ∧ v.solveCount = n ∧
          ∀ e ∈ v.manager.proofOfWorkOfLastMinute.entries, e.2 ≤ v.now := by
  obtain ⟨m, hm, p, hp, hinitial⟩ := @exists_create_small (js "FFFF") 65535 (by decide +kernel)
  have hempty := (scaled_of_create hm hp (by omega)).2.2.1
  obtain ⟨v, hrun, hcount, -, htimes⟩ := exists_recorded (fun _ => 0) ⟨p, 0, []⟩ hempty n
  exact ⟨m, hm, p, hp, hinitial, v, hrun, hcount, htimes⟩

/-! ## Falling back -/

/-- What the next evaluation at a low solve count adds. -/
def nextIncrement (initial : ℤ) (w : ProofOfWorkRun) : ℤ :=
  w.increment.getD ((initial - w.maximum) / 60)

theorem Scaled.nextIncrement_nonneg (hw : w.Scaled options) :
    0 ≤ w.nextIncrement options.initialMaximumAllowedHashValueAsBigInt := by
  have hmax := hw.maximum_bounds
  unfold nextIncrement
  cases hremembered : w.increment with
  | some increment => exact hw.increment increment hremembered
  | none =>
    rw [Option.getD_none]
    omega

theorem LowEvaluation.solveCount_le (hlow : w.LowEvaluation a) (ho : ManagesRegistrations options)
    (hw : w.Scaled options) (ha : isEvaluation a = true) : w.solveCount ≤ 10 := by
  have hcount := hlow ha
  rw [show w.manager.desiredSolveCountPerMinute = 10 by rw [hw.options, ho.desired]] at hcount
  exact_mod_cast hcount

/-- Evaluations at a low solve count add the same increment each time. -/
theorem low_evaluation (ho : ManagesRegistrations options) (hw : w.Scaled options)
    (hlow : w.solveCount ≤ 10) (h : w.step sha256 .refreshMaximumAllowedHashValue = some t) :
    t.maximum = min (w.maximum + w.nextIncrement options.initialMaximumAllowedHashValueAsBigInt)
        options.initialMaximumAllowedHashValueAsBigInt ∧
      t.nextIncrement options.initialMaximumAllowedHashValueAsBigInt =
        w.nextIncrement options.initialMaximumAllowedHashValueAsBigInt := by
  have hnonneg := hw.nextIncrement_nonneg
  rcases evaluation_cases ho hw h with
    ⟨hover, -, -⟩ | ⟨-, hinitial, hsame, hkept⟩ | ⟨-, hless, increment, hadded, hraised, hkept⟩
  · omega
  · constructor
    · omega
    · rw [nextIncrement, nextIncrement, hkept, hsame]
  · constructor
    · rw [hraised, nextIncrement, hadded]
    · rw [nextIncrement, hkept, Option.getD_some, nextIncrement, hadded]

/-- The maximum after evaluations at low solve counts, whatever else happens between them. -/
theorem maximum_of_low_run (ho : ManagesRegistrations options) (hw : w.Scaled options)
    (hrun : run (step sha256) w as = some t)
    (hlow : Along (step sha256) (fun s a _ => s.LowEvaluation a) w as) :
    t.maximum = min (w.maximum +
        evaluations as * w.nextIncrement options.initialMaximumAllowedHashValueAsBigInt)
      options.initialMaximumAllowedHashValueAsBigInt := by
  set initial := options.initialMaximumAllowedHashValueAsBigInt with hI
  set added := w.nextIncrement initial with hadded
  have hinv : t.Scaled options ∧ t.maximum = min (w.maximum + (0 + evaluations as : ℕ) * added)
      initial ∧ t.nextIncrement initial = added := by
    refine run_invariant_of_count (I := fun n s => s.Scaled options ∧
        s.maximum = min (w.maximum + n * added) initial ∧ s.nextIncrement initial = added)
      (fun n s a u hs hlow hu ha => ?_) (fun n s a u hs _ hu ha => ?_) hlow ?_ hrun
    · obtain ⟨hscaled, hmaximum, hnext⟩ := hs
      have hcount := hlow.solveCount_le ho hscaled ha
      obtain rfl := eq_of_isEvaluation ha
      obtain ⟨hraised, hkept⟩ := low_evaluation ho hscaled hcount hu
      refine ⟨scaled_step ho hscaled hu, ?_, hkept.trans hnext⟩
      have hnonneg : 0 ≤ added := hnext ▸ hscaled.nextIncrement_nonneg
      rw [hraised, hnext, hmaximum]
      push_cast
      rw [add_mul, one_mul, ← add_assoc]
      omega
    · obtain ⟨hscaled, hmaximum, hnext⟩ := hs
      obtain ⟨hsame, hkept⟩ := kept_of_not_evaluation hu ha
      exact ⟨scaled_step ho hscaled hu, hsame.trans hmaximum,
        by rw [nextIncrement, hkept, hsame]; exact hnext⟩
    · have hmax := hw.maximum_bounds
      exact ⟨hw, by simp only [Nat.cast_zero, zero_mul, add_zero]; omega, rfl⟩
  rw [Nat.zero_add] at hinv
  exact hinv.2.1

/-- How the maximum comes back after it was lowered to `lowest`, in `k` evaluations at low solve
counts. Sixty of them are ten minutes. -/
structure ComesBack (initial lowest maximum : ℤ) (k : ℕ) : Prop where
  linear : maximum = min (lowest + k * ((initial - lowest) / 60)) initial
  notBefore : lowest < initial → maximum = initial → 60 ≤ k
  exactly : lowest < initial → 60 ∣ initial - lowest → k = 60 → maximum = initial
  after : 3540 ≤ initial - lowest → 61 ≤ k → maximum = initial

theorem comesBack_of_linear {initial lowest maximum : ℤ} (hle : lowest ≤ initial)
    (h : maximum = min (lowest + k * ((initial - lowest) / 60)) initial) :
    ComesBack initial lowest maximum k := by
  have hshare : 60 * ((initial - lowest) / 60) ≤ initial - lowest := Int.mul_ediv_self_le (by omega)
  have hnonneg : 0 ≤ (initial - lowest) / 60 := by omega
  refine ⟨h, fun hless hback => ?_, fun hless hdvd hk => ?_, fun hmissing hk => ?_⟩
  · by_contra hfew
    have hsum : (k : ℤ) * ((initial - lowest) / 60) ≤ 59 * ((initial - lowest) / 60) :=
      mul_le_mul_of_nonneg_right (by omega) hnonneg
    omega
  · subst hk
    omega
  · have hsum : 61 * ((initial - lowest) / 60) ≤ k * ((initial - lowest) / 60) :=
      mul_le_mul_of_nonneg_right (by omega) hnonneg
    omega

/-- In every reachable state, from the evaluation that last raised the difficulty on, the maximum
comes back in ten minutes without load: never sooner, and with the next evaluation at the latest
where the rounding allows it. -/
theorem comes_back {now : ℤ} {random random' : BitVec 256}
    {readFileSync : JsString → Eval JsString} {store : RegistrationStore}
    {input : RegistrationManager.Input} {m : RegistrationManager} {p : ProofOfWorkManager}
    (hcreate : RegistrationManager.create sha256 now random random' readFileSync store input =
      .ok m)
    (hp : m.proofOfWorkManager = some p) (hI : 1 ≤ p.initialMaximumAllowedHashValueAsBigInt)
    {past : List ProofOfWorkAction} {v : ProofOfWorkRun}
    (hpast : run (step sha256) ⟨p, now, []⟩ past = some v) (hover : 10 < v.solveCount)
    (hv : v.step sha256 .refreshMaximumAllowedHashValue = some w)
    (hrun : run (step sha256) w as = some t)
    (hlow : Along (step sha256) (fun s a _ => s.LowEvaluation a) w as) :
    ComesBack p.initialMaximumAllowedHashValueAsBigInt w.maximum t.maximum (evaluations as) := by
  obtain ⟨ho, hstart, -, -, -⟩ := scaled_of_create hcreate hp hI
  have hscaled := scaled_run ho hstart hpast
  have hw := scaled_step ho hscaled hv
  have hnone : w.increment = none := by
    rcases evaluation_cases ho hscaled hv with ⟨-, -, hnone⟩ | ⟨hunder, -⟩ | ⟨hunder, -⟩
    · exact hnone
    · omega
    · omega
  have hlinear := maximum_of_low_run ho hw hrun hlow
  rw [nextIncrement, hnone, Option.getD_none] at hlinear
  exact comesBack_of_linear hw.maximum_bounds.2 hlinear

/-- Eleven solves, an evaluation, a minute without load, and 61 more evaluations. -/
theorem comes_back_eleven :
    ∃ m, RegistrationManager.create (fun _ => 0) 0 0 1 (fun _ => .error .engine) .empty
        (smallInput (js "FFFF")) = .ok m ∧
      ∃ p, m.proofOfWorkManager = some p ∧ ∃ v w t,
        run (step fun _ => 0) ⟨p, 0, []⟩ (recordings 11) = some v ∧
          v.step (fun _ => 0) .refreshMaximumAllowedHashValue = some w ∧
          run (step fun _ => 0) w (.clock 60001 ::
            List.replicate 61 .refreshMaximumAllowedHashValue) = some t ∧
            ComesBack 65535 w.maximum t.maximum 61 := by
  generalize 61 = k
  obtain ⟨m, hm, p, hp, hinitial, v, hrun, hcount, htimes⟩ := exists_overloaded 11
  obtain ⟨ho, hstart, -, -, -⟩ := scaled_of_create hm hp (by omega)
  obtain ⟨w, hw⟩ : ∃ w, v.step (fun _ => 0) .refreshMaximumAllowedHashValue = some w := ⟨_, rfl⟩
  have hscaled := scaled_step ho (scaled_run ho hstart hrun) hw
  have hquiet : Quiet { w with now := w.now + 60001 } := by
    obtain rfl := Option.some.inj hw
    intro e he
    dsimp only at he ⊢
    rw [(v.manager.refreshMaximumAllowedHashValue_kept v.now).2.2] at he
    have hle := htimes e (List.mem_of_mem_filter he)
    omega
  have hscaled' : Scaled p.toProofOfWorkOptions { w with now := w.now + 60001 } :=
    ⟨hscaled.options, hscaled.inScale, hscaled.increment⟩
  obtain ⟨t, ht, hlow⟩ := hquiet.exists_low_run (fun _ => 0) ho hscaled' k
  have hclock : w.step (fun _ => 0) (.clock 60001) = some { w with now := w.now + 60001 } := rfl
  have hafter : run (step fun _ => 0) w (.clock 60001 ::
      List.replicate k .refreshMaximumAllowedHashValue) = some t := by
    rw [run_cons, hclock, Option.bind_some, ht]
  have hback := comes_back hm hp (by omega) hrun (by omega) hw hafter (by
    intro u hu
    obtain rfl := Option.some.inj (hclock.symm.trans hu)
    exact ⟨nofun, hlow⟩)
  rw [hinitial, show evaluations (.clock 60001 ::
    List.replicate k .refreshMaximumAllowedHashValue) = k by
      simp [evaluations, isEvaluation, List.countP_replicate]] at hback
  exact ⟨m, hm, p, hp, v, w, t, hrun, hw, hafter, hback⟩

/-! ## Rising -/

/-- If the step is an evaluation, it finds at least `c` times the desired solve count. -/
def OverloadedEvaluation (c : ℕ) (w : ProofOfWorkRun) (a : ProofOfWorkAction) : Prop :=
  isEvaluation a = true → c * w.manager.desiredSolveCountPerMinute ≤ w.solveCount

/-- The share of the maximum that an evaluation at `c` times the desired solve count leaves. -/
def shareLeft (c : ℕ) : ℚ := (5 * c + 1) / (6 * c)

/-- An evaluation at `c` times the desired solve count leaves that share, up to the rounding. -/
theorem lowered_share {c : ℕ} (hc : 2 ≤ c) {maximum rate : ℤ} (hmaximum : 0 ≤ maximum)
    (hrate : c * scaleFactor ≤ rate) :
    (lowered maximum rate : ℚ) - 10 ≤ shareLeft c * (maximum - 10) := by
  have hscale : (0 : ℤ) < scaleFactor := by decide
  have hrate0 : 0 < rate := lt_of_lt_of_le (by positivity) hrate
  -- what is left of the maximum at the desired rate
  have hquotient : maximum * scaleFactor / rate * c ≤ maximum := by
    have hle := Int.ediv_mul_le (maximum * scaleFactor) hrate0.ne'
    have hnonneg : 0 ≤ maximum * scaleFactor / rate := Int.ediv_nonneg (by positivity) hrate0.le
    have hmul := (mul_le_mul_of_nonneg_left hrate hnonneg).trans hle
    rw [← mul_assoc] at hmul
    exact le_of_mul_le_mul_right hmul hscale
  have hsixth : 6 * lowered maximum rate ≤ 5 * maximum + maximum * scaleFactor / rate + 5 := by
    unfold lowered
    omega
  have hcast : (2 : ℚ) ≤ c := by exact_mod_cast hc
  have hquotient' : ((maximum * scaleFactor / rate : ℤ) : ℚ) * c ≤ maximum := by
    exact_mod_cast hquotient
  have hsixth' : 6 * (lowered maximum rate : ℚ) ≤
      5 * maximum + (maximum * scaleFactor / rate : ℤ) + 5 := by exact_mod_cast hsixth
  rw [shareLeft, div_mul_eq_mul_div, le_div_iff₀ (by positivity)]
  nlinarith only [hcast, hquotient', hsixth']

/-- The scaled rate at `c` times the desired solve count, for a `c` that a double scales exactly. -/
theorem le_scaledRate_of_overloaded (ho : ManagesRegistrations options) {c count : ℕ}
    (hc : c * 1000000 ≤ 2 ^ 53) (hcount : c * options.desiredSolveCountPerMinute ≤ count) :
    c * scaleFactor ≤ scaledRate options count :=
  le_scaledRate (n := c) (e := 0) ho.documented.rated hc (by norm_num) (by simpa using hcount)
    (by simp)

theorem overloaded_evaluation (ho : ManagesRegistrations options) (hw : w.Scaled options) {c : ℕ}
    (hc : 2 ≤ c) (hexact : c * 1000000 ≤ 2 ^ 53)
    (hover : w.OverloadedEvaluation c .refreshMaximumAllowedHashValue)
    (h : w.step sha256 .refreshMaximumAllowedHashValue = some t) :
    (t.maximum : ℚ) - 10 ≤ shareLeft c * (w.maximum - 10) := by
  have hcount := hover rfl
  rw [hw.options] at hcount
  have hten : 10 < w.solveCount := by
    rw [ho.desired] at hcount
    have hmany : c * 10 ≤ w.solveCount := by exact_mod_cast hcount
    omega
  rcases evaluation_cases ho hw h with ⟨-, hlowered, -⟩ | ⟨hunder, -⟩ | ⟨hunder, -⟩
  · rw [hlowered]
    exact lowered_share hc (zero_le_one.trans hw.maximum_bounds.1)
      (le_scaledRate_of_overloaded ho hexact hcount)
  · omega
  · omega

/-- In every reachable state, while evaluations find at least `c` times the desired solve count,
the maximum falls geometrically. -/
theorem hardens_geometrically {now : ℤ} {random random' : BitVec 256}
    {readFileSync : JsString → Eval JsString} {store : RegistrationStore}
    {input : RegistrationManager.Input} {m : RegistrationManager} {p : ProofOfWorkManager}
    (hcreate : RegistrationManager.create sha256 now random random' readFileSync store input =
      .ok m)
    (hp : m.proofOfWorkManager = some p) (hI : 1 ≤ p.initialMaximumAllowedHashValueAsBigInt)
    {past : List ProofOfWorkAction} (hpast : run (step sha256) ⟨p, now, []⟩ past = some w)
    {c : ℕ} (hc : 2 ≤ c) (hexact : c * 1000000 ≤ 2 ^ 53)
    (hrun : run (step sha256) w as = some t)
    (hover : Along (step sha256) (fun s a _ => s.OverloadedEvaluation c a) w as) :
    (t.maximum : ℚ) - 10 ≤ shareLeft c ^ evaluations as * (w.maximum - 10) := by
  obtain ⟨ho, hstart, -, -, -⟩ := scaled_of_create hcreate hp hI
  have hnonneg : 0 ≤ shareLeft c := by
    unfold shareLeft
    positivity
  have hinv : t.Scaled p.toProofOfWorkOptions ∧
      (t.maximum : ℚ) - 10 ≤ shareLeft c ^ (0 + evaluations as) * (w.maximum - 10) := by
    refine run_invariant_of_count (I := fun n s => s.Scaled p.toProofOfWorkOptions ∧
        (s.maximum : ℚ) - 10 ≤ shareLeft c ^ n * (w.maximum - 10))
      (fun n s a u hs hover hu ha => ?_) (fun n s a u hs _ hu ha => ?_) hover
      ⟨scaled_run ho hstart hpast, by rw [pow_zero, one_mul]⟩ hrun
    · obtain ⟨hscaled, hbound⟩ := hs
      obtain rfl := eq_of_isEvaluation ha
      refine ⟨scaled_step ho hscaled hu, ?_⟩
      calc (u.maximum : ℚ) - 10
          ≤ shareLeft c * (s.maximum - 10) :=
            overloaded_evaluation ho hscaled hc hexact hover hu
        _ ≤ shareLeft c * (shareLeft c ^ n * (w.maximum - 10)) :=
            mul_le_mul_of_nonneg_left hbound hnonneg
        _ = shareLeft c ^ (n + 1) * (w.maximum - 10) := by ring
    · obtain ⟨hscaled, hbound⟩ := hs
      refine ⟨scaled_step ho hscaled hu, ?_⟩
      rw [(kept_of_not_evaluation hu ha).1]
      exact hbound
  rw [Nat.zero_add] at hinv
  exact hinv.2

/-- Twenty solves at once leave at most eleven twelfths. -/
theorem hardens_geometrically_twenty :
    ∃ m, RegistrationManager.create (fun _ => 0) 0 0 1 (fun _ => .error .engine) .empty
        (smallInput (js "FFFF")) = .ok m ∧
      ∃ p, m.proofOfWorkManager = some p ∧ ∃ v t,
        run (step fun _ => 0) ⟨p, 0, []⟩ (recordings 20) = some v ∧
          run (step fun _ => 0) v [.refreshMaximumAllowedHashValue] = some t ∧
            (t.maximum : ℚ) - 10 ≤ shareLeft 2 ^ 1 * (v.maximum - 10) := by
  obtain ⟨m, hm, p, hp, hinitial, v, hrun, hcount, -⟩ := exists_overloaded 20
  obtain ⟨ho, hstart, -, -, -⟩ := scaled_of_create hm hp (by omega)
  obtain ⟨t, ht⟩ : ∃ t, run (step fun _ => 0) v [.refreshMaximumAllowedHashValue] = some t :=
    ⟨_, rfl⟩
  have hfalls := hardens_geometrically hm hp (by omega) hrun (c := 2) le_rfl (by norm_num) ht (by
    intro u hu
    refine ⟨fun _ => ?_, trivial⟩
    rw [hcount, (scaled_run ho hstart hrun).options, ho.desired]
    norm_num)
  exact ⟨m, hm, p, hp, v, t, hrun, ht, hfalls⟩

end ProofOfWorkRun

end DwnServer
