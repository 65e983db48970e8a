import DwnServer.Registration.DifficultyStep

/-!
# Recovery of the difficulty

When the load goes away, each evaluation adds an increment to the maximum. The increment is
fixed when recovery begins, as a sixtieth of what is missing. Where less than sixty is missing
that is zero, and the maximum stays where it is for as long as the load stays away. Whether
such a state can be reached depends on the initial maximum alone.
-/
namespace DwnServer

open Transition

namespace ProofOfWorkRun

open ProofOfWorkManager

def isEvaluation : ProofOfWorkAction → Bool
  | .refreshMaximumAllowedHashValue => true
  | _ => false

def evaluations (as : List ProofOfWorkAction) : ℕ := as.countP isEvaluation

/-- If the step is an evaluation, it finds at most the desired solve count. -/
def LowEvaluation (w : ProofOfWorkRun) (a : ProofOfWorkAction) : Prop :=
  isEvaluation a = true → (w.solveCount : ℚ) ≤ w.manager.desiredSolveCountPerMinute

/-- Some number of evaluations in a row at a low solve count, whatever else happens between
them, leads back to the initial maximum, and none of them lowers it. -/
def Recovers (sha256 : Sha256) (w : ProofOfWorkRun) : Prop :=
  ∃ k, ∀ as t, run (step sha256) w as = some t →
    Along (step sha256) (fun s a _ => s.LowEvaluation a) w as → evaluations as = k →
      t.maximum = w.manager.initialMaximumAllowedHashValueAsBigInt ∧
        Along (step sha256) (fun s _ t => s.maximum ≤ t.maximum) w as

variable {sha256 : Sha256} {options : ProofOfWorkOptions} {w t : ProofOfWorkRun}
  {a : ProofOfWorkAction}

theorem eq_of_isEvaluation (h : isEvaluation a = true) : a = .refreshMaximumAllowedHashValue := by
  cases a with
  | refreshMaximumAllowedHashValue => rfl
  | _ => cases h

theorem kept_of_not_evaluation (h : w.step sha256 a = some t) (ha : isEvaluation a = false) :
    t.maximum = w.maximum ∧ t.increment = w.increment := by
  rcases step_cases h with
    ⟨elapsed, rfl⟩ | ⟨_, r, _, -, -, rfl⟩ | ⟨r, -, rfl⟩ | ⟨nonces, rfl⟩ | ⟨rfl, -⟩ | rfl
  case inr.inr.inr.inr.inl => cases ha
  all_goals exact ⟨rfl, rfl⟩

/-! ## States from which the maximum recovers -/

/-- The initial maximum is reached, or the increment is, or will be, positive. -/
def Progresses (initial : ℤ) (w : ProofOfWorkRun) : Prop :=
  w.maximum = initial ∨ (∃ increment, 1 ≤ increment ∧ w.increment = some increment) ∨
    w.increment = none ∧ 60 ≤ initial - w.maximum

theorem Progresses.congr {initial : ℤ} (hw : w.Progresses initial)
    (hmaximum : t.maximum = w.maximum) (hincrement : t.increment = w.increment) :
    t.Progresses initial := by
  unfold Progresses
  rw [hmaximum, hincrement]
  exact hw

/-- A low evaluation in such a state adds at least one, up to the initial maximum. -/
theorem Progresses.low_evaluation (ho : ManagesRegistrations options) (hs : w.Scaled options)
    (hw : w.Progresses options.initialMaximumAllowedHashValueAsBigInt)
    (h : w.step sha256 .refreshMaximumAllowedHashValue = some t) (hlow : w.solveCount ≤ 10) :
    t.Progresses options.initialMaximumAllowedHashValueAsBigInt ∧
      min (w.maximum + 1) options.initialMaximumAllowedHashValueAsBigInt ≤ t.maximum := by
  rcases evaluation_cases ho hs h with
    ⟨hover, -, -⟩ | ⟨-, hinitial, hsame, hkept⟩ | ⟨-, hless, increment, hadded, hraised, hkept⟩
  · omega
  · exact ⟨hw.congr hsame hkept, by omega⟩
  · have hpositive : 1 ≤ increment := by
      rcases hw with hinitial | ⟨remembered, hpositive, hremembered⟩ | ⟨hnone, hmissing⟩
      · omega
      · rw [hremembered] at hadded
        exact hadded ▸ hpositive
      · rw [hnone, Option.getD_none] at hadded
        omega
    exact ⟨Or.inr (Or.inl ⟨increment, hpositive, hkept⟩), by omega⟩

/-- The maximum rises by at least one in each low evaluation of a run. -/
theorem Progresses.run (ho : ManagesRegistrations options) {as : List ProofOfWorkAction}
    (hs : w.Scaled options) (hw : w.Progresses options.initialMaximumAllowedHashValueAsBigInt)
    (hrun : Transition.run (ProofOfWorkRun.step sha256) w as = some t)
    (hlow : Along (ProofOfWorkRun.step sha256) (fun s a _ => s.LowEvaluation a) w as) :
    min (w.maximum + evaluations as) options.initialMaximumAllowedHashValueAsBigInt ≤ t.maximum ∧
      Along (ProofOfWorkRun.step sha256) (fun s _ t => s.maximum ≤ t.maximum) w as := by
  induction as generalizing w with
  | nil =>
    obtain rfl := Option.some.inj hrun
    exact ⟨by simp [evaluations], trivial⟩
  | cons a as ih =>
    obtain ⟨u, hu, hrest⟩ := Option.bind_eq_some_iff.mp hrun
    obtain ⟨hlowstep, hlowrest⟩ := hlow u hu
    have hsu := scaled_step ho hs hu
    have hwmax := hs.maximum_bounds
    by_cases ha : isEvaluation a = true
    · obtain rfl := eq_of_isEvaluation ha
      have hcount : w.solveCount ≤ 10 := by
        have := hlowstep rfl
        rw [show w.manager.desiredSolveCountPerMinute = 10 by rw [hs.options, ho.desired]] at this
        exact_mod_cast this
      obtain ⟨hwu, hraised⟩ := hw.low_evaluation ho hs hu hcount
      obtain ⟨hbound, hmono⟩ := ih hsu hwu hrest hlowrest
      have hcountP : evaluations (.refreshMaximumAllowedHashValue :: as) = evaluations as + 1 :=
        List.countP_cons_of_pos ha
      refine ⟨?_, fun v hv => ?_⟩
      · rw [hcountP]
        push_cast
        omega
      · obtain rfl := Option.some.inj (hu.symm.trans hv)
        exact ⟨by omega, hmono⟩
    · rw [Bool.not_eq_true] at ha
      obtain ⟨hmaximum, hincrement⟩ := kept_of_not_evaluation hu ha
      obtain ⟨hbound, hmono⟩ := ih hsu (hw.congr hmaximum hincrement) hrest hlowrest
      have hcountP : evaluations (a :: as) = evaluations as :=
        List.countP_cons_of_neg (by rw [ha]; exact Bool.false_ne_true)
      refine ⟨by rw [hcountP, ← hmaximum]; exact hbound, fun v hv => ?_⟩
      obtain rfl := Option.some.inj (hu.symm.trans hv)
      exact ⟨hmaximum.ge, hmono⟩

theorem Progresses.recovers (ho : ManagesRegistrations options) (hs : w.Scaled options)
    (hw : w.Progresses options.initialMaximumAllowedHashValueAsBigInt) : Recovers sha256 w := by
  refine ⟨(options.initialMaximumAllowedHashValueAsBigInt - w.maximum).toNat,
    fun as t hrun hlow hcount => ?_⟩
  obtain ⟨hbound, hmono⟩ := hw.run ho hs hrun hlow
  have htmax := (scaled_run ho hs hrun).maximum_bounds
  refine ⟨?_, hmono⟩
  rw [hcount] at hbound
  rw [hs.options]
  omega

/-! ## Initial maxima that are large, or tiny -/

/-- From an initial maximum of 3950 on, an evaluation that lowers the maximum leaves at least
sixty missing. -/
theorem Progresses.step (ho : ManagesRegistrations options) (hs : w.Scaled options)
    (hI : 3950 ≤ options.initialMaximumAllowedHashValueAsBigInt)
    (hw : w.Progresses options.initialMaximumAllowedHashValueAsBigInt)
    (h : w.step sha256 a = some t) :
    t.Progresses options.initialMaximumAllowedHashValueAsBigInt := by
  by_cases ha : isEvaluation a = true
  · obtain rfl := eq_of_isEvaluation ha
    by_cases hlow : w.solveCount ≤ 10
    · exact (hw.low_evaluation ho hs h hlow).1
    rcases evaluation_cases ho hs h with ⟨hover, hlowered, hnone⟩ | ⟨hunder, -⟩ | ⟨hunder, -⟩
    · refine Or.inr (Or.inr ⟨hnone, ?_⟩)
      have hmax := hs.maximum_bounds
      obtain ⟨hnonneg, hle⟩ := div_rate_bounds (zero_le_one.trans hmax.1)
        (le_scaledRate_of_over ho hover)
      rw [hlowered]
      unfold lowered
      unfold scaleFactor at *
      omega
    · omega
    · omega
  · obtain ⟨hmaximum, hincrement⟩ := kept_of_not_evaluation h (by simpa using ha)
    exact hw.congr hmaximum hincrement

/-- Up to an initial maximum of 5, a sixth of it is nothing. -/
theorem maximum_eq_initial_step (ho : ManagesRegistrations options) (hs : w.Scaled options)
    (hI : options.initialMaximumAllowedHashValueAsBigInt ≤ 5)
    (hw : w.maximum = options.initialMaximumAllowedHashValueAsBigInt)
    (h : w.step sha256 a = some t) :
    t.maximum = options.initialMaximumAllowedHashValueAsBigInt := by
  by_cases ha : isEvaluation a = true
  · obtain rfl := eq_of_isEvaluation ha
    rcases evaluation_cases ho hs h with ⟨hover, hlowered, -⟩ | ⟨-, -, hsame, -⟩ | ⟨-, hless, -⟩
    · have hmax := hs.maximum_bounds
      obtain ⟨hnonneg, hle⟩ := div_rate_bounds (zero_le_one.trans hmax.1)
        (le_scaledRate_of_over ho hover)
      rw [hlowered]
      unfold lowered
      unfold scaleFactor at *
      omega
    · exact hsame.trans hw
    · omega
  · exact (kept_of_not_evaluation h (by simpa using ha)).1.trans hw

/-! ## States that do not recover -/

/-- The increment is zero, or will be. -/
def Stuck (initial : ℤ) (w : ProofOfWorkRun) : Prop :=
  w.maximum < initial ∧ w.increment.getD ((initial - w.maximum) / 60) = 0

/-- Every recorded proof of work is older than a minute. -/
def Quiet (w : ProofOfWorkRun) : Prop :=
  ∀ e ∈ w.manager.proofOfWorkOfLastMinute.entries, e.2 < w.now - 60 * 1000

theorem Quiet.removed (hw : w.Quiet) :
    (w.manager.removeProofOfWorkOlderThanOneMinute w.now).proofOfWorkOfLastMinute.entries = [] := by
  refine List.filter_eq_nil_iff.mpr fun e he => ?_
  simp only [decide_not, Bool.not_eq_true', decide_eq_false_iff_not, not_not]
  exact hw e he

theorem Quiet.solveCount (hw : w.Quiet) : w.solveCount = 0 := by
  rw [ProofOfWorkRun.solveCount, currentSolveCountPerMinute, OrderedMap.size, hw.removed]
  rfl

theorem Stuck.low_evaluation (ho : ManagesRegistrations options) (hs : w.Scaled options)
    (hw : w.Stuck options.initialMaximumAllowedHashValueAsBigInt) (hquiet : w.Quiet)
    (h : w.step sha256 .refreshMaximumAllowedHashValue = some t) :
    t.Stuck options.initialMaximumAllowedHashValueAsBigInt ∧ t.Quiet := by
  obtain ⟨hless, hzero⟩ := hw
  constructor
  · rcases evaluation_cases ho hs h with
      ⟨hover, -⟩ | ⟨-, hinitial, -⟩ | ⟨-, -, increment, hadded, hraised, hkept⟩
    · rw [hquiet.solveCount] at hover
      omega
    · omega
    · obtain rfl := hzero.symm.trans hadded
      exact ⟨by omega, by rw [hkept]; rfl⟩
  · obtain rfl := Option.some.inj h
    intro e he
    rw [(w.manager.refreshMaximumAllowedHashValue_kept w.now).2.2, hquiet.removed] at he
    cases he

variable (sha256) in
/-- Any number of evaluations at no load leaves a stuck maximum below the initial one. -/
theorem Stuck.run (ho : ManagesRegistrations options) (hs : w.Scaled options)
    (hw : w.Stuck options.initialMaximumAllowedHashValueAsBigInt) (hquiet : w.Quiet) (k : ℕ) :
    ∃ t, Transition.run (ProofOfWorkRun.step sha256) w
        (List.replicate k .refreshMaximumAllowedHashValue) = some t ∧
      t.maximum < options.initialMaximumAllowedHashValueAsBigInt ∧
      Along (ProofOfWorkRun.step sha256) (fun s a _ => s.LowEvaluation a) w
        (List.replicate k .refreshMaximumAllowedHashValue) := by
  induction k generalizing w with
  | zero => exact ⟨w, rfl, hw.1, trivial⟩
  | succ k ih =>
    obtain ⟨u, hu⟩ : ∃ u, w.step sha256 .refreshMaximumAllowedHashValue = some u := ⟨_, rfl⟩
    obtain ⟨hstuck, hquiet'⟩ := hw.low_evaluation ho hs hquiet hu
    obtain ⟨t, hrun, hless, hlow⟩ := ih (scaled_step ho hs hu) hstuck hquiet'
    refine ⟨t, by rw [List.replicate_succ, run_cons, hu]; exact hrun, hless, fun v hv => ?_⟩
    obtain rfl := Option.some.inj (hu.symm.trans hv)
    refine ⟨fun _ => ?_, hlow⟩
    rw [hquiet.solveCount, show w.manager.desiredSolveCountPerMinute = 10 by
      rw [hs.options, ho.desired]]
    norm_num

theorem Stuck.not_recovers (ho : ManagesRegistrations options) (hs : w.Scaled options)
    (hw : w.Stuck options.initialMaximumAllowedHashValueAsBigInt)
    (htimes : ∀ e ∈ w.manager.proofOfWorkOfLastMinute.entries, e.2 ≤ w.now) :
    ¬Recovers sha256 w := by
  rintro ⟨k, hk⟩
  -- a minute passes, and the load is gone
  have hquiet : Quiet { w with now := w.now + 60001 } := by
    intro e he
    have := htimes e he
    dsimp only
    omega
  have hs' : Scaled options { w with now := w.now + 60001 } :=
    ⟨hs.options, hs.inScale, hs.increment⟩
  obtain ⟨t, hrun, hless, hlow⟩ := Stuck.run sha256 ho hs' hw hquiet k
  obtain ⟨hinitial, -⟩ := hk (.clock 60001 :: List.replicate k .refreshMaximumAllowedHashValue) t
    hrun (by
      intro v hv
      obtain rfl := Option.some.inj hv
      exact ⟨nofun, hlow⟩)
    (by simp [evaluations, isEvaluation, List.countP_replicate])
  rw [hs.options] at hinitial
  omega

/-! ## Which initial maxima the difficulty returns to -/

variable (sha256) in
/-- A single evaluation at a high solve rate. -/
theorem exists_lowered (ho : ManagesRegistrations options) (hs : w.Scaled options)
    (hempty : w.manager.proofOfWorkOfLastMinute = .empty) {n : ℕ} (hn : 10 < n) :
    ∃ as t, run (step sha256) w as = some t ∧ t.increment = none ∧
      t.maximum = lowered w.maximum (scaledRate options n) ∧
      ∀ e ∈ t.manager.proofOfWorkOfLastMinute.entries, e.2 ≤ t.now := by
  obtain ⟨proofs, hrun, hentries⟩ := run_recordings sha256 w hempty n
  set u : ProofOfWorkRun :=
    { w with manager := { w.manager with proofOfWorkOfLastMinute := proofs } } with hu
  have htimes : ∀ e ∈ proofs.entries, e.2 = w.now := by
    intro e he
    obtain ⟨i, -, rfl⟩ := List.mem_map.mp (hentries ▸ he)
    rfl
  have hkept : u.manager.removeProofOfWorkOlderThanOneMinute u.now = u.manager :=
    removeProofOfWorkOlderThanOneMinute_of_fresh fun e he => by
      rw [htimes e he]
      simp [hu]
  have hcount : u.solveCount = n := by
    rw [solveCount, hkept]
    simp [currentSolveCountPerMinute, OrderedMap.size, hu, hentries]
  have hsu : u.Scaled options := ⟨hs.options, hs.inScale, hs.increment⟩
  obtain ⟨t, ht⟩ : ∃ t, u.step sha256 .refreshMaximumAllowedHashValue = some t := ⟨_, rfl⟩
  refine ⟨recordings n ++ [.refreshMaximumAllowedHashValue], t, by
    rw [run_append, hrun, Option.bind_some, run_cons, ht]; rfl, ?_⟩
  rcases evaluation_cases ho hsu ht with
    ⟨-, hlowered, hnone⟩ | ⟨hunder, -⟩ | ⟨hunder, -⟩
  · rw [hcount] at hlowered
    refine ⟨hnone, hlowered, fun e he => ?_⟩
    obtain rfl := Option.some.inj ht
    rw [(u.manager.refreshMaximumAllowedHashValue_kept u.now).2.2, hkept] at he
    exact (htimes e he).le
  · omega
  · omega

theorem scaledRate_eleven (ho : ManagesRegistrations options) :
    scaledRate options 11 = 1100000 := by
  rw [scaledRate, ho.desired, ho.multiplier]
  decide +kernel

variable (sha256) in
/-- From an initial maximum of 6 to one of 3949, an evaluation can leave less than sixty
missing. -/
theorem exists_stuck (ho : ManagesRegistrations options) (hs : w.Scaled options)
    (hempty : w.manager.proofOfWorkOfLastMinute = .empty)
    (hw : w.maximum = options.initialMaximumAllowedHashValueAsBigInt)
    (h6 : 6 ≤ options.initialMaximumAllowedHashValueAsBigInt)
    (h3950 : options.initialMaximumAllowedHashValueAsBigInt < 3950) :
    ∃ as t, run (step sha256) w as = some t ∧
      t.Stuck options.initialMaximumAllowedHashValueAsBigInt ∧
      ∀ e ∈ t.manager.proofOfWorkOfLastMinute.entries, e.2 ≤ t.now := by
  have hstuck : ∃ n, 10 < n ∧ lowered w.maximum (scaledRate options n) < w.maximum ∧
      w.maximum - lowered w.maximum (scaledRate options n) < 60 := by
    by_cases hsmall : w.maximum < 66
    · -- at 64 times the desired rate next to nothing is left of the share
      refine ⟨640, by norm_num, ?_⟩
      have hrate : 64000000 ≤ scaledRate options 640 :=
        le_scaledRate (n := 64) (e := 0) ho.documented.rated (by norm_num) (by norm_num)
          (by rw [ho.desired]; norm_num) (by norm_num [scaleFactor])
      have hnonneg : 0 ≤ w.maximum * scaleFactor / scaledRate options 640 :=
        Int.ediv_nonneg (by unfold scaleFactor; omega) (by omega)
      have hle : w.maximum * scaleFactor / scaledRate options 640 * 64000000 ≤
          w.maximum * scaleFactor :=
        (mul_le_mul_of_nonneg_left hrate hnonneg).trans (Int.ediv_mul_le _ (by omega))
      unfold lowered
      unfold scaleFactor at *
      omega
    · refine ⟨11, by norm_num, ?_⟩
      rw [scaledRate_eleven ho]
      unfold lowered scaleFactor
      omega
  obtain ⟨n, hn, hless, hmissing⟩ := hstuck
  obtain ⟨as, t, hrun, hnone, hlowered, htimes⟩ := exists_lowered sha256 ho hs hempty hn
  refine ⟨as, t, hrun, ⟨by omega, ?_⟩, htimes⟩
  rw [hnone, Option.getD_none]
  omega

/-- From every reachable state the difficulty returns to the initial one when the load goes
away, exactly if the initial maximum is at most 5 or at least 3950. -/
theorem recovers_iff {now : ℤ} {random random' : BitVec 256}
    {readFileSync : JsString → Eval JsString} {store : RegistrationStore}
    {input : RegistrationManager.Input} {m : RegistrationManager} {p : ProofOfWorkManager}
    (hcreate : RegistrationManager.create sha256 now random random' readFileSync store input =
      .ok m)
    (hp : m.proofOfWorkManager = some p) (hI : 1 ≤ p.initialMaximumAllowedHashValueAsBigInt) :
    (∀ as w, run (step sha256) ⟨p, now, []⟩ as = some w →
        w.maximum < p.initialMaximumAllowedHashValueAsBigInt → Recovers sha256 w) ↔
      p.initialMaximumAllowedHashValueAsBigInt ≤ 5 ∨
        3950 ≤ p.initialMaximumAllowedHashValueAsBigInt := by
  obtain ⟨ho, hstart, hempty, hinitial, -⟩ := scaled_of_create hcreate hp hI
  constructor
  · intro h
    by_contra hbetween
    obtain ⟨as, w, hrun, hstuck, htimes⟩ := exists_stuck sha256 ho hstart hempty
      hinitial (by omega) (by omega)
    exact hstuck.not_recovers ho (scaled_run ho hstart hrun) htimes (h as w hrun hstuck.1)
  · intro hrange as w hrun hless
    rcases hrange with htiny | hlarge
    · obtain ⟨-, hmaximum⟩ := run_invariant
        (I := fun s => s.Scaled p.toProofOfWorkOptions ∧
          s.maximum = p.initialMaximumAllowedHashValueAsBigInt)
        (fun _ _ _ ⟨hs, hmax⟩ hstep =>
          ⟨scaled_step ho hs hstep, maximum_eq_initial_step ho hs htiny hmax hstep⟩)
        ⟨hstart, hinitial⟩ hrun
      omega
    · obtain ⟨hs, hw⟩ := run_invariant
        (I := fun s => s.Scaled p.toProofOfWorkOptions ∧
          s.Progresses p.initialMaximumAllowedHashValueAsBigInt)
        (fun _ _ _ ⟨hs, hw⟩ hstep => ⟨scaled_step ho hs hstep, hw.step ho hs hlarge hstep⟩)
        ⟨hstart, Or.inl hinitial⟩ hrun
      exact hw.recovers ho hs

/-! ## Two initial maxima -/

/-- A maximum of 65535 comes back. -/
theorem recovers_large :
    ∃ m, RegistrationManager.create (fun _ => 0) 0 0 1 (fun _ => .error .engine) .empty
        (smallInput (js "FFFF")) = .ok m ∧
      ∃ p, m.proofOfWorkManager = some p ∧
        ∀ as w, run (step fun _ => 0) ⟨p, 0, []⟩ as = some w → w.maximum < 65535 →
          Recovers (fun _ => 0) w := by
  obtain ⟨m, hm, p, hp, hinitial⟩ := @exists_create_small (js "FFFF") 65535 (by decide +kernel)
  have hrecovers := (recovers_iff hm hp (by omega)).mpr (by omega)
  rw [hinitial] at hrecovers
  exact ⟨m, hm, p, hp, hrecovers⟩

/-- A maximum of 255 does not: one evaluation at a high rate leaves fewer than sixty missing. -/
theorem not_recovers : ¬∀ (sha256 : Sha256) (now : ℤ) (random random' : BitVec 256)
    (readFileSync : JsString → Eval JsString) (store : RegistrationStore)
    (input : RegistrationManager.Input) (m : RegistrationManager) (p : ProofOfWorkManager),
    RegistrationManager.create sha256 now random random' readFileSync store input = .ok m →
    m.proofOfWorkManager = some p → 1 ≤ p.initialMaximumAllowedHashValueAsBigInt →
    ∀ as w, run (step sha256) ⟨p, now, []⟩ as = some w →
      w.maximum < p.initialMaximumAllowedHashValueAsBigInt → Recovers sha256 w := by
  intro h
  obtain ⟨m, hm, p, hp, hinitial⟩ := @exists_create_small (js "FF") 255 (by decide +kernel)
  obtain ⟨ho, hstart, hempty, hmaximum, -⟩ := scaled_of_create hm hp (by omega)
  obtain ⟨as, w, hrun, hstuck, htimes⟩ := exists_stuck (fun _ => 0) ho hstart hempty
    hmaximum (by omega) (by omega)
  exact hstuck.not_recovers ho (scaled_run ho hstart hrun) htimes
    (h (fun _ => 0) 0 0 1 _ _ _ m p hm hp (by omega) as w hrun hstuck.1)

end ProofOfWorkRun

end DwnServer
