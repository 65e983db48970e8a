import DwnServer.Registration.ChallengeNonces

/-!
# For how long a challenge nonce is accepted

A refresh keeps the nonce before it acceptable, and no older one. Without a seed that is the
nonce it replaces. With a seed it is the nonce of the interval before the one that the clock
is in, and a timer that fires late can skip an interval.
-/
namespace DwnServer

open Transition

namespace ProofOfWorkManager

/-- The refresh period in milliseconds. -/
def refreshPeriod (options : ProofOfWorkOptions) : ℚ :=
  options.challengeRefreshFrequencyInSeconds * 1000

variable {options : ProofOfWorkOptions}

/-- Each period that passes brings the next interval at least. -/
theorem refreshIntervalId_add_le (hperiod : 0 < refreshPeriod options) (time time' k : ℤ)
    (h : (time : ℚ) + k * refreshPeriod options ≤ time') :
    refreshIntervalId options time + k ≤ refreshIntervalId options time' := by
  have hquotient : (time : ℚ) / refreshPeriod options + k ≤ time' / refreshPeriod options := by
    rw [le_div_iff₀ hperiod, add_mul, div_mul_cancel₀ _ hperiod.ne']
    exact h
  have hfloor := Int.floor_le_floor hquotient
  rwa [Int.floor_add_intCast] at hfloor

/-- Less than `k` periods bring at most the `k`-th next interval. -/
theorem refreshIntervalId_le_add (hperiod : 0 < refreshPeriod options) (time time' k : ℤ)
    (h : (time' : ℚ) < time + k * refreshPeriod options) :
    refreshIntervalId options time' ≤ refreshIntervalId options time + k := by
  have hquotient : (time' : ℚ) / refreshPeriod options ≤ time / refreshPeriod options + k := by
    rw [div_le_iff₀ hperiod, add_mul, div_mul_cancel₀ _ hperiod.ne']
    exact h.le
  have hfloor := Int.floor_le_floor hquotient
  rwa [Int.floor_add_intCast] at hfloor

/-- Without a seed there is never a next nonce. -/
theorem foldl_refreshed_next {sha256 : Sha256} (hseed : options.challengeSeed = none)
    {nonces : ChallengeNonces} (rs : List Refresh) :
    (rs.foldl (refreshed sha256 options) nonces).nextChallengeNonce =
      nonces.nextChallengeNonce := by
  induction rs generalizing nonces with
  | nil => rfl
  | cons r rs ih =>
    rw [List.foldl_cons, ih]
    simp only [refreshed, hseed]

end ProofOfWorkManager

namespace ProofOfWorkRun

open ProofOfWorkManager

/-- All refreshes, from the creation on. -/
def history (input : ProofOfWorkManager.Input) (now : ℤ) (random' : BitVec 256)
    (as : List ProofOfWorkAction) : List Refresh :=
  firstRefreshes input now random' ++ refreshes now as

variable {sha256 : Sha256} {now : ℤ} {random random' : BitVec 256}
  {input : ProofOfWorkManager.Input} {m : ProofOfWorkManager} {w t : ProofOfWorkRun}
  {as bs : List ProofOfWorkAction}

/-- The nonces of a reachable state are what all the refreshes make of the first one. -/
theorem challengeNonces_eq (hcreate : create sha256 now random random' input = .ok m)
    (hrun : run (step sha256) ⟨m, now, []⟩ as = some w) :
    w.manager.toProofOfWorkOptions = m.toProofOfWorkOptions ∧
      w.manager.challengeNonces = (history input now random' as).foldl
        (refreshed sha256 m.toProofOfWorkOptions) (drawn random) := by
  obtain ⟨hoptions, hnonces⟩ := challengeNonces_run hrun
  rw [hnonces, (challengeNonces_of_create hcreate).2, history, List.foldl_append]
  exact ⟨hoptions, rfl⟩

theorem refreshes_append (hrun : run (step sha256) w as = some t) :
    refreshes w.now (as ++ bs) = refreshes w.now as ++ refreshes t.now bs := by
  induction as generalizing w with
  | nil =>
    obtain rfl := Option.some.inj hrun
    rfl
  | cons a as ih =>
    obtain ⟨u, hu, hrest⟩ := Option.bind_eq_some_iff.mp hrun
    obtain ⟨-, hrefreshes, -⟩ := refreshes_step hu
    rw [List.cons_append, hrefreshes, hrefreshes, ih hrest, List.append_assoc]

/-- No refresh of a run is later than the state it leads to. -/
theorem time_le_of_mem_refreshes (hrun : run (step sha256) w as = some t) :
    w.now ≤ t.now ∧ ∀ r ∈ refreshes w.now as, r.time ≤ t.now := by
  induction as generalizing w with
  | nil =>
    obtain rfl := Option.some.inj hrun
    exact ⟨le_rfl, by simp [refreshes]⟩
  | cons a as ih =>
    obtain ⟨u, hu, hrest⟩ := Option.bind_eq_some_iff.mp hrun
    obtain ⟨hclock, hrefreshes, -⟩ := refreshes_step hu
    obtain ⟨hnow, htimes⟩ := ih hrest
    refine ⟨hclock.trans hnow, fun r hr => ?_⟩
    rw [hrefreshes] at hr
    rcases List.mem_append.mp hr with hfirst | hlater
    · rw [time_of_mem_refreshOf hfirst]
      exact hclock.trans hnow
    · exact htimes r hlater

theorem time_le_of_mem_history (hrun : run (step sha256) ⟨m, now, []⟩ as = some w) {r : Refresh}
    (hr : r ∈ history input now random' as) : r.time ≤ w.now := by
  obtain ⟨hnow, htimes⟩ := time_le_of_mem_refreshes hrun
  rcases List.mem_append.mp hr with hfirst | hlater
  · unfold firstRefreshes at hfirst
    split_ifs at hfirst
    · obtain rfl := List.mem_singleton.mp hfirst
      exact hnow
    · cases hfirst
  · exact htimes r hlater

/-! ## A cluster that refreshes every ten minutes -/

/-- SHA-256 of the text `seed`, an interval number and `seed` again. -/
def digests : List (ℤ × BitVec 256) :=
  [(-1, 0x926d7393409919435818fd9b9c421c1fc8eb85d87461ea328af8a49445bdfcd8),
    (0, 0xa6d0957e87bd27f43b586d2383cc652fe229b9e2ec5091694111fc08861db928),
    (1, 0x1127f290c42c6393136e201216a1622fb328a90d33acc625df8fd6c767b380cc),
    (2, 0x4e91aa5b6d962c6d2f50187bb592210db85337796ae55ab1801ea5bbed7b9615),
    (3, 0x3beba6c1a91ff5da517c487b463ad49d20a8b909d758c7cd85b690dc3dfe1161)]

/-- SHA-256 where `digests` has it. -/
def digest (bytes : List UInt8) : BitVec 256 :=
  ((digests.find? fun d => seedInput (js "seed") d.1 = bytes).map (·.2)).getD 0

instance (sha256 : Sha256) (inputs : List (List UInt8)) :
    Decidable (CollisionFree sha256 inputs) :=
  inferInstanceAs (Decidable (∀ x ∈ inputs, ∀ y ∈ inputs, sha256 x = sha256 y → x = y))

def seeded : ProofOfWorkManager.Input := ⟨10, true, none, none, some (js "seed"), none, none⟩

/-- A manager of the cluster that was created at a time. -/
def seededManager (now : ℤ) : ProofOfWorkManager :=
  (construct (2 ^ 232 - 1) 0 seeded).start digest now 1

theorem create_seeded (now : ℤ) : create digest now 0 1 seeded = .ok (seededManager now) := by
  have hinitial : BigInt.ofHex (C := DwnServerErrorCode) defaultMaximumAllowedHashValue =
      .ok (2 ^ 232 - 1) := by
    decide +kernel
  show BigInt.ofHex defaultMaximumAllowedHashValue >>= _ = _
  rw [hinitial]
  rfl

theorem refreshPeriod_seeded (now : ℤ) :
    refreshPeriod (seededManager now).toProofOfWorkOptions = 600000 := by
  obtain ⟨hoptions, -⟩ := refreshMaximumAllowedHashValue_kept
    ((construct (2 ^ 232 - 1) 0 seeded).refreshChallengeNonce digest now 1) now
  rw [seededManager, ProofOfWorkManager.start, hoptions, refreshChallengeNonce_eq_refreshed]
  norm_num [refreshPeriod, construct, seeded]

/-! ## The next refresh -/

/-- A nonce that was returned just before a refresh is accepted just after it, unless there
is a seed and the refresh is two intervals after the previous one. -/
theorem survivesRefresh_iff (hcreate : create sha256 now random random' input = .ok m)
    (hrun : run (step sha256) ⟨m, now, []⟩ as = some w) {first : Refresh}
    (hfirst : (history input now random' as).getLast? = some first)
    (hearly : refreshPeriod m.toProofOfWorkOptions ≤ w.now - first.time)
    (hlate : w.now - first.time < 2 * refreshPeriod m.toProofOfWorkOptions)
    (hcollision : CollisionFree sha256 (hashed m.toProofOfWorkOptions [first.time, w.now]))
    (random'' : BitVec 256) :
    (w.manager.refreshChallengeNonce sha256 w.now random'').acceptedChallenge?
        (some (.string w.manager.getProofOfWorkChallenge.challengeNonce)) =
          some w.manager.getProofOfWorkChallenge.challengeNonce ↔
      input.challengeSeed = none ∨ refreshIntervalId m.toProofOfWorkOptions w.now ≠
        refreshIntervalId m.toProofOfWorkOptions first.time + 2 := by
  have hperiod : 0 < refreshPeriod m.toProofOfWorkOptions := by linarith
  obtain ⟨hoptions, hnonces⟩ := challengeNonces_eq hcreate hrun
  obtain ⟨earlier, hhistory⟩ := List.getLast?_eq_some_iff.mp hfirst
  rw [hhistory, List.foldl_append, List.foldl_cons, List.foldl_nil] at hnonces
  rw [acceptedChallenge?_string, refreshChallengeNonce_eq_refreshed, hoptions,
    getProofOfWorkChallenge, ← (challengeNonces_of_create hcreate).1]
  dsimp only
  cases hseed : m.challengeSeed with
  | none =>
    refine iff_of_true (mem_acceptable.mpr ⟨?_, Or.inl ?_⟩) (Or.inl rfl)
    · simp only [hnonces, refreshed, hseed]
      exact ProofOfWork.generateNonce_ne_nil _
    · simp only [refreshed, hseed]
  | some seed =>
    have hcurrent : w.manager.challengeNonces.currentChallengeNonce =
        seededNonce sha256 seed (refreshIntervalId m.toProofOfWorkOptions first.time) := by
      simp only [hnonces, refreshed, hseed]
    have hlow := refreshIntervalId_add_le hperiod first.time w.now 1 (by push_cast; linarith)
    have hhigh := refreshIntervalId_le_add hperiod first.time w.now 2 (by push_cast; linarith)
    rw [hcurrent, hcollision.seededNonce_mem_acceptable hseed (by simp) (by simp)]
    simp only [reduceCtorEq, false_or]
    omega

/-- A refresh exactly one period after the creation. -/
theorem survivesRefresh_onTime :
    ∃ w, run (step digest) ⟨seededManager 0, 0, []⟩ [.clock 600000] = some w ∧
      (w.manager.refreshChallengeNonce digest w.now 2).acceptedChallenge?
        (some (.string w.manager.getProofOfWorkChallenge.challengeNonce)) =
          some w.manager.getProofOfWorkChallenge.challengeNonce := by
  have hrun : run (step digest) ⟨seededManager 0, 0, []⟩ [.clock 600000] =
      some ⟨seededManager 0, 600000, []⟩ := rfl
  have hfirst : (history seeded 0 1 [.clock 600000]).getLast? = some ⟨0, 1⟩ := rfl
  refine ⟨_, hrun, (survivesRefresh_iff (create_seeded 0) hrun hfirst ?_ ?_ ?_ 2).mpr (Or.inr ?_)⟩
  · norm_num [refreshPeriod_seeded]
  · norm_num [refreshPeriod_seeded]
  · decide +kernel
  · decide +kernel

/-- A millisecond before an interval's end and two milliseconds late: the next interval is
skipped, and with it the nonce that clients hold. -/
theorem not_survivesRefresh : ¬∀ (sha256 : Sha256) (now : ℤ) (random random' random'' : BitVec 256)
    (input : ProofOfWorkManager.Input) (m : ProofOfWorkManager),
    create sha256 now random random' input = .ok m → input.autoStart = true →
    ∀ as w first, run (step sha256) ⟨m, now, []⟩ as = some w →
      (history input now random' as).getLast? = some first →
      refreshPeriod m.toProofOfWorkOptions ≤ w.now - first.time →
      w.now - first.time < 2 * refreshPeriod m.toProofOfWorkOptions →
      CollisionFree sha256 (hashed m.toProofOfWorkOptions [first.time, w.now]) →
      (w.manager.refreshChallengeNonce sha256 w.now random'').acceptedChallenge?
        (some (.string w.manager.getProofOfWorkChallenge.challengeNonce)) =
          some w.manager.getProofOfWorkChallenge.challengeNonce := by
  intro h
  have haccepted := h digest 599999 0 1 2 seeded _ (create_seeded 599999) rfl [.clock 600002] _
    ⟨599999, 1⟩ rfl rfl (by norm_num [refreshPeriod_seeded]) (by norm_num [refreshPeriod_seeded])
    (by decide +kernel)
  revert haccepted
  decide +kernel

/-! ## Two instances of a cluster -/

section Cluster

variable {now₁ now₂ : ℤ} {random₁ random₁' random₂ random₂' : BitVec 256}
  {input₁ input₂ : ProofOfWorkManager.Input} {m₁ m₂ : ProofOfWorkManager} {w₁ w₂ : ProofOfWorkRun}
  {as₁ as₂ : List ProofOfWorkAction}

/-- The nonce that one instance of a cluster returns is accepted by another at that moment,
unless the last refreshes of the two are two intervals apart, each on its own clock. -/
theorem sharedNonce_iff (hcreate₁ : create sha256 now₁ random₁ random₁' input₁ = .ok m₁)
    (hcreate₂ : create sha256 now₂ random₂ random₂' input₂ = .ok m₂)
    {seed : JsString} (hseed₁ : input₁.challengeSeed = some seed)
    (hseed₂ : input₂.challengeSeed = some seed)
    (hperiods : m₁.challengeRefreshFrequencyInSeconds = m₂.challengeRefreshFrequencyInSeconds)
    (hrun₁ : run (step sha256) ⟨m₁, now₁, []⟩ as₁ = some w₁)
    (hrun₂ : run (step sha256) ⟨m₂, now₂, []⟩ as₂ = some w₂) {last₁ last₂ : Refresh}
    (hlast₁ : (history input₁ now₁ random₁' as₁).getLast? = some last₁)
    (hlast₂ : (history input₂ now₂ random₂' as₂).getLast? = some last₂)
    (hrecent₁ : w₁.now - last₁.time < refreshPeriod m₁.toProofOfWorkOptions)
    (hrecent₂ : w₂.now - last₂.time < refreshPeriod m₁.toProofOfWorkOptions)
    (hskew : |(w₁.now : ℚ) - w₂.now| < refreshPeriod m₁.toProofOfWorkOptions)
    (hcollision : CollisionFree sha256 (hashed m₁.toProofOfWorkOptions [last₁.time, last₂.time])) :
    w₂.manager.acceptedChallenge?
        (some (.string w₁.manager.getProofOfWorkChallenge.challengeNonce)) =
          some w₁.manager.getProofOfWorkChallenge.challengeNonce ↔
      refreshIntervalId m₁.toProofOfWorkOptions last₁.time ≠
          refreshIntervalId m₁.toProofOfWorkOptions last₂.time + 2 ∧
        refreshIntervalId m₁.toProofOfWorkOptions last₂.time ≠
          refreshIntervalId m₁.toProofOfWorkOptions last₁.time + 2 := by
  have hnow₁ : (last₁.time : ℚ) ≤ w₁.now := by
    exact_mod_cast time_le_of_mem_history hrun₁ (List.mem_of_getLast? hlast₁)
  have hnow₂ : (last₂.time : ℚ) ≤ w₂.now := by
    exact_mod_cast time_le_of_mem_history hrun₂ (List.mem_of_getLast? hlast₂)
  have hperiod : 0 < refreshPeriod m₁.toProofOfWorkOptions := by linarith
  obtain ⟨-, hnonces₁⟩ := challengeNonces_eq hcreate₁ hrun₁
  obtain ⟨-, hnonces₂⟩ := challengeNonces_eq hcreate₂ hrun₂
  obtain ⟨earlier₁, hhistory₁⟩ := List.getLast?_eq_some_iff.mp hlast₁
  obtain ⟨earlier₂, hhistory₂⟩ := List.getLast?_eq_some_iff.mp hlast₂
  rw [hhistory₁, List.foldl_append, List.foldl_cons, List.foldl_nil] at hnonces₁
  rw [hhistory₂, List.foldl_append, List.foldl_cons, List.foldl_nil] at hnonces₂
  have hs₁ : m₁.challengeSeed = some seed := (challengeNonces_of_create hcreate₁).1.trans hseed₁
  have hs₂ : m₂.challengeSeed = some seed := (challengeNonces_of_create hcreate₂).1.trans hseed₂
  have hrefreshed : refreshed sha256 m₂.toProofOfWorkOptions =
      refreshed sha256 m₁.toProofOfWorkOptions := by
    funext nonces r
    simp only [refreshed, refreshIntervalId, hs₁, hs₂, hperiods]
  have hcurrent : w₁.manager.getProofOfWorkChallenge.challengeNonce =
      seededNonce sha256 seed (refreshIntervalId m₁.toProofOfWorkOptions last₁.time) := by
    simp only [getProofOfWorkChallenge, hnonces₁, refreshed, hs₁]
  have hbelow := refreshIntervalId_le_add hperiod last₁.time last₂.time 2 (by
    have := (abs_lt.mp hskew).1
    push_cast
    linarith)
  have habove := refreshIntervalId_le_add hperiod last₂.time last₁.time 2 (by
    have := (abs_lt.mp hskew).2
    push_cast
    linarith)
  rw [acceptedChallenge?_string, hcurrent, hnonces₂, hrefreshed,
    hcollision.seededNonce_mem_acceptable hs₁ (by simp) (by simp)]
  omega

/-- On both sides of an interval's end. -/
theorem sharedNonce_adjacent :
    ∃ w₁ w₂, run (step digest) ⟨seededManager 599999, 599999, []⟩ [.clock 2] = some w₁ ∧
      run (step digest) ⟨seededManager 600000, 600000, []⟩ [] = some w₂ ∧
        w₂.manager.acceptedChallenge?
          (some (.string w₁.manager.getProofOfWorkChallenge.challengeNonce)) =
            some w₁.manager.getProofOfWorkChallenge.challengeNonce := by
  have hrun₁ : run (step digest) ⟨seededManager 599999, 599999, []⟩ [.clock 2] =
      some ⟨seededManager 599999, 600001, []⟩ := rfl
  have hrun₂ := run_nil (step digest) ⟨seededManager 600000, 600000, []⟩
  have hlast₁ : (history seeded 599999 1 [.clock 2]).getLast? = some ⟨599999, 1⟩ := rfl
  have hlast₂ : (history seeded 600000 1 []).getLast? = some ⟨600000, 1⟩ := rfl
  refine ⟨_, _, hrun₁, hrun₂, (sharedNonce_iff (create_seeded 599999) (create_seeded 600000) rfl rfl
    rfl hrun₁ hrun₂ hlast₁ hlast₂ ?_ ?_ ?_ ?_).mpr ?_⟩
  · norm_num [refreshPeriod_seeded]
  · norm_num [refreshPeriod_seeded]
  · norm_num [refreshPeriod_seeded]
  · decide +kernel
  · decide +kernel

/-- Clocks three milliseconds apart: one instance is about to refresh, the other has just done
so, two intervals later. -/
theorem not_sharedNonce : ¬∀ (sha256 : Sha256) (now₁ now₂ : ℤ)
    (random₁ random₁' random₂ random₂' : BitVec 256) (input₁ input₂ : ProofOfWorkManager.Input)
    (m₁ m₂ : ProofOfWorkManager) (seed : JsString),
    create sha256 now₁ random₁ random₁' input₁ = .ok m₁ →
    create sha256 now₂ random₂ random₂' input₂ = .ok m₂ →
    input₁.challengeSeed = some seed → input₂.challengeSeed = some seed →
    m₁.challengeRefreshFrequencyInSeconds = m₂.challengeRefreshFrequencyInSeconds →
    ∀ as₁ as₂ w₁ w₂ last₁ last₂, run (step sha256) ⟨m₁, now₁, []⟩ as₁ = some w₁ →
      run (step sha256) ⟨m₂, now₂, []⟩ as₂ = some w₂ →
      (history input₁ now₁ random₁' as₁).getLast? = some last₁ →
      (history input₂ now₂ random₂' as₂).getLast? = some last₂ →
      w₁.now - last₁.time < refreshPeriod m₁.toProofOfWorkOptions →
      w₂.now - last₂.time < refreshPeriod m₁.toProofOfWorkOptions →
      |(w₁.now : ℚ) - w₂.now| < refreshPeriod m₁.toProofOfWorkOptions →
      CollisionFree sha256 (hashed m₁.toProofOfWorkOptions [last₁.time, last₂.time]) →
      w₂.manager.acceptedChallenge?
        (some (.string w₁.manager.getProofOfWorkChallenge.challengeNonce)) =
          some w₁.manager.getProofOfWorkChallenge.challengeNonce := by
  intro h
  have haccepted := h digest 599999 1200001 0 1 0 1 seeded seeded _ _ _ (create_seeded 599999)
    (create_seeded 1200001) rfl rfl rfl [.clock 599999] [] _ _ ⟨599999, 1⟩ ⟨1200001, 1⟩ rfl rfl rfl
    rfl (by norm_num [refreshPeriod_seeded]) (by norm_num [refreshPeriod_seeded])
    (by norm_num [refreshPeriod_seeded]) (by decide +kernel)
  revert haccepted
  decide +kernel

end Cluster

/-! ## From the second refresh on -/

/-- The refreshes are at least one period apart. -/
def Spaced (options : ProofOfWorkOptions) (rs : List Refresh) : Prop :=
  rs.IsChain fun r r' => (r.time : ℚ) + refreshPeriod options ≤ r'.time

theorem Spaced.pairwise {options : ProofOfWorkOptions} {rs : List Refresh}
    (hperiod : 0 < refreshPeriod options) (h : Spaced options rs) :
    rs.Pairwise fun r r' => (r.time : ℚ) + refreshPeriod options ≤ r'.time := by
  have : Trans (fun r r' : Refresh => (r.time : ℚ) + refreshPeriod options ≤ r'.time)
      (fun r r' : Refresh => (r.time : ℚ) + refreshPeriod options ≤ r'.time)
      (fun r r' : Refresh => (r.time : ℚ) + refreshPeriod options ≤ r'.time) :=
    ⟨fun hab hbc => by linarith⟩
  exact List.IsChain.pairwise h

theorem exists_append_pair {α : Type} {l : List α} (h : 2 ≤ l.length) :
    ∃ front a b, l = front ++ [a, b] := by
  rcases List.eq_nil_or_concat' l with rfl | ⟨l, b, rfl⟩
  · simp at h
  rcases List.eq_nil_or_concat' l with rfl | ⟨l, a, rfl⟩
  · simp at h
  · exact ⟨l, a, b, by simp⟩

/-- A nonce that was the current one after some refresh is refused from the second later
refresh on. -/
theorem refused_after_two (hcreate : create sha256 now random random' input = .ok m)
    (hperiod : 0 < refreshPeriod m.toProofOfWorkOptions)
    (hrun : run (step sha256) ⟨m, now, []⟩ as = some w)
    (hrefreshed : history input now random' as ≠ [])
    (hlater : run (step sha256) w bs = some t) (htwo : 2 ≤ (refreshes w.now bs).length)
    (hspaced : Spaced m.toProofOfWorkOptions (history input now random' (as ++ bs)))
    (hdistinct : input.challengeSeed = none →
      (random :: (history input now random' (as ++ bs)).map (·.random)).Nodup)
    (hcollision : CollisionFree sha256 (hashed m.toProofOfWorkOptions
      ((history input now random' (as ++ bs)).map (·.time)))) :
    t.manager.acceptedChallenge?
        (some (.string w.manager.getProofOfWorkChallenge.challengeNonce)) = none ∧
      ∀ responseNonce requestData accepted, t.manager.verifyProofOfWork sha256 t.now
        (some (.string w.manager.getProofOfWorkChallenge.challengeNonce)) responseNonce
          requestData ≠ .ok accepted := by
  obtain ⟨hoptions, hnonces⟩ := challengeNonces_eq hcreate hrun
  have hnonces' := (challengeNonces_run hlater).2
  have hseed := (challengeNonces_of_create hcreate).1
  have hhistory : history input now random' (as ++ bs) =
      history input now random' as ++ refreshes w.now bs := by
    rw [history, history, List.append_assoc]
    exact congrArg _ (refreshes_append hrun)
  obtain ⟨earlier, e, he⟩ := (List.eq_nil_or_concat' _).resolve_left hrefreshed
  obtain ⟨between, g, f, hgf⟩ := exists_append_pair htwo
  rw [he, List.foldl_append, List.foldl_cons, List.foldl_nil] at hnonces
  rw [hoptions, hgf, List.foldl_append, List.foldl_cons, List.foldl_cons,
    List.foldl_nil] at hnonces'
  rw [hhistory, he, hgf] at hspaced hdistinct hcollision
  suffices hrefused : w.manager.getProofOfWorkChallenge.challengeNonce ∉
      t.manager.challengeNonces.acceptable by
    refine ⟨?_, fun responseNonce requestData accepted hverify => ?_⟩
    · exact if_neg hrefused
    · obtain ⟨c, r, hc, -, -, -, hc', -⟩ := verifyProofOfWork_eq_ok.mp hverify
      obtain rfl := Json.string.inj (Option.some.inj hc)
      exact hrefused hc'
  cases hnoseed : m.challengeSeed with
  | none =>
    -- both later refreshes draw bytes of their own
    have hdrawn := (List.nodup_cons.mp (hdistinct (hseed ▸ hnoseed))).2
    simp only [List.map_append, List.map_cons, List.map_nil, List.nodup_append] at hdrawn
    have hother : ∀ r ∈ [g, f], e.random ≠ r.random := by
      intro r hr
      apply hdrawn.2.2 e.random (by simp) r.random
      rcases List.mem_pair.mp hr with rfl | rfl <;> simp
    have hcurrent : w.manager.challengeNonces.currentChallengeNonce =
        ProofOfWork.generateNonce e.random := by
      simp only [hnonces, refreshed, hnoseed]
    have hnext : w.manager.challengeNonces.nextChallengeNonce = none := by
      simp only [hnonces, refreshed, hnoseed, foldl_refreshed_next hnoseed, drawn]
    rw [getProofOfWorkChallenge, hcurrent, hnonces']
    refine generateNonce_not_mem_acceptable hnoseed ?_ (hother g (by simp)) (hother f (by simp))
    rw [foldl_refreshed_next hnoseed, hnext]
  | some seed =>
    -- the later refreshes bring the interval after the next one at least
    have hpairs := hspaced.pairwise hperiod
    simp only [List.pairwise_append] at hpairs
    have heg : (e.time : ℚ) + refreshPeriod m.toProofOfWorkOptions ≤ g.time :=
      hpairs.2.2 e (by simp) g (by simp)
    have hgf : (g.time : ℚ) + refreshPeriod m.toProofOfWorkOptions ≤ f.time := by
      have := hpairs.2.1.2.1
      simpa using this
    have hlater := refreshIntervalId_add_le hperiod e.time f.time 2 (by push_cast; linarith)
    have hcurrent : w.manager.challengeNonces.currentChallengeNonce =
        seededNonce sha256 seed (refreshIntervalId m.toProofOfWorkOptions e.time) := by
      simp only [hnonces, refreshed, hnoseed]
    rw [getProofOfWorkChallenge, hcurrent, hnonces',
      hcollision.seededNonce_mem_acceptable hnoseed (by simp) (by simp)]
    omega

/-- Two refreshes, each a period after the one before it. -/
def twoRefreshes : List ProofOfWorkAction :=
  [.clock 600000, .refreshChallengeNonce 2, .clock 600000, .refreshChallengeNonce 3]

theorem refused_onTime :
    ∃ t, run (step digest) ⟨seededManager 0, 0, []⟩ twoRefreshes = some t ∧
      t.manager.acceptedChallenge?
        (some (.string (seededManager 0).getProofOfWorkChallenge.challengeNonce)) = none := by
  obtain ⟨t, hlater⟩ : ∃ t, run (step digest) ⟨seededManager 0, 0, []⟩ twoRefreshes = some t :=
    ⟨_, rfl⟩
  refine ⟨_, hlater, (refused_after_two (create_seeded 0) ?_ (run_nil _ _) ?_ hlater ?_ ?_ ?_ ?_).1⟩
  · norm_num [refreshPeriod_seeded]
  · decide
  · decide
  · norm_num [Spaced, refreshPeriod_seeded, history, firstRefreshes, seeded, twoRefreshes,
      refreshes]
  · nofun
  · decide +kernel

end ProofOfWorkRun

end DwnServer
