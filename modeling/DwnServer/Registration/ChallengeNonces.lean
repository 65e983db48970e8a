import DwnServer.Registration.ProofOfWorkRun

/-!
# Challenge nonces over a run

Nothing but a refresh changes the challenge nonces, so those of a state are what its refreshes
make of the nonce that the constructor drew. With a seed they depend on the last refresh only:
they are the hashes for its interval number, the one before and the one after it.
-/
namespace DwnServer

open Transition

/-- A refresh of the challenge nonce, with the bytes it draws when there is no seed. -/
structure Refresh where
  time : ℤ
  random : BitVec 256
  deriving DecidableEq

namespace ProofOfWorkManager

/-- The number of the refresh interval that a time falls in. -/
def refreshIntervalId (options : ProofOfWorkOptions) (time : ℤ) : ℤ :=
  ⌊(time : ℚ) / (options.challengeRefreshFrequencyInSeconds * 1000)⌋

/-- The interval numbers whose nonces are accepted after a refresh. -/
def intervals (options : ProofOfWorkOptions) (time : ℤ) : List ℤ :=
  [refreshIntervalId options time - 1, refreshIntervalId options time,
    refreshIntervalId options time + 1]

/-- The nonces after a refresh. -/
def refreshed (sha256 : Sha256) (options : ProofOfWorkOptions) (nonces : ChallengeNonces)
    (r : Refresh) : ChallengeNonces :=
  match options.challengeSeed with
  | some seed =>
    ⟨some (seededNonce sha256 seed (refreshIntervalId options r.time - 1)),
      seededNonce sha256 seed (refreshIntervalId options r.time),
      some (seededNonce sha256 seed (refreshIntervalId options r.time + 1))⟩
  | none =>
    ⟨some nonces.currentChallengeNonce, ProofOfWork.generateNonce r.random,
      nonces.nextChallengeNonce⟩

/-- The nonces that a constructor leaves. -/
def drawn (random : BitVec 256) : ChallengeNonces := ⟨none, ProofOfWork.generateNonce random, none⟩

theorem refreshChallengeNonce_eq_refreshed (sha256 : Sha256) (m : ProofOfWorkManager) (now : ℤ)
    (random : BitVec 256) :
    m.refreshChallengeNonce sha256 now random =
      { m with challengeNonces :=
          refreshed sha256 m.toProofOfWorkOptions m.challengeNonces ⟨now, random⟩ } := by
  unfold refreshChallengeNonce refreshed
  cases m.challengeSeed <;> rfl

/-- The refresh that `create` begins with, when it starts the timers. -/
def firstRefreshes (input : Input) (now : ℤ) (random' : BitVec 256) : List Refresh :=
  if input.autoStart then [⟨now, random'⟩] else []

theorem challengeNonces_of_create {sha256 : Sha256} {now : ℤ} {random random' : BitVec 256}
    {input : Input} {m : ProofOfWorkManager}
    (h : create sha256 now random random' input = .ok m) :
    m.challengeSeed = input.challengeSeed ∧
      m.challengeNonces = (firstRefreshes input now random').foldl
        (refreshed sha256 m.toProofOfWorkOptions) (drawn random) := by
  obtain ⟨initial, -, h⟩ := Eval.bind_eq_ok.mp h
  obtain rfl := Except.ok.inj h
  unfold firstRefreshes
  split_ifs
  · obtain ⟨hoptions, hnonces, -⟩ := refreshMaximumAllowedHashValue_kept
      ((construct initial random input).refreshChallengeNonce sha256 now random') now
    rw [start, hoptions, hnonces, refreshChallengeNonce_eq_refreshed]
    exact ⟨rfl, rfl⟩
  · exact ⟨rfl, rfl⟩

/-! ## What is accepted -/

theorem mem_acceptable {nonces : ChallengeNonces} {c : JsString} :
    c ∈ nonces.acceptable ↔ c ≠ [] ∧ (nonces.previousChallengeNonce = some c ∨
      nonces.currentChallengeNonce = c ∨ nonces.nextChallengeNonce = some c) := by
  simp only [ChallengeNonces.acceptable, List.mem_filterMap, List.mem_cons, List.not_mem_nil,
    or_false, Option.filter_eq_some_iff, decide_eq_true_eq]
  constructor
  · rintro ⟨_, hnonce, rfl, hne⟩
    exact ⟨hne, by simpa [eq_comm] using hnonce⟩
  · rintro ⟨hne, hnonce⟩
    exact ⟨some c, by simpa [eq_comm] using hnonce, rfl, hne⟩

theorem acceptedChallenge?_string {m : ProofOfWorkManager} {c : JsString} :
    m.acceptedChallenge? (some (.string c)) = some c ↔ c ∈ m.challengeNonces.acceptable := by
  rw [acceptedChallenge?_eq_some]
  exact and_iff_right rfl

theorem seededNonce_ne_nil (sha256 : Sha256) (seed : JsString) (i : ℤ) :
    seededNonce sha256 seed i ≠ [] :=
  ProofOfWork.hashAsHexString_ne_nil _ _

/-- With a seed, the nonces of three intervals are accepted. -/
theorem mem_acceptable_refreshed {sha256 : Sha256} {options : ProofOfWorkOptions} {seed : JsString}
    (hseed : options.challengeSeed = some seed) {nonces : ChallengeNonces} {r : Refresh}
    {c : JsString} :
    c ∈ (refreshed sha256 options nonces r).acceptable ↔
      ∃ i ∈ intervals options r.time, seededNonce sha256 seed i = c := by
  simp only [mem_acceptable, refreshed, hseed, intervals, List.mem_cons, List.not_mem_nil, or_false,
    Option.some.injEq, exists_eq_or_imp, exists_eq_left]
  constructor
  · rintro ⟨-, h⟩
    exact h
  · rintro h
    refine ⟨?_, h⟩
    rcases h with rfl | rfl | rfl <;> exact seededNonce_ne_nil _ _ _

/-! ## Different intervals have different nonces -/

/-- The bytes that are hashed for an interval. -/
def seedInput (seed : JsString) (i : ℤ) : List UInt8 :=
  [seed, BigInt.toText i, seed].flatMap utf8

/-- The seed and a number and the seed again determine the number. -/
theorem seedInput_injective (seed : JsString) : Function.Injective (seedInput seed) := by
  intro i j h
  simp only [seedInput, List.flatMap_cons, List.flatMap_nil, List.append_nil] at h
  have htext := congrArg (List.map UInt8.toUInt16)
    (List.append_cancel_right (List.append_cancel_left h))
  rw [map_toUInt16_utf8 fun _ => BigInt.toText_ascii,
    map_toUInt16_utf8 fun _ => BigInt.toText_ascii] at htext
  exact BigInt.toText_injective htext

/-- The bytes hashed by refreshes at these times. -/
def hashed (options : ProofOfWorkOptions) (times : List ℤ) : List (List UInt8) :=
  match options.challengeSeed with
  | some seed => times.flatMap fun time => (intervals options time).map (seedInput seed)
  | none => []

/-- No two of the inputs collide. -/
def CollisionFree (sha256 : Sha256) (inputs : List (List UInt8)) : Prop :=
  ∀ x ∈ inputs, ∀ y ∈ inputs, sha256 x = sha256 y → x = y

theorem CollisionFree.seededNonce_inj {sha256 : Sha256} {options : ProofOfWorkOptions}
    {seed : JsString} {times : List ℤ} (h : CollisionFree sha256 (hashed options times))
    (hseed : options.challengeSeed = some seed) {time time' : ℤ} (htime : time ∈ times)
    (htime' : time' ∈ times) {i j : ℤ} (hi : i ∈ intervals options time)
    (hj : j ∈ intervals options time')
    (hij : seededNonce sha256 seed i = seededNonce sha256 seed j) : i = j := by
  have hmem : ∀ {t k}, t ∈ times → k ∈ intervals options t →
      seedInput seed k ∈ hashed options times := by
    intro t k ht hk
    simp only [hashed, hseed, List.mem_flatMap]
    exact ⟨t, ht, List.mem_map_of_mem hk⟩
  exact seedInput_injective seed
    (h _ (hmem htime hi) _ (hmem htime' hj) (lowerHex_hexDigits_injective hij))

/-- With a seed, a refresh makes the nonce of an interval acceptable exactly if it is made in that
interval or in one next to it. -/
theorem CollisionFree.seededNonce_mem_acceptable {sha256 : Sha256} {options : ProofOfWorkOptions}
    {seed : JsString} {times : List ℤ} (h : CollisionFree sha256 (hashed options times))
    (hseed : options.challengeSeed = some seed) {time : ℤ} (htime : time ∈ times)
    {nonces : ChallengeNonces} {r : Refresh} (hr : r.time ∈ times) :
    seededNonce sha256 seed (refreshIntervalId options time) ∈
        (refreshed sha256 options nonces r).acceptable ↔
      refreshIntervalId options time ≤ refreshIntervalId options r.time + 1 ∧
        refreshIntervalId options r.time ≤ refreshIntervalId options time + 1 := by
  rw [mem_acceptable_refreshed hseed]
  constructor
  · rintro ⟨i, hi, hsame⟩
    obtain rfl := h.seededNonce_inj hseed hr htime hi (by simp [intervals]) hsame
    simp only [intervals, List.mem_cons, List.not_mem_nil, or_false] at hi
    omega
  · rintro ⟨hlow, hhigh⟩
    refine ⟨_, ?_, rfl⟩
    simp only [intervals, List.mem_cons, List.not_mem_nil, or_false]
    omega

/-- Without a seed, the nonce of a refresh is no longer acceptable after two others, when those
draw other bytes. -/
theorem generateNonce_not_mem_acceptable {sha256 : Sha256} {options : ProofOfWorkOptions}
    (hseed : options.challengeSeed = none) {nonces : ChallengeNonces}
    (hnext : nonces.nextChallengeNonce = none) {random : BitVec 256} {r r' : Refresh}
    (hr : random ≠ r.random) (hr' : random ≠ r'.random) :
    ProofOfWork.generateNonce random ∉
      (refreshed sha256 options (refreshed sha256 options nonces r) r').acceptable := by
  simp only [mem_acceptable, refreshed, hseed, hnext, Option.some.injEq, reduceCtorEq, or_false]
  rintro ⟨-, hprevious | hcurrent⟩
  · exact hr (ProofOfWork.generateNonce_injective hprevious).symm
  · exact hr' (ProofOfWork.generateNonce_injective hcurrent).symm

end ProofOfWorkManager

/-! ## Runs -/

namespace ProofOfWorkRun

open ProofOfWorkManager

/-- The refreshes among some actions, from a time on. -/
def refreshes : ℤ → List ProofOfWorkAction → List Refresh
  | _, [] => []
  | now, .clock elapsed :: as => refreshes (now + elapsed) as
  | now, .refreshChallengeNonce random :: as => ⟨now, random⟩ :: refreshes now as
  | now, _ :: as => refreshes now as

/-- The refresh that an action is. -/
def refreshOf (now : ℤ) : ProofOfWorkAction → List Refresh
  | .refreshChallengeNonce random => [⟨now, random⟩]
  | _ => []

theorem time_of_mem_refreshOf {now : ℤ} {a : ProofOfWorkAction} {r : Refresh}
    (h : r ∈ refreshOf now a) : r.time = now := by
  cases a with
  | refreshChallengeNonce random => rw [List.mem_singleton.mp h]
  | _ => cases h

variable {sha256 : Sha256} {w t : ProofOfWorkRun} {a : ProofOfWorkAction}
  {as : List ProofOfWorkAction}

/-- A step changes the nonces by its refresh alone, and the later refreshes go on from the state
after it. -/
theorem refreshes_step (h : w.step sha256 a = some t) :
    w.now ≤ t.now ∧
      (∀ as, refreshes w.now (a :: as) = refreshOf w.now a ++ refreshes t.now as) ∧
      t.manager.toProofOfWorkOptions = w.manager.toProofOfWorkOptions ∧
      t.manager.challengeNonces = (refreshOf w.now a).foldl
        (refreshed sha256 w.manager.toProofOfWorkOptions) w.manager.challengeNonces := by
  cases a with
  | clock elapsed =>
    obtain rfl := Option.some.inj h
    refine ⟨?_, fun _ => rfl, rfl, rfl⟩
    dsimp only
    omega
  | recordProofOfWork =>
    obtain rfl := Option.some.inj h
    exact ⟨le_rfl, fun _ => rfl, rfl, rfl⟩
  | verifyProofOfWork challengeNonce responseNonce requestData =>
    simp only [step] at h
    split at h
    · rename_i manager hverify
      obtain ⟨c, r, -, -, -, -, -, -, rfl⟩ := verifyProofOfWork_eq_ok.mp hverify
      obtain rfl := Option.some.inj h
      exact ⟨le_rfl, fun _ => rfl, rfl, rfl⟩
    · obtain rfl := Option.some.inj h
      exact ⟨le_rfl, fun _ => rfl, rfl, rfl⟩
  | refreshChallengeNonce random =>
    simp only [step, refreshChallengeNonce_eq_refreshed] at h
    obtain rfl := Option.some.inj h
    exact ⟨le_rfl, fun _ => rfl, rfl, rfl⟩
  | refreshMaximumAllowedHashValue =>
    obtain rfl := Option.some.inj h
    obtain ⟨hoptions, hnonces, -⟩ := w.manager.refreshMaximumAllowedHashValue_kept w.now
    exact ⟨le_rfl, fun _ => rfl, hoptions, hnonces⟩

theorem challengeNonces_run (h : run (step sha256) w as = some t) :
    t.manager.toProofOfWorkOptions = w.manager.toProofOfWorkOptions ∧
      t.manager.challengeNonces = (refreshes w.now as).foldl
        (refreshed sha256 w.manager.toProofOfWorkOptions) w.manager.challengeNonces := by
  induction as generalizing w with
  | nil =>
    obtain rfl := Option.some.inj h
    exact ⟨rfl, rfl⟩
  | cons a as ih =>
    obtain ⟨u, hu, hrest⟩ := Option.bind_eq_some_iff.mp h
    obtain ⟨-, hrefreshes, hoptions, hnonces⟩ := refreshes_step hu
    obtain ⟨hoptions', hnonces'⟩ := ih hrest
    rw [hrefreshes, List.foldl_append, hoptions', hnonces', hoptions, hnonces]
    exact ⟨rfl, rfl⟩

end ProofOfWorkRun

end DwnServer
