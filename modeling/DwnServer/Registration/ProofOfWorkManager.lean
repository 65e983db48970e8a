import DwnServer.Library.OrderedMap
import DwnServer.Registration.ProofOfWork

/-!
# `ProofOfWorkManager`

The challenge nonces, the response nonces accepted in the last minute and the maximum hash
value. Times are milliseconds; the clock and random bytes are arguments. Numbers are exact
rationals, of which the model needs integral clock readings below 10^21, and a desired
count and a reevaluation frequency other than zero. The solve rate is rounded as doubles
are: 41 solves at 10 desired are 4099999 millionths and not 4100000.
-/
namespace DwnServer

structure ChallengeNonces where
  previousChallengeNonce : Option JsString
  currentChallengeNonce : JsString
  nextChallengeNonce : Option JsString
  deriving DecidableEq

/-- The fields that only the constructor sets. -/
structure ProofOfWorkOptions where
  challengeSeed : Option JsString
  difficultyIncreaseMultiplier : ℚ
  initialMaximumAllowedHashValueAsBigInt : ℤ
  desiredSolveCountPerMinute : ℚ
  challengeRefreshFrequencyInSeconds : ℚ
  difficultyReevaluationFrequencyInSeconds : ℚ
  deriving DecidableEq

structure ProofOfWorkManager extends ProofOfWorkOptions where
  challengeNonces : ChallengeNonces
  proofOfWorkOfLastMinute : OrderedMap JsString ℤ
  currentMaximumAllowedHashValueAsBigInt : ℤ
  hashValueIncrementPerEvaluation : Option ℤ
  deriving DecidableEq

structure ProofOfWorkChallengeModel where
  challengeNonce : JsString
  maximumAllowedHashValue : JsString
  deriving DecidableEq

/-- `v.length === n`. -/
def JsValue.hasLength (v : JsValue) (n : ℕ) : Bool :=
  match v with
  | some (.string s) => s.length = n
  | some (.array elements) => elements.length = n
  | some (.object members) => Json.member members (js "length") = some (.number (.ofInt n))
  | _ => false

/-- The nonces that are defined and not empty. -/
def ChallengeNonces.acceptable (nonces : ChallengeNonces) : List JsString :=
  [nonces.previousChallengeNonce, some nonces.currentChallengeNonce,
    nonces.nextChallengeNonce].filterMap fun nonce => nonce.filter (· ≠ [])

namespace ProofOfWorkManager

def defaultMaximumAllowedHashValue : JsString :=
  js "000000FFFFFFFFFFFFFFFFFFFFFFFFFFFFFFFFFFFFFFFFFFFFFFFFFFFFFFFFFF"

def isHexString (text : JsString) : Bool :=
  text ≠ [] && text.all fun u => (Json.hexValue? u).isSome

def currentSolveCountPerMinute (m : ProofOfWorkManager) : ℕ := m.proofOfWorkOfLastMinute.size

/-- The upper-case digits, with zeros in front up to 64 characters. -/
def bigIntToHexString (int : ℤ) : JsString :=
  List.leftpad 64 (unit '0') (toUpperCase (BigInt.toHexText int))

def getProofOfWorkChallenge (m : ProofOfWorkManager) : ProofOfWorkChallengeModel where
  challengeNonce := m.challengeNonces.currentChallengeNonce
  maximumAllowedHashValue := bigIntToHexString m.currentMaximumAllowedHashValueAsBigInt

/-! ## Proofs of work -/

/-- `this.proofOfWorkOfLastMinute.has(responseNonce)`, whose keys are strings. -/
def hasProofOfWork (m : ProofOfWorkManager) (responseNonce : JsValue) : Bool :=
  match responseNonce with
  | some (.string r) => m.proofOfWorkOfLastMinute.has r
  | _ => false

def recordProofOfWork (m : ProofOfWorkManager) (now : ℤ) (proofOfWorkId : JsString) :
    ProofOfWorkManager :=
  { m with proofOfWorkOfLastMinute := m.proofOfWorkOfLastMinute.set proofOfWorkId now }

/-- The challenge nonce, if it is one of the acceptable ones. -/
def acceptedChallenge? (m : ProofOfWorkManager) (challengeNonce : JsValue) : Option JsString :=
  match challengeNonce with
  | some (.string nonce) => if nonce ∈ m.challengeNonces.acceptable then some nonce else none
  | _ => none

def verifyProofOfWork (sha256 : Sha256) (m : ProofOfWorkManager) (now : ℤ)
    (challengeNonce responseNonce : JsValue) (requestData : JsString) :
    Eval ProofOfWorkManager := do
  if m.hasProofOfWork responseNonce then
    let text ← responseNonce.toText
    throw (.server .proofOfWorkManagerResponseNonceReused
      (js "Not allowed to reused response nonce: " ++ text ++ js "."))
  let responseText ← responseNonce.toText
  if !isHexString responseText || !responseNonce.hasLength 64 then
    throw (.server .proofOfWorkManagerInvalidResponseNonceFormat
      (js "Response nonce not a HEX string representing a 256 bit value: " ++ responseText ++
        js "."))
  match m.acceptedChallenge? challengeNonce with
  | none =>
    let text ← challengeNonce.toText
    throw (.server .proofOfWorkManagerInvalidChallengeNonce
      (js "Unknown or expired challenge nonce: " ++ text ++ js "."))
  | some challengeNonce =>
    ProofOfWork.verifyResponseNonce sha256 m.currentMaximumAllowedHashValueAsBigInt challengeNonce
      responseText requestData
    return m.recordProofOfWork now responseText

def removeProofOfWorkOlderThanOneMinute (m : ProofOfWorkManager) (now : ℤ) : ProofOfWorkManager :=
  let oneMinuteAgo := now - 60 * 1000
  { m with
    proofOfWorkOfLastMinute := m.proofOfWorkOfLastMinute.filter fun _ t => ¬t < oneMinuteAgo }

/-! ## Challenge nonces -/

/-- The nonce of a refresh interval in a cluster. -/
def seededNonce (sha256 : Sha256) (challengeSeed : JsString) (intervalId : ℤ) : JsString :=
  ProofOfWork.hashAsHexString sha256 [challengeSeed, BigInt.toText intervalId, challengeSeed]

/-- `random` are the bytes of a generated nonce. -/
def refreshChallengeNonce (sha256 : Sha256) (m : ProofOfWorkManager) (now : ℤ)
    (random : BitVec 256) : ProofOfWorkManager :=
  match m.challengeSeed with
  | some seed =>
    let currentRefreshIntervalId := ⌊(now : ℚ) / (m.challengeRefreshFrequencyInSeconds * 1000)⌋
    { m with
      challengeNonces := {
        previousChallengeNonce := some (seededNonce sha256 seed (currentRefreshIntervalId - 1))
        currentChallengeNonce := seededNonce sha256 seed currentRefreshIntervalId
        nextChallengeNonce := some (seededNonce sha256 seed (currentRefreshIntervalId + 1)) } }
  | none =>
    { m with
      challengeNonces := { m.challengeNonces with
        previousChallengeNonce := some m.challengeNonces.currentChallengeNonce
        currentChallengeNonce := ProofOfWork.generateNonce random } }

/-! ## Difficulty -/

def scaleFactor : ℤ := 1000000

def difficultyEvaluationsPerMinute (options : ProofOfWorkOptions) : ℚ :=
  60000 / (options.difficultyReevaluationFrequencyInSeconds * 1000)

/-- The new maximum when the solve rate is higher than desired. -/
def decreased (m : ProofOfWorkManager) (latestSolveCountPerMinute : ℕ) : Eval ℤ := do
  let currentSolveRateInFractionOfDesiredSolveRate :=
    roundDouble (latestSolveCountPerMinute / m.desiredSolveCountPerMinute)
  let newMaximumPriorToMultiplierAdjustment ←
    BigInt.div (m.currentMaximumAllowedHashValueAsBigInt * scaleFactor)
      ⌊roundDouble (roundDouble (currentSolveRateInFractionOfDesiredSolveRate *
        m.difficultyIncreaseMultiplier) * scaleFactor)⌋
  let multiplier ← BigInt.div ⌊m.difficultyIncreaseMultiplier * scaleFactor⌋ scaleFactor
  let decreaseAmountPriorToFrequencyAdjustment :=
    (m.currentMaximumAllowedHashValueAsBigInt - newMaximumPriorToMultiplierAdjustment) * multiplier
  let evaluations ← BigInt.ofNumber (difficultyEvaluationsPerMinute m.toProofOfWorkOptions)
  let hashValueDecreaseAmount ← BigInt.div decreaseAmountPriorToFrequencyAdjustment evaluations
  return m.currentMaximumAllowedHashValueAsBigInt - hashValueDecreaseAmount

/-- The increment of an evaluation when there is none from before. -/
def newIncrement (m : ProofOfWorkManager) : Eval ℤ := do
  let evaluations ← BigInt.ofNumber (10 * difficultyEvaluationsPerMinute m.toProofOfWorkOptions)
  BigInt.div
    (m.initialMaximumAllowedHashValueAsBigInt - m.currentMaximumAllowedHashValueAsBigInt)
    evaluations

/-- The evaluation after the cleanup. Nothing is assigned before it can throw. -/
def updateMaximumAllowedHashValue (m : ProofOfWorkManager) (latestSolveCountPerMinute : ℕ) :
    Eval ProofOfWorkManager := do
  if (latestSolveCountPerMinute : ℚ) > m.desiredSolveCountPerMinute then
    let newMaximum ← m.decreased latestSolveCountPerMinute
    return { m with
      currentMaximumAllowedHashValueAsBigInt := newMaximum
      hashValueIncrementPerEvaluation := none }
  else if m.currentMaximumAllowedHashValueAsBigInt = m.initialMaximumAllowedHashValueAsBigInt then
    return m
  else
    let increment ← m.hashValueIncrementPerEvaluation.elim m.newIncrement .ok
    let newMaximum := m.currentMaximumAllowedHashValueAsBigInt + increment
    return { m with
      currentMaximumAllowedHashValueAsBigInt :=
        if newMaximum ≥ m.initialMaximumAllowedHashValueAsBigInt
          then m.initialMaximumAllowedHashValueAsBigInt else newMaximum
      hashValueIncrementPerEvaluation := some increment }

/-- The state after an evaluation, and whether it threw. -/
def refreshMaximumAllowedHashValue (m : ProofOfWorkManager) (now : ℤ) :
    ProofOfWorkManager × Eval Unit :=
  let m := m.removeProofOfWorkOlderThanOneMinute now
  match m.updateMaximumAllowedHashValue m.currentSolveCountPerMinute with
  | .ok m => (m, .ok ())
  | .error error => (m, .error error)

/-! ## Creation -/

/-- The argument of `create`. -/
structure Input where
  desiredSolveCountPerMinute : ℚ
  autoStart : Bool
  initialMaximumAllowedHashValue : Option JsString
  difficultyIncreaseMultiplier : Option ℚ
  challengeSeed : Option JsString
  challengeRefreshFrequencyInSeconds : Option ℚ
  difficultyReevaluationFrequencyInSeconds : Option ℚ

/-- The first run of both timers' functions. -/
def start (sha256 : Sha256) (m : ProofOfWorkManager) (now : ℤ) (random : BitVec 256) :
    ProofOfWorkManager :=
  ((m.refreshChallengeNonce sha256 now random).refreshMaximumAllowedHashValue now).1

/-- The constructor, with the defaults that `create` fills in. -/
def construct (initial : ℤ) (random : BitVec 256) (input : Input) : ProofOfWorkManager where
  challengeSeed := input.challengeSeed
  difficultyIncreaseMultiplier := input.difficultyIncreaseMultiplier.getD 1
  initialMaximumAllowedHashValueAsBigInt := initial
  desiredSolveCountPerMinute := input.desiredSolveCountPerMinute
  challengeRefreshFrequencyInSeconds := input.challengeRefreshFrequencyInSeconds.getD (10 * 60)
  difficultyReevaluationFrequencyInSeconds :=
    input.difficultyReevaluationFrequencyInSeconds.getD 10
  challengeNonces := ⟨none, ProofOfWork.generateNonce random, none⟩
  proofOfWorkOfLastMinute := .empty
  currentMaximumAllowedHashValueAsBigInt := initial
  hashValueIncrementPerEvaluation := some 1

/-- `random` and `random'` are the bytes that the constructor and the first refresh draw. -/
def create (sha256 : Sha256) (now : ℤ) (random random' : BitVec 256) (input : Input) :
    Eval ProofOfWorkManager := do
  let initial ← BigInt.ofHex
    (input.initialMaximumAllowedHashValue.getD defaultMaximumAllowedHashValue)
  let m := construct initial random input
  return if input.autoStart then m.start sha256 now random' else m

/-! ## What the functions do -/

/-- 64 hexadecimal digits. -/
def IsResponseNonce (text : JsString) : Prop := isHexString text = true ∧ text.length = 64

theorem not_isHexString_of_comma {text : JsString} (h : unit ',' ∈ text) :
    isHexString text = false := by
  have hcomma : (Json.hexValue? (unit ',')).isSome = false := by decide
  simp only [isHexString, Bool.and_eq_false_iff, List.all_eq_false]
  exact Or.inr ⟨_, h, by simp [hcomma]⟩

theorem length_elementTexts {elements : List Json} {texts : List JsString}
    (h : Json.toText?.elementTexts elements = some texts) : texts.length = elements.length := by
  induction elements generalizing texts with
  | nil =>
    obtain rfl := Option.some.inj h
    rfl
  | cons element elements ih =>
    by_cases hnull : element = .null
    · subst hnull
      obtain ⟨rest, hrest, rfl⟩ := Option.map_eq_some_iff.mp h
      simp [ih hrest]
    · rw [Json.toText?.elementTexts.eq_3 element elements hnull] at h
      obtain ⟨text, -, h⟩ := Option.bind_eq_some_iff.mp h
      obtain ⟨rest, hrest, hcons⟩ := Option.bind_eq_some_iff.mp h
      obtain rfl := Option.some.inj hcons
      simp [ih hrest]

/-- Among JSON values only a string has the length and the text of a response nonce. -/
theorem eq_string_of_hasLength {v : JsValue} {text : JsString}
    (htext : v.toText (C := DwnServerErrorCode) = .ok text) (hhex : isHexString text = true)
    (hlength : v.hasLength 64 = true) : v = some (.string text) ∧ text.length = 64 := by
  rcases v with _ | ⟨_ | _ | _ | r | elements | members⟩
  case some.string =>
    obtain rfl := Except.ok.inj htext
    exact ⟨rfl, by simpa [JsValue.hasLength] using hlength⟩
  case some.array =>
    -- 64 elements are joined by commas
    have hcomma : unit ',' ∈ text := by
      cases helements : Json.toText?.elementTexts elements with
      | none => simp [JsValue.toText, Json.toText?, helements] at htext
      | some texts =>
        obtain rfl : [unit ','].intercalate texts = text := by
          simpa [JsValue.toText, Json.toText?, helements] using! htext
        have htexts : texts.length = 64 := by
          rw [length_elementTexts helements]
          simpa [JsValue.hasLength] using hlength
        rcases texts with _ | ⟨a, _ | ⟨b, rest⟩⟩
        · cases htexts
        · simp at htexts
        · simp [List.intercalate]
    rw [not_isHexString_of_comma hcomma] at hhex
    cases hhex
  case some.object =>
    have hobject : isHexString (js "[object Object]") = false := by decide
    rw [JsValue.toText, Json.toText?] at htext
    split_ifs at htext
    · cases htext
    · obtain rfl := Except.ok.inj htext
      rw [hobject] at hhex
      cases hhex
  all_goals cases hlength

theorem acceptedChallenge?_eq_some {m : ProofOfWorkManager} {challengeNonce : JsValue}
    {c : JsString} :
    m.acceptedChallenge? challengeNonce = some c ↔
      challengeNonce = some (.string c) ∧ c ∈ m.challengeNonces.acceptable := by
  rcases challengeNonce with _ | ⟨_ | _ | _ | s | _ | _⟩ <;> simp [acceptedChallenge?]
  constructor
  · rintro ⟨hs, rfl⟩
    exact ⟨rfl, hs⟩
  · rintro ⟨rfl, hs⟩
    exact ⟨hs, rfl⟩

/-- What an accepted proof of work is, and what accepting it does. -/
theorem verifyProofOfWork_eq_ok {sha256 : Sha256} {m m' : ProofOfWorkManager} {now : ℤ}
    {challengeNonce responseNonce : JsValue} {requestData : JsString} :
    m.verifyProofOfWork sha256 now challengeNonce responseNonce requestData = .ok m' ↔
      ∃ c r, challengeNonce = some (.string c) ∧ responseNonce = some (.string r) ∧
        m.proofOfWorkOfLastMinute.get? r = none ∧ IsResponseNonce r ∧
        c ∈ m.challengeNonces.acceptable ∧
        ProofOfWork.hashValue sha256 c r requestData ≤ m.currentMaximumAllowedHashValueAsBigInt ∧
        m' = m.recordProofOfWork now r := by
  constructor
  · intro h
    unfold verifyProofOfWork at h
    simp only [bind, Except.bind, pure, Except.pure, throw, throwThe, MonadExceptOf.throw] at h
    split_ifs at h with hhas
    · cases htext : responseNonce.toText (C := DwnServerErrorCode) <;> simp [htext] at h
    cases htext : responseNonce.toText (C := DwnServerErrorCode) with
    | error e => simp [htext] at h
    | ok r =>
      simp only [htext] at h
      split_ifs at h with hformat
      simp only [Bool.or_eq_true, Bool.not_eq_true', not_or, Bool.not_eq_false] at hformat
      obtain ⟨rfl, hlength⟩ := eq_string_of_hasLength htext hformat.1 hformat.2
      cases hchallenge : m.acceptedChallenge? challengeNonce with
      | none =>
        cases hc : challengeNonce.toText (C := DwnServerErrorCode) <;> simp [hchallenge, hc] at h
      | some c =>
        obtain ⟨rfl, hacceptable⟩ := acceptedChallenge?_eq_some.mp hchallenge
        cases hverify : ProofOfWork.verifyResponseNonce sha256
            m.currentMaximumAllowedHashValueAsBigInt c r requestData with
        | error e => simp [hchallenge, hverify] at h
        | ok u =>
          simp only [hchallenge, hverify] at h
          have hfresh : m.proofOfWorkOfLastMinute.get? r = none :=
            OrderedMap.has_eq_false.mp (by simpa [hasProofOfWork] using hhas)
          exact ⟨c, r, rfl, rfl, hfresh, ⟨hformat.1, hlength⟩, hacceptable,
            (ProofOfWork.verifyResponseNonce_eq_ok sha256 c r requestData).mp hverify,
            (Except.ok.inj h).symm⟩
  · rintro ⟨c, r, rfl, rfl, hfresh, ⟨hhex, hlength⟩, hchallenge, hhash, rfl⟩
    have hverify := (ProofOfWork.verifyResponseNonce_eq_ok sha256 c r requestData).mpr hhash
    simp [verifyProofOfWork, hasProofOfWork, OrderedMap.has_eq_false.mpr hfresh, JsValue.toText,
      Json.toText?, hhex, JsValue.hasLength, hlength, acceptedChallenge?, hchallenge, hverify,
      bind, Except.bind, pure, Except.pure]

theorem refreshChallengeNonce_eq (sha256 : Sha256) (m : ProofOfWorkManager) (now : ℤ)
    (random : BitVec 256) :
    ∃ nonces, m.refreshChallengeNonce sha256 now random = { m with challengeNonces := nonces } := by
  unfold refreshChallengeNonce
  split <;> exact ⟨_, rfl⟩

/-- An evaluation at a high solve rate, at the initial difficulty, and below it. -/
theorem updateMaximumAllowedHashValue_ok {m m' : ProofOfWorkManager} {n : ℕ}
    (h : m.updateMaximumAllowedHashValue n = .ok m') :
    (m.desiredSolveCountPerMinute < n ∧
      ∃ maximum, m.decreased n = .ok maximum ∧ m' = { m with
        currentMaximumAllowedHashValueAsBigInt := maximum
        hashValueIncrementPerEvaluation := none }) ∨
    (n ≤ m.desiredSolveCountPerMinute ∧
      m.currentMaximumAllowedHashValueAsBigInt = m.initialMaximumAllowedHashValueAsBigInt ∧
      m' = m) ∨
    n ≤ m.desiredSolveCountPerMinute ∧
      m.currentMaximumAllowedHashValueAsBigInt ≠ m.initialMaximumAllowedHashValueAsBigInt ∧
      ∃ increment, m.hashValueIncrementPerEvaluation.elim m.newIncrement .ok = .ok increment ∧
        m' = { m with
          currentMaximumAllowedHashValueAsBigInt := min
            (m.currentMaximumAllowedHashValueAsBigInt + increment)
            m.initialMaximumAllowedHashValueAsBigInt
          hashValueIncrementPerEvaluation := some increment } := by
  unfold updateMaximumAllowedHashValue at h
  split_ifs at h with hrate hinitial
  · cases hdecreased : m.decreased n with
    | error e => simp [hdecreased, bind, Except.bind] at h
    | ok maximum =>
      simp only [hdecreased, bind, Except.bind] at h
      exact Or.inl ⟨hrate, maximum, rfl, (Except.ok.inj h).symm⟩
  · exact Or.inr (Or.inl ⟨not_lt.mp hrate, hinitial, (Except.ok.inj h).symm⟩)
  · cases hincrement : m.hashValueIncrementPerEvaluation.elim m.newIncrement .ok with
    | error e => simp [hincrement, bind, Except.bind] at h
    | ok increment =>
      simp only [hincrement, bind, Except.bind] at h
      refine Or.inr (Or.inr ⟨not_lt.mp hrate, hinitial, increment, rfl, ?_⟩)
      rw [← Except.ok.inj h, min_comm]
      simp only [min_def, ge_iff_le]

/-- An evaluation cleans up, and then updates the maximum unless that throws. -/
theorem refreshMaximumAllowedHashValue_cases (m : ProofOfWorkManager) (now : ℤ) :
    (m.refreshMaximumAllowedHashValue now).1 = m.removeProofOfWorkOlderThanOneMinute now ∨
      (m.removeProofOfWorkOlderThanOneMinute now).updateMaximumAllowedHashValue
          (m.removeProofOfWorkOlderThanOneMinute now).currentSolveCountPerMinute =
        .ok (m.refreshMaximumAllowedHashValue now).1 := by
  unfold refreshMaximumAllowedHashValue
  dsimp only
  cases (m.removeProofOfWorkOlderThanOneMinute now).updateMaximumAllowedHashValue
      (m.removeProofOfWorkOlderThanOneMinute now).currentSolveCountPerMinute with
  | error e => exact Or.inl rfl
  | ok m' => exact Or.inr rfl

theorem refreshMaximumAllowedHashValue_of_ok {m m' : ProofOfWorkManager} {now : ℤ}
    (h : (m.removeProofOfWorkOlderThanOneMinute now).updateMaximumAllowedHashValue
      (m.removeProofOfWorkOlderThanOneMinute now).currentSolveCountPerMinute = .ok m') :
    (m.refreshMaximumAllowedHashValue now).1 = m' := by
  simp only [refreshMaximumAllowedHashValue, h]

/-- An evaluation keeps the options and the nonces, and the proofs of the last minute. -/
theorem refreshMaximumAllowedHashValue_kept (m : ProofOfWorkManager) (now : ℤ) :
    (m.refreshMaximumAllowedHashValue now).1.toProofOfWorkOptions = m.toProofOfWorkOptions ∧
      (m.refreshMaximumAllowedHashValue now).1.challengeNonces = m.challengeNonces ∧
      (m.refreshMaximumAllowedHashValue now).1.proofOfWorkOfLastMinute =
        (m.removeProofOfWorkOlderThanOneMinute now).proofOfWorkOfLastMinute := by
  rcases m.refreshMaximumAllowedHashValue_cases now with h | h
  · rw [h]
    exact ⟨rfl, rfl, rfl⟩
  · rcases updateMaximumAllowedHashValue_ok h with
      ⟨-, _, -, h⟩ | ⟨-, -, h⟩ | ⟨-, -, _, -, h⟩ <;> rw [h] <;> exact ⟨rfl, rfl, rfl⟩

theorem removeProofOfWorkOlderThanOneMinute_of_fresh {m : ProofOfWorkManager} {now : ℤ}
    (h : ∀ e ∈ m.proofOfWorkOfLastMinute.entries, now - 60000 ≤ e.2) :
    m.removeProofOfWorkOlderThanOneMinute now = m := by
  have hkept : m.proofOfWorkOfLastMinute.filter (fun _ t => ¬t < now - 60 * 1000) =
      m.proofOfWorkOfLastMinute :=
    OrderedMap.ext (List.filter_eq_self.mpr fun e he => by simpa using h e he)
  simp only [removeProofOfWorkOlderThanOneMinute, hkept]

theorem refreshMaximumAllowedHashValue_of_decreased {m : ProofOfWorkManager} {now maximum : ℤ}
    (hfresh : ∀ e ∈ m.proofOfWorkOfLastMinute.entries, now - 60000 ≤ e.2)
    (hrate : m.desiredSolveCountPerMinute < m.currentSolveCountPerMinute)
    (h : m.decreased m.currentSolveCountPerMinute = .ok maximum) :
    (m.refreshMaximumAllowedHashValue now).1.currentMaximumAllowedHashValueAsBigInt = maximum := by
  have hupdate : m.updateMaximumAllowedHashValue m.currentSolveCountPerMinute = .ok { m with
      currentMaximumAllowedHashValueAsBigInt := maximum
      hashValueIncrementPerEvaluation := none } := by
    simp only [updateMaximumAllowedHashValue, gt_iff_lt, if_pos hrate, h]
    rfl
  simp only [refreshMaximumAllowedHashValue, removeProofOfWorkOlderThanOneMinute_of_fresh hfresh,
    hupdate]

theorem desiredSolveCountPerMinute_of_create {sha256 : Sha256} {now : ℤ}
    {random random' : BitVec 256} {input : Input} {m : ProofOfWorkManager}
    (h : create sha256 now random random' input = .ok m) :
    m.desiredSolveCountPerMinute = input.desiredSolveCountPerMinute := by
  obtain ⟨initial, -, h⟩ := Eval.bind_eq_ok.mp h
  obtain rfl := Except.ok.inj h
  split_ifs
  · obtain ⟨nonces, hnonces⟩ :=
      refreshChallengeNonce_eq sha256 (construct initial random input) now random'
    rw [start, hnonces, (refreshMaximumAllowedHashValue_kept _ now).1]
    rfl
  · rfl

/-- A manager is created at its initial difficulty, with nothing recorded. -/
theorem create_eq {sha256 : Sha256} {now : ℤ} {random random' : BitVec 256} {input : Input}
    {m : ProofOfWorkManager} (h : create sha256 now random random' input = .ok m)
    (hdesired : 0 ≤ m.desiredSolveCountPerMinute) :
    ∃ initial nonces, BigInt.ofHex (C := DwnServerErrorCode)
        (input.initialMaximumAllowedHashValue.getD defaultMaximumAllowedHashValue) = .ok initial ∧
      m = { construct initial random input with challengeNonces := nonces } := by
  unfold create at h
  cases hinitial : BigInt.ofHex (C := DwnServerErrorCode)
      (input.initialMaximumAllowedHashValue.getD defaultMaximumAllowedHashValue) with
  | error e => simp [hinitial, bind, Except.bind] at h
  | ok initial =>
    simp only [hinitial, bind, Except.bind] at h
    obtain rfl := Except.ok.inj h
    split_ifs at hdesired ⊢
    · obtain ⟨nonces, hnonces⟩ :=
        refreshChallengeNonce_eq sha256 (construct initial random input) now random'
      refine ⟨initial, nonces, rfl, ?_⟩
      rw [start, hnonces, (refreshMaximumAllowedHashValue_kept _ now).1] at hdesired
      rw [start, hnonces]
      -- at a solve count of zero the first evaluation has nothing to do
      have hrate : ¬(0 : ℚ) > input.desiredSolveCountPerMinute := not_lt.mpr hdesired
      simp [refreshMaximumAllowedHashValue, updateMaximumAllowedHashValue, construct,
        removeProofOfWorkOlderThanOneMinute, currentSolveCountPerMinute, OrderedMap.size,
        OrderedMap.filter, OrderedMap.empty, hrate, pure, Except.pure]
    · exact ⟨initial, _, rfl, rfl⟩

end ProofOfWorkManager

end DwnServer
