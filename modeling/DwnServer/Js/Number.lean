import DwnServer.Js.Text
import Mathlib.Data.Int.Log
import Mathlib.Data.Rat.Floor
import Mathlib.Tactic

/-!
# JavaScript numbers

The numbers JSON text can denote: IEEE doubles, kept as the rationals they are.
`roundDouble` is rounding to nearest, ties to even, on an unbounded exponent range; a
`Double` carries the proof that rounding leaves it alone. `JsNumber.toText` is
`Number::toString`, which takes the fewest digits that read back as the same double.
-/
namespace DwnServer

/-- Round to the nearest integer, ties to even. -/
def roundHalfEven (q : ℚ) : ℤ :=
  if q - ⌊q⌋ < 1 / 2 then ⌊q⌋
  else if 1 / 2 < q - ⌊q⌋ then ⌊q⌋ + 1
  else if ⌊q⌋ % 2 = 0 then ⌊q⌋ else ⌊q⌋ + 1

/-- The exponent of the last place of the double nearest to `q`. -/
def lastPlace (q : ℚ) : ℤ := max (Int.log 2 |q| - 52) (-1074)

/-- The nearest double, on an unbounded exponent range. -/
def roundDouble (q : ℚ) : ℚ := roundHalfEven (q / 2 ^ lastPlace q) * 2 ^ lastPlace q

@[simp] theorem roundHalfEven_intCast (n : ℤ) : roundHalfEven n = n := by
  simp [roundHalfEven]

theorem abs_roundHalfEven_le {q : ℚ} {n : ℕ} (h : |q| ≤ n) : |roundHalfEven q| ≤ n := by
  have hlow : -(n : ℤ) ≤ ⌊q⌋ := Int.le_floor.mpr (by push_cast; linarith [neg_abs_le q])
  have hfloor : (⌊q⌋ : ℚ) ≤ q := Int.floor_le q
  have hup : q ≤ n := (le_abs_self q).trans h
  have hle : ⌊q⌋ ≤ (n : ℤ) := by exact_mod_cast hfloor.trans hup
  have hstrict : (⌊q⌋ : ℚ) < q → ⌊q⌋ + 1 ≤ (n : ℤ) := by
    intro hlt
    have : (⌊q⌋ : ℚ) < (n : ℤ) := by push_cast; linarith
    exact_mod_cast this
  unfold roundHalfEven
  split_ifs with h1 h2 h3 <;> rw [abs_le]
  · omega
  · have := hstrict (by linarith); omega
  · omega
  · have := hstrict (by linarith); omega

theorem abs_div_lastPlace_le (q : ℚ) : |q / 2 ^ lastPlace q| ≤ (2 ^ 53 : ℕ) := by
  have hlog : |q| < 2 ^ (Int.log 2 |q| + 1) := by
    exact_mod_cast Int.lt_zpow_succ_log_self (b := 2) (by norm_num) |q|
  have hpos : (0 : ℚ) < 2 ^ lastPlace q := by positivity
  have hexp : Int.log 2 |q| + 1 ≤ 53 + lastPlace q := by unfold lastPlace; omega
  rw [abs_div, abs_of_pos hpos, div_le_iff₀ hpos]
  calc |q| ≤ 2 ^ (Int.log 2 |q| + 1) := hlog.le
    _ ≤ 2 ^ (53 + lastPlace q) := zpow_le_zpow_right₀ (by norm_num) hexp
    _ = (2 ^ 53 : ℕ) * 2 ^ lastPlace q := by rw [zpow_add₀ (by norm_num)]; norm_num

/-- An integral multiple of its last place is its own rounding. -/
theorem roundDouble_of_multiple {q : ℚ} {n : ℤ} (h : q = n * 2 ^ lastPlace q) :
    roundDouble q = q := by
  have hne : (2 : ℚ) ^ lastPlace q ≠ 0 := by positivity
  have hdiv : q / 2 ^ lastPlace q = n := by rw [div_eq_iff hne]; exact h
  rw [roundDouble, hdiv, roundHalfEven_intCast]
  exact h.symm

/-- Rounding yields a double: a second rounding changes nothing. A carry into the next
binade leaves a power of two, which the coarser last place still divides. -/
theorem roundDouble_idem (q : ℚ) : roundDouble (roundDouble q) = roundDouble q := by
  set e := lastPlace q with he
  set n := roundHalfEven (q / 2 ^ e) with hn
  have hvalue : roundDouble q = n * 2 ^ e := rfl
  have hbound : |n| ≤ (2 ^ 53 : ℕ) := abs_roundHalfEven_le (abs_div_lastPlace_le q)
  have hmin : -1074 ≤ e := by rw [he]; unfold lastPlace; omega
  rw [hvalue]
  rcases eq_or_ne n 0 with hzero | hzero
  · simp [hzero, roundDouble, roundHalfEven]
  by_cases hle : lastPlace (n * 2 ^ e) ≤ e
  · refine roundDouble_of_multiple (n := n * 2 ^ (e - lastPlace (n * 2 ^ e)).toNat) ?_
    have hexp : ((e - lastPlace (n * 2 ^ e)).toNat : ℤ) = e - lastPlace (n * 2 ^ e) := by omega
    push_cast
    rw [← zpow_natCast, hexp, mul_assoc, ← zpow_add₀ (by norm_num)]
    simp
  · have hgrow : e + 53 ≤ Int.log 2 |(n * 2 ^ e : ℚ)| := by
      unfold lastPlace at hle; omega
    have hpow : (0 : ℚ) < 2 ^ e := by positivity
    have habs : |(n * 2 ^ e : ℚ)| = |n| * 2 ^ e := by
      rw [abs_mul, abs_of_pos hpow, Int.cast_abs]
    have hne : (0 : ℚ) < |(n * 2 ^ e : ℚ)| := by
      rw [habs]
      have : |n| ≠ 0 := abs_ne_zero.mpr hzero
      positivity
    have hlarge : (2 : ℚ) ^ (53 : ℤ) * 2 ^ e ≤ |n| * 2 ^ e := by
      rw [← habs, ← zpow_add₀ (by norm_num), add_comm]
      calc (2 : ℚ) ^ (e + 53) ≤ 2 ^ Int.log 2 |(n * 2 ^ e : ℚ)| :=
            zpow_le_zpow_right₀ (by norm_num) hgrow
        _ ≤ _ := by exact_mod_cast Int.zpow_log_le_self (b := 2) (by norm_num) hne
    have hcarry : |n| = 2 ^ 53 := by
      have hlow : ((2 ^ 53 : ℤ) : ℚ) ≤ (|n| : ℤ) := by
        have hpow53 : ((2 ^ 53 : ℤ) : ℚ) = 2 ^ (53 : ℤ) := by norm_num
        rw [hpow53]
        exact le_of_mul_le_mul_right hlarge hpow
      have := Int.cast_le.mp hlow
      push_cast at hbound
      omega
    have hlog : Int.log 2 |(n * 2 ^ e : ℚ)| = e + 53 := by
      have hp : |(n * 2 ^ e : ℚ)| = ((2 : ℕ) : ℚ) ^ (e + 53) := by
        rw [habs, hcarry, add_comm, zpow_add₀ (by norm_num)]; norm_num
      rw [hp]
      exact Int.log_zpow (by norm_num) _
    have hplace : lastPlace (n * 2 ^ e) = e + 1 := by unfold lastPlace; omega
    have hsplit : n = n / 2 * 2 := by
      rcases abs_eq (by norm_num : (0 : ℤ) ≤ 2 ^ 53) |>.mp hcarry with h | h <;> rw [h] <;> norm_num
    refine roundDouble_of_multiple (n := n / 2) ?_
    rw [hplace, zpow_add₀ (by norm_num)]
    conv_lhs => rw [hsplit]
    push_cast
    ring

theorem le_roundHalfEven {n : ℤ} {q : ℚ} (h : (n : ℚ) ≤ q) : n ≤ roundHalfEven q := by
  have hfloor : n ≤ ⌊q⌋ := Int.le_floor.mpr h
  unfold roundHalfEven
  split_ifs <;> omega

/-- Rounding does not fall below a double. -/
theorem le_roundDouble {n : ℕ} {e : ℤ} {q : ℚ} (hn : n ≤ 2 ^ 53) (he : -1074 ≤ e)
    (h : (n : ℚ) * 2 ^ e ≤ q) : (n : ℚ) * 2 ^ e ≤ roundDouble q := by
  have hplace : (0 : ℚ) < 2 ^ lastPlace q := by positivity
  have hscaled : (n : ℚ) * 2 ^ e / 2 ^ lastPlace q ≤ q / 2 ^ lastPlace q :=
    div_le_div_of_nonneg_right h hplace.le
  unfold roundDouble
  rcases le_or_gt (lastPlace q) e with hfine | hcoarse
  · -- the double is a multiple of the last place
    obtain ⟨k, rfl⟩ := Int.le.dest hfine
    have hmultiple : (n : ℚ) * 2 ^ (lastPlace q + k) = ((n * 2 ^ k : ℤ) : ℚ) * 2 ^ lastPlace q := by
      rw [zpow_add₀ (by norm_num)]
      push_cast
      rw [zpow_natCast]
      ring
    rw [hmultiple] at hscaled ⊢
    rw [mul_div_cancel_right₀ _ hplace.ne'] at hscaled
    exact mul_le_mul_of_nonneg_right (by exact_mod_cast le_roundHalfEven hscaled) hplace.le
  · -- the double is below the power of two at which the binade of `q` begins
    have hlog : lastPlace q = Int.log 2 |q| - 52 := by unfold lastPlace at hcoarse ⊢; omega
    rcases eq_or_ne n 0 with rfl | hn0
    · have : (0 : ℤ) ≤ roundHalfEven (q / 2 ^ lastPlace q) :=
        le_roundHalfEven (by simpa using hscaled)
      have : (0 : ℚ) ≤ roundHalfEven (q / 2 ^ lastPlace q) := by exact_mod_cast this
      simpa using mul_nonneg this hplace.le
    have hq : 0 < q := by
      refine lt_of_lt_of_le ?_ h
      have : 0 < n := Nat.pos_of_ne_zero hn0
      positivity
    have hbinade : (2 : ℚ) ^ (52 : ℤ) ≤ q / 2 ^ lastPlace q := by
      rw [le_div_iff₀ hplace, ← zpow_add₀ (by norm_num), hlog, add_sub_cancel]
      have := Int.zpow_log_le_self (b := 2) (r := |q|) (by norm_num) (abs_pos.mpr hq.ne')
      rw [abs_of_pos hq] at this ⊢
      exact_mod_cast this
    have hround : (2 : ℤ) ^ 52 ≤ roundHalfEven (q / 2 ^ lastPlace q) :=
      le_roundHalfEven (by exact_mod_cast hbinade)
    calc (n : ℚ) * 2 ^ e ≤ 2 ^ (53 : ℤ) * 2 ^ e := by
          refine mul_le_mul_of_nonneg_right ?_ (by positivity)
          exact_mod_cast hn
      _ = 2 ^ (53 + e) := (zpow_add₀ (by norm_num) _ _).symm
      _ ≤ 2 ^ (52 + lastPlace q) := zpow_le_zpow_right₀ (by norm_num) (by omega)
      _ = 2 ^ (52 : ℤ) * 2 ^ lastPlace q := zpow_add₀ (by norm_num) _ _
      _ ≤ _ := mul_le_mul_of_nonneg_right (by exact_mod_cast hround) hplace.le

theorem roundHalfEven_mono {q r : ℚ} (h : q ≤ r) : roundHalfEven q ≤ roundHalfEven r := by
  rcases (Int.floor_mono h).lt_or_eq with hlt | heq
  · have hle := le_roundHalfEven (Int.floor_le r)
    have hup : roundHalfEven q ≤ ⌊q⌋ + 1 := by
      unfold roundHalfEven
      split_ifs <;> omega
    omega
  · unfold roundHalfEven
    rw [← heq]
    split_ifs <;> first | omega | linarith

theorem lastPlace_mono {q r : ℚ} (hq : 0 < q) (h : q ≤ r) : lastPlace q ≤ lastPlace r := by
  have hlog := Int.log_mono_right (b := 2) hq h
  unfold lastPlace
  rw [abs_of_pos hq, abs_of_pos (hq.trans_le h)]
  omega

/-- Rounding keeps the order of numbers. -/
theorem roundDouble_mono {q r : ℚ} (hq : 0 ≤ q) (h : q ≤ r) : roundDouble q ≤ roundDouble r := by
  rcases hq.eq_or_lt with rfl | hpos
  · have hzero := roundHalfEven_intCast 0
    rw [Int.cast_zero] at hzero
    have hnonneg := le_roundDouble (n := 0) (e := 0) (by norm_num) (by norm_num)
      (show ((0 : ℕ) : ℚ) * 2 ^ (0 : ℤ) ≤ r by simpa using h)
    simpa [roundDouble, hzero] using hnonneg
  have hmin : -1074 ≤ lastPlace q := le_max_right _ _
  have hn := abs_roundHalfEven_le (abs_div_lastPlace_le q)
  have hn0 : 0 ≤ roundHalfEven (q / 2 ^ lastPlace q) := le_roundHalfEven (by push_cast; positivity)
  obtain ⟨n, hn'⟩ := Int.eq_ofNat_of_zero_le hn0
  have hvalue : roundDouble q = n * 2 ^ lastPlace q := by
    rw [roundDouble, hn']
    rfl
  have hn53 : n ≤ 2 ^ 53 := by
    rw [hn', abs_of_nonneg (by omega)] at hn
    exact_mod_cast hn
  rcases le_or_gt ((n : ℚ) * 2 ^ lastPlace q) r with hle | hgt
  · exact hvalue ▸ le_roundDouble hn53 hmin hle
  · -- both lie in one binade, or the second would be above what the first is rounded to
    have hplace : lastPlace r = lastPlace q := by
      refine le_antisymm ?_ (lastPlace_mono hpos h)
      by_contra hcoarse
      have hlog : lastPlace q + 53 ≤ Int.log 2 |r| := by
        unfold lastPlace at hcoarse hmin ⊢
        omega
      have hlow := Int.zpow_log_le_self (b := 2) (by norm_num) (abs_pos.mpr (hpos.trans_le h).ne')
      have hover : (n : ℚ) * 2 ^ lastPlace q ≤ r :=
        calc (n : ℚ) * 2 ^ lastPlace q ≤ 2 ^ (53 : ℤ) * 2 ^ lastPlace q :=
              mul_le_mul_of_nonneg_right (by exact_mod_cast hn53) (by positivity)
          _ = 2 ^ (lastPlace q + 53) := by rw [← zpow_add₀ (by norm_num), add_comm]
          _ ≤ 2 ^ Int.log 2 |r| := zpow_le_zpow_right₀ (by norm_num) hlog
          _ ≤ |r| := by exact_mod_cast hlow
          _ = r := abs_of_pos (hpos.trans_le h)
      exact absurd hover (not_le.mpr hgt)
    rw [roundDouble, roundDouble, hplace]
    refine mul_le_mul_of_nonneg_right ?_ (by positivity)
    exact_mod_cast roundHalfEven_mono (div_le_div_of_nonneg_right h (by positivity))

/-- A finite nonzero double, or positive zero. -/
structure Double where
  value : ℚ
  rounded : roundDouble value = value
  bounded : |value| < 2 ^ 1024
  deriving DecidableEq

inductive JsNumber where
  | finite (x : Double)
  | negativeZero
  | infinity (negative : Bool)
  deriving DecidableEq

/-- The number a literal of exact value `q` denotes; `negative` is the sign it is
written with, which only a rounded result of zero keeps. -/
def JsNumber.ofRat (negative : Bool) (q : ℚ) : JsNumber :=
  if roundDouble q = 0 && negative then .negativeZero
  else if h : |roundDouble q| < 2 ^ 1024 then .finite ⟨roundDouble q, roundDouble_idem q, h⟩
  else .infinity negative

/-- The number of a small integer, as the source writes its error codes. -/
def JsNumber.ofInt (n : ℤ) : JsNumber := .ofRat (n < 0) n

/-! ## `Number::toString` -/

def decimal (n : ℕ) : JsString := (Nat.toDigits 10 n).map unit

/-- The `k`-digit integer whose scaling by `10 ^ (n - k)` reads back as `x`, the closer
one when there are two and the even one when they are equally close. -/
def digitsOfLength (x : ℚ) (n : ℤ) (k : ℕ) : Option ℕ :=
  let scaled := x * 10 ^ (k - n)
  let low := ⌊scaled⌋.toNat
  let reads (s : ℕ) : Bool := roundDouble (s * 10 ^ (n - k)) = x
  match reads low, reads (low + 1) with
  | true, true =>
    if scaled - low < 1 / 2 then some low
    else if 1 / 2 < scaled - low then some (low + 1)
    else some (if low % 2 = 0 then low else low + 1)
  | true, false => some low
  | false, true => some (low + 1)
  | false, false => none

/-- The first length from `k` on that has such an integer, within `fuel` lengths. -/
def shortestDigits (x : ℚ) (n : ℤ) : ℕ → ℕ → ℕ × ℕ
  | 0, k => (⌊x * 10 ^ (k - n)⌋.toNat, k)
  | fuel + 1, k =>
    match digitsOfLength x n k with
    | some s => (s, k)
    | none => shortestDigits x n fuel (k + 1)

/-- Lay out `k` digits with the decimal point after the `n`-th. -/
def layoutDigits (digits : JsString) (k : ℕ) (n : ℤ) : JsString :=
  if k ≤ n ∧ n ≤ 21 then digits ++ List.replicate (n - k).toNat (unit '0')
  else if 0 < n ∧ n ≤ 21 then digits.take n.toNat ++ js "." ++ digits.drop n.toNat
  else if -6 < n ∧ n ≤ 0 then js "0." ++ List.replicate (-n).toNat (unit '0') ++ digits
  else
    let mantissa := if k = 1 then digits else digits.take 1 ++ js "." ++ digits.drop 1
    mantissa ++ js "e" ++ (if n - 1 < 0 then js "-" else js "+") ++ decimal (n - 1).natAbs

/-- The text of a positive double. A candidate that carries into a further digit is the
power of ten one place up. -/
def positiveText (x : ℚ) : JsString :=
  let n := Int.log 10 x + 1
  let (s, k) := shortestDigits x n (x.den.log2 + n.natAbs) 1
  if s = 10 ^ k then layoutDigits (decimal 1) 1 (n + 1) else layoutDigits (decimal s) k n

def JsNumber.toText : JsNumber → JsString
  | .finite x =>
    if x.value = 0 then js "0"
    else if x.value < 0 then js "-" ++ positiveText (-x.value)
    else positiveText x.value
  | .negativeZero => js "0"
  | .infinity negative => if negative then js "-Infinity" else js "Infinity"

end DwnServer
