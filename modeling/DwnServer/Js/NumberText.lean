import DwnServer.Js.BigInt
import DwnServer.Js.JsonText

/-!
# Numbers read back

`Number::toString` writes digits that round to the number it was given, and `JSON.parse`
rounds the digits that it reads, so a finite number survives being written and read. The
search for the shortest digits ends, since enough digits are exact.
-/
namespace DwnServer

namespace Json

/-! ## Signs and digits -/

theorem js_minus : js "-" = [unit '-'] := rfl

theorem js_plus : js "+" = [unit '+'] := rfl

theorem js_point : js "." = [unit '.'] := rfl

theorem js_exponent : js "e" = [unit 'e'] := rfl

theorem digitsValue_zero : digitsValue [unit '0'] = 0 := rfl

theorem digitsValue_append (a b : JsString) :
    digitsValue (a ++ b) = digitsValue a * 10 ^ b.length + digitsValue b := by
  induction b using List.reverseRecOn with
  | nil => simp [digitsValue]
  | append_singleton b u ih =>
    have hsnoc : ∀ ds : JsString, digitsValue (ds ++ [u]) =
        10 * digitsValue ds + (u.toNat - 48) := by
      intro ds
      simp [digitsValue]
    rw [← List.append_assoc, hsnoc, hsnoc, ih, List.length_append, List.length_singleton, pow_succ]
    ring

theorem digitsValue_zeros (n : ℕ) : digitsValue (List.replicate n (unit '0')) = 0 := by
  induction n with
  | zero => rfl
  | succ n ih =>
    rw [List.replicate_succ', digitsValue_append, ih, digitsValue_zero, Nat.zero_mul]

theorem isDigit_of_mem_zeros {n : ℕ} {u : UInt16} (h : u ∈ List.replicate n (unit '0')) :
    isDigit u = true := by
  obtain rfl := List.eq_of_mem_replicate h
  decide

theorem isDigit_zero : ∀ u ∈ [unit '0'], isDigit u = true := fun _ => isDigit_of_mem_zeros (n := 1)

theorem digitsValue_lt {ds : JsString} (h : ∀ u ∈ ds, isDigit u = true) :
    digitsValue ds < 10 ^ ds.length := by
  induction ds using List.reverseRecOn with
  | nil => simp [digitsValue]
  | append_singleton ds u ih =>
    have hu : u.toNat ≤ 57 := by
      have hdigit := h u (by simp)
      simp only [isDigit, Bool.and_eq_true, decide_eq_true_eq] at hdigit
      exact hdigit.2
    have hrest := ih fun v hv => h v (by simp [hv])
    have hone : digitsValue [u] = u.toNat - 48 := by simp [digitsValue]
    rw [digitsValue_append, hone, List.length_append, List.length_singleton, pow_one, pow_succ]
    omega

theorem isDigit_decimal {n : ℕ} {u : UInt16} (h : u ∈ decimal n) : isDigit u = true := by
  obtain ⟨c, hc, rfl⟩ := isDigit_of_mem_decimal h
  simpa [isDigit] using toNat_unit_of_isDigit hc

theorem digitsValue_decimal (n : ℕ) : digitsValue (decimal n) = n := by
  have hfold : ∀ (cs : List Char) (m : ℕ), (∀ c ∈ cs, c.isDigit) →
      (cs.map unit).foldl (fun n u => 10 * n + (u.toNat - 48)) m = Nat.ofDigitChars 10 cs m := by
    intro cs m hcs
    induction cs generalizing m with
    | nil => simp
    | cons c cs ih =>
      have hunit : (unit c).toNat = c.toNat := by
        have hlt : c.toNat < 2 ^ 16 :=
          lt_of_le_of_lt (Char.isDigit_iff_toNat.mp (hcs c (by simp))).2 (by decide)
        rw [unit, UInt16.toNat_ofNat', Nat.mod_eq_of_lt hlt]
      rw [List.map_cons, List.foldl_cons, ih _ fun d hd => hcs d (by simp [hd]),
        Nat.ofDigitChars_cons, hunit]
      rfl
  rw [digitsValue, decimal, hfold _ _ fun c hc =>
    Nat.isDigit_of_mem_toDigits (by norm_num) (by norm_num) hc]
  exact Nat.ofDigitChars_ten_toDigits

theorem decimal_ne_nil (n : ℕ) : decimal n ≠ [] := by
  simp [decimal, Nat.toDigits_ne_nil]

/-- The digits of a number between two powers of ten. -/
theorem length_decimal {n k : ℕ} (hlow : 10 ^ k ≤ n) (hhigh : n < 10 ^ (k + 1)) :
    (decimal n).length = k + 1 := by
  rw [decimal, List.length_map]
  have hle := (Nat.length_toDigits_le_iff (n := n) (k := k + 1) (b := 10) (by norm_num)
    (by omega)).mpr hhigh
  rcases Nat.eq_zero_or_pos k with rfl | hk
  · have := Nat.length_toDigits_pos (b := 10) (n := n)
    omega
  · have := mt (Nat.length_toDigits_le_iff (n := n) (k := k) (b := 10) (by norm_num) hk).mp
      (not_lt.mpr hlow)
    omega

/-! ## Numerals -/

/-- The text does not go on as a numeral. -/
def Ends (rest : JsString) : Prop :=
  ∀ u ∈ rest.head?, isDigit u = false ∧ u ≠ unit '.' ∧ u ≠ unit 'e' ∧ u ≠ unit 'E'

theorem span_isDigit {ds after : JsString} (hds : ∀ u ∈ ds, isDigit u = true)
    (hafter : ∀ u ∈ after.head?, isDigit u = false) :
    (ds ++ after).span isDigit = (ds, after) := by
  rw [List.span_eq_takeWhile_dropWhile, List.takeWhile_append_of_pos hds,
    List.dropWhile_append_of_pos hds]
  cases after with
  | nil => simp
  | cons u after =>
    have hu := hafter u rfl
    simp [hu]

theorem parseFraction_of_ends {rest : JsString} (h : ∀ u ∈ rest.head?, u ≠ unit '.') :
    parseFraction rest = some ([], rest) := by
  cases rest with
  | nil => rfl
  | cons u rest => simp [parseFraction, h u rfl]

theorem parseFraction_point {ds rest : JsString} (hds : ∀ u ∈ ds, isDigit u = true)
    (hne : ds ≠ []) (hrest : ∀ u ∈ rest.head?, isDigit u = false) :
    parseFraction (unit '.' :: (ds ++ rest)) = some (ds, rest) := by
  simp [parseFraction, span_isDigit hds hrest, hne, -List.span_eq_takeWhile_dropWhile]

theorem parseExponent_of_ends {rest : JsString}
    (h : ∀ u ∈ rest.head?, u ≠ unit 'e' ∧ u ≠ unit 'E') : parseExponent rest = some (0, rest) := by
  cases rest with
  | nil => rfl
  | cons u rest => simp [parseExponent, h u rfl]

/-- The exponent as `Number::toString` writes it. -/
theorem parseExponent_text {rest : JsString} (hrest : ∀ u ∈ rest.head?, isDigit u = false)
    (e : ℤ) :
    parseExponent (unit 'e' :: ((if e < 0 then js "-" else js "+") ++ (decimal e.natAbs ++ rest))) =
      some (e, rest) := by
  have hspan := span_isDigit (fun u hu => isDigit_decimal (n := e.natAbs) hu) hrest
  have hplus : unit '+' ≠ unit '-' := by decide
  split_ifs with hneg
  · simp [parseExponent, js_minus, hspan, decimal_ne_nil, digitsValue_decimal,
      -List.span_eq_takeWhile_dropWhile]
    rw [abs_of_neg hneg, neg_neg]
  · simp [parseExponent, js_plus, hplus, hspan, decimal_ne_nil, digitsValue_decimal,
      -List.span_eq_takeWhile_dropWhile]
    omega

/-- What a numeral is read as, from the parts that it is read in. -/
theorem parseNumber_eq (negative : Bool) {whole fraction after after' rest : JsString}
    {exponent : ℤ} (hwhole : ∀ u ∈ whole, isDigit u = true) (hne : whole ≠ [])
    (hzero : whole.head? = some (unit '0') → whole.length = 1)
    (hafter : ∀ u ∈ after.head?, isDigit u = false)
    (hfraction : parseFraction after = some (fraction, after'))
    (hexponent : parseExponent after' = some (exponent, rest)) :
    parseNumber ((if negative then [unit '-'] else []) ++ (whole ++ after)) =
      let magnitude : ℚ := digitsValue (whole ++ fraction) * 10 ^ (exponent - fraction.length)
      some (.ofRat negative (if negative then -magnitude else magnitude), rest) := by
  have hspan := span_isDigit hwhole hafter
  obtain ⟨u, digits, rfl⟩ := List.exists_cons_of_ne_nil hne
  have hleading : u = unit '0' → digits = [] := by
    rintro rfl
    simpa using hzero rfl
  have hminus : u ≠ unit '-' := by
    rintro rfl
    have := hwhole (unit '-') List.mem_cons_self
    revert this
    decide
  rw [List.cons_append] at hspan
  cases negative with
  | true =>
    simpa [parseNumber, hspan, hfraction, hexponent, -List.span_eq_takeWhile_dropWhile]
      using hleading
  | false =>
    simpa [parseNumber, hspan, hfraction, hexponent, hminus, -List.span_eq_takeWhile_dropWhile]
      using hleading

/-! ## Laid-out digits -/

/-- A numeral without a sign that denotes `value`, whatever follows it. -/
def Denotes (text : JsString) (value : ℚ) : Prop :=
  ∀ negative rest, Ends rest →
    parseNumber ((if negative then [unit '-'] else []) ++ (text ++ rest)) =
      some (.ofRat negative (if negative then -value else value), rest)

def fractionText (fraction : JsString) : JsString :=
  if fraction = [] then [] else unit '.' :: fraction

def exponentText : Option ℤ → JsString
  | none => []
  | some e => unit 'e' :: ((if e < 0 then js "-" else js "+") ++ decimal e.natAbs)

theorem parseExponent_exponentText {rest : JsString} (hrest : Ends rest) (e : Option ℤ) :
    parseExponent (exponentText e ++ rest) = some (e.getD 0, rest) := by
  cases e with
  | none => exact parseExponent_of_ends fun u hu => (hrest u hu).2.2
  | some e =>
    have htext := parseExponent_text (fun u hu => (hrest u hu).1) e
    simpa [exponentText] using htext

theorem head_exponentText {rest : JsString} (hrest : Ends rest) (e : Option ℤ) :
    ∀ u ∈ (exponentText e ++ rest).head?, isDigit u = false ∧ u ≠ unit '.' := by
  intro u hu
  cases e with
  | none => exact ⟨(hrest u hu).1, (hrest u hu).2.1⟩
  | some e =>
    obtain rfl := Option.some.inj hu
    decide

theorem parseFraction_fractionText {fraction after : JsString}
    (hfraction : ∀ u ∈ fraction, isDigit u = true)
    (hafter : ∀ u ∈ after.head?, isDigit u = false ∧ u ≠ unit '.') :
    parseFraction (fractionText fraction ++ after) = some (fraction, after) := by
  unfold fractionText
  split_ifs with hnil
  · subst hnil
    exact parseFraction_of_ends fun u hu => (hafter u hu).2
  · exact parseFraction_point hfraction hnil fun u hu => (hafter u hu).1

theorem head_fractionText {fraction after : JsString}
    (hafter : ∀ u ∈ after.head?, isDigit u = false ∧ u ≠ unit '.') :
    ∀ u ∈ (fractionText fraction ++ after).head?, isDigit u = false := by
  unfold fractionText
  intro u hu
  split_ifs at hu
  · exact (hafter u hu).1
  · obtain rfl := Option.some.inj hu
    decide

theorem denotes_numeral (whole fraction : JsString) (e : Option ℤ)
    (hwhole : ∀ u ∈ whole, isDigit u = true) (hne : whole ≠ [])
    (hzero : whole.head? = some (unit '0') → whole.length = 1)
    (hfraction : ∀ u ∈ fraction, isDigit u = true) :
    Denotes (whole ++ (fractionText fraction ++ exponentText e))
      (digitsValue (whole ++ fraction) * 10 ^ (e.getD 0 - fraction.length)) := by
  intro negative rest hrest
  rw [List.append_assoc, List.append_assoc]
  exact parseNumber_eq negative hwhole hne hzero (head_fractionText (head_exponentText hrest e))
    (parseFraction_fractionText hfraction (head_exponentText hrest e))
    (parseExponent_exponentText hrest e)

theorem Denotes.of_eq {text text' : JsString} {value value' : ℚ} (h : Denotes text value)
    (htext : text' = text) (hvalue : value' = value) : Denotes text' value' := by
  rwa [htext, hvalue]

section Layout

variable {ds : JsString} (hds : ∀ u ∈ ds, isDigit u = true) (hne : ds ≠ [])
  (hhead : ds.head? ≠ some (unit '0'))

include hds hne hhead

/-- The digits up to some place begin a numeral. -/
theorem denotes_take_drop {m : ℕ} (hm : 0 < m) (e : Option ℤ) :
    Denotes (ds.take m ++ (fractionText (ds.drop m) ++ exponentText e))
      (digitsValue ds * 10 ^ (e.getD 0 - (ds.length - m : ℕ))) := by
  have hzero : (ds.take m).head? ≠ some (unit '0') := by
    rwa [List.head?_take, if_neg hm.ne']
  have hnumeral := denotes_numeral (ds.take m) (ds.drop m) e
    (fun u hu => hds u (List.mem_of_mem_take hu)) (by simp [hne, hm.ne'])
    (fun h => absurd h hzero) fun u hu => hds u (List.mem_of_mem_drop hu)
  rwa [List.take_append_drop, List.length_drop] at hnumeral

/-- Zeros after the digits. -/
theorem denotes_zeros_after (z : ℕ) :
    Denotes (ds ++ List.replicate z (unit '0')) (digitsValue ds * 10 ^ z) := by
  have hzero : (ds ++ List.replicate z (unit '0')).head? ≠ some (unit '0') := by
    rwa [List.head?_append_of_ne_nil _ hne]
  have hdigits : ∀ u ∈ ds ++ List.replicate z (unit '0'), isDigit u = true := by
    intro u hu
    exact (List.mem_append.mp hu).elim (hds u) isDigit_of_mem_zeros
  have hnumeral := denotes_numeral _ [] none hdigits (by simp [hne]) (fun h => absurd h hzero)
    nofun
  refine hnumeral.of_eq (by simp [fractionText, exponentText]) ?_
  simp [digitsValue_append, digitsValue_zeros]

omit hhead in
/-- Zeros before the digits. -/
theorem denotes_zeros_before (z : ℕ) :
    Denotes (js "0." ++ List.replicate z (unit '0') ++ ds)
      (digitsValue ds * 10 ^ (-(z + ds.length : ℕ) : ℤ)) := by
  have hdigits : ∀ u ∈ List.replicate z (unit '0') ++ ds, isDigit u = true := by
    intro u hu
    exact (List.mem_append.mp hu).elim isDigit_of_mem_zeros (hds u)
  have hnumeral := denotes_numeral [unit '0'] _ none isDigit_zero (by simp) (by simp) hdigits
  have hpoint : js "0." = [unit '0', unit '.'] := rfl
  have hvalue : digitsValue ([unit '0'] ++ (List.replicate z (unit '0') ++ ds)) =
      digitsValue ds := by
    rw [digitsValue_append, digitsValue_append, digitsValue_zeros, digitsValue_zero]
    simp only [Nat.zero_mul, Nat.zero_add]
  rw [hvalue] at hnumeral
  refine hnumeral.of_eq ?_ (by simp)
  simp [fractionText, exponentText, hpoint, hne]

/-- Digits of which the first is not zero, with the decimal point after the `n`-th. -/
theorem denotes_layoutDigits (n : ℤ) :
    Denotes (layoutDigits ds ds.length n) (digitsValue ds * 10 ^ (n - ds.length)) := by
  have hlength : 0 < ds.length := List.length_pos_iff.mpr hne
  unfold layoutDigits
  by_cases hwhole : ds.length ≤ n ∧ n ≤ 21
  · rw [if_pos hwhole]
    refine (denotes_zeros_after hds hne hhead _).of_eq rfl ?_
    rw [← zpow_natCast, Int.toNat_of_nonneg (by omega)]
  rw [if_neg hwhole]
  by_cases hpoint : 0 < n ∧ n ≤ 21
  · rw [if_pos hpoint]
    obtain ⟨m, rfl⟩ := Int.eq_ofNat_of_zero_le hpoint.1.le
    have hlt : m < ds.length := by omega
    refine (denotes_take_drop hds hne hhead (by omega : 0 < m) none).of_eq ?_ ?_
    · simp [fractionText, exponentText, js_point, hlt]
    · congr 2
      simp only [Option.getD_none]
      omega
  rw [if_neg hpoint]
  by_cases hsmall : -6 < n ∧ n ≤ 0
  · rw [if_pos hsmall]
    refine (denotes_zeros_before hds hne _).of_eq rfl ?_
    congr 2
    omega
  rw [if_neg hsmall]
  refine (denotes_take_drop hds hne hhead one_pos (some (n - 1))).of_eq ?_ ?_
  · by_cases hone : ds.length = 1
    · have htake : ds.take 1 = ds := List.take_of_length_le hone.le
      have hdrop : ds.drop 1 = [] := List.drop_of_length_le hone.le
      simp only [if_pos hone, htake, hdrop, fractionText, exponentText, js_exponent, if_true,
        List.append_assoc, List.nil_append, List.cons_append]
    · have hdrop : ds.drop 1 ≠ [] := by
        rw [Ne, List.drop_eq_nil_iff]
        omega
      simp only [if_neg hone, if_neg hdrop, fractionText, exponentText, js_exponent, js_point,
        List.append_assoc, List.nil_append, List.cons_append]
  · congr 2
    simp only [Option.getD_some]
    omega

end Layout

end Json

/-! ## Doubles -/

theorem roundHalfEven_neg (q : ℚ) : roundHalfEven (-q) = -roundHalfEven q := by
  rcases eq_or_lt_of_le (Int.floor_le q) with hint | hlt
  · obtain ⟨n, rfl⟩ : ∃ n : ℤ, q = n := ⟨_, hint.symm⟩
    rw [← Int.cast_neg, roundHalfEven_intCast, roundHalfEven_intCast]
  have hfloor : ⌊-q⌋ = -⌊q⌋ - 1 := by
    rw [Int.floor_eq_iff]
    push_cast
    constructor <;> linarith [Int.lt_floor_add_one q]
  unfold roundHalfEven
  rw [hfloor]
  push_cast
  split_ifs <;> first | omega | linarith

theorem roundDouble_neg (q : ℚ) : roundDouble (-q) = -roundDouble q := by
  have hplace : lastPlace (-q) = lastPlace q := by rw [lastPlace, lastPlace, abs_neg]
  rw [roundDouble, roundDouble, hplace, neg_div, roundHalfEven_neg]
  push_cast
  ring

theorem roundDouble_zero : roundDouble 0 = 0 := by
  have hzero := roundHalfEven_intCast 0
  rw [Int.cast_zero] at hzero
  rw [roundDouble, zero_div, hzero, Int.cast_zero, zero_mul]

/-- A double is a binary fraction. -/
theorem exists_den_eq_two_pow {x : ℚ} (h : roundDouble x = x) : ∃ m, x.den = 2 ^ m := by
  set r := roundHalfEven (x / 2 ^ lastPlace x) with hr
  have hx : x = r * 2 ^ lastPlace x := h.symm
  suffices hdvd : x.den ∣ 2 ^ (-lastPlace x).toNat by
    obtain ⟨m, -, hm⟩ := (Nat.dvd_prime_pow Nat.prime_two).mp hdvd
    exact ⟨m, hm⟩
  rcases le_total 0 (lastPlace x) with hnonneg | hneg
  · have hint : x = (r * 2 ^ (lastPlace x).toNat : ℤ) := by
      push_cast
      rw [← zpow_natCast, Int.toNat_of_nonneg hnonneg]
      exact hx
    rw [hint, Rat.den_intCast]
    exact one_dvd _
  · have hfraction : x = Rat.divInt r ((2 ^ (-lastPlace x).toNat : ℕ) : ℤ) := by
      rw [Rat.divInt_eq_div]
      push_cast
      rw [← zpow_natCast, Int.toNat_of_nonneg (by omega), zpow_neg, div_inv_eq_mul]
      exact hx
    have hdvd := Rat.den_dvd r ((2 ^ (-lastPlace x).toNat : ℕ) : ℤ)
    rw [← hfraction] at hdvd
    exact_mod_cast hdvd

/-- Enough decimal places make a binary fraction integral. -/
theorem exists_int_of_le {x : ℚ} (h : roundDouble x = x) {e : ℤ} (he : x.den.log2 ≤ e) :
    ∃ r : ℤ, x * 10 ^ e = r := by
  obtain ⟨m, hm⟩ := exists_den_eq_two_pow h
  rw [hm, Nat.log2_two_pow] at he
  obtain ⟨z, rfl⟩ := Int.le.dest he
  refine ⟨x.num * (5 ^ m * 10 ^ z), ?_⟩
  have hnum : x * 2 ^ m = x.num := by
    have := Rat.mul_den_eq_num x
    rw [hm] at this
    exact_mod_cast this
  have hten : (10 : ℚ) ^ m = 2 ^ m * 5 ^ m := by
    rw [← mul_pow]
    norm_num
  push_cast
  rw [zpow_add₀ (by norm_num), zpow_natCast, zpow_natCast, hten, ← hnum]
  ring

/-! ## The search for the digits -/

/-- `s` has `k` digits, or is the least number with more, and reads back as `x` when the
decimal point stands after the `n`-th digit. -/
structure ReadsBack (x : ℚ) (n : ℤ) (s k : ℕ) : Prop where
  pos : 0 < k
  low : 10 ^ (k - 1) ≤ s
  high : s ≤ 10 ^ k
  round : roundDouble (s * 10 ^ (n - k)) = x

section Search

variable {x : ℚ} {n : ℤ} (hlow : (10 : ℚ) ^ (n - 1) ≤ x) (hhigh : x < 10 ^ n)

include hlow hhigh

/-- The digits that are cut off leave `k` of them. -/
theorem scaled_bounds {k : ℕ} (hk : 0 < k) :
    ((10 ^ (k - 1) : ℕ) : ℚ) ≤ x * 10 ^ (k - n) ∧ x * 10 ^ (k - n) < (10 ^ k : ℕ) := by
  have hpos : (0 : ℚ) < 10 ^ ((k : ℤ) - n) := by positivity
  constructor
  · calc ((10 ^ (k - 1) : ℕ) : ℚ) = 10 ^ (n - 1) * 10 ^ ((k : ℤ) - n) := by
          rw [← zpow_add₀ (by norm_num), Nat.cast_pow, ← zpow_natCast]
          congr 1
          omega
      _ ≤ _ := mul_le_mul_of_nonneg_right hlow hpos.le
  · calc x * 10 ^ ((k : ℤ) - n) < 10 ^ n * 10 ^ ((k : ℤ) - n) := mul_lt_mul_of_pos_right hhigh hpos
      _ = (10 ^ k : ℕ) := by
          rw [← zpow_add₀ (by norm_num), Nat.cast_pow, ← zpow_natCast]
          congr 1
          omega

theorem floor_scaled_bounds {k : ℕ} (hk : 0 < k) :
    10 ^ (k - 1) ≤ ⌊x * 10 ^ (k - n)⌋.toNat ∧ ⌊x * 10 ^ (k - n)⌋.toNat < 10 ^ k := by
  obtain ⟨hfrom, hto⟩ := scaled_bounds hlow hhigh hk
  have hfloor : ((10 ^ (k - 1) : ℕ) : ℤ) ≤ ⌊x * 10 ^ (k - n)⌋ :=
    Int.le_floor.mpr (by exact_mod_cast hfrom)
  have hceil : ⌊x * 10 ^ (k - n)⌋ < ((10 ^ k : ℕ) : ℤ) := Int.floor_lt.mpr (by exact_mod_cast hto)
  have hpos : 0 < 10 ^ k := by positivity
  omega

theorem readsBack_of_digitsOfLength {k s : ℕ} (hk : 0 < k) (h : digitsOfLength x n k = some s) :
    ReadsBack x n s k := by
  obtain ⟨hfrom, hto⟩ := floor_scaled_bounds hlow hhigh hk
  unfold digitsOfLength at h
  dsimp only at h
  set low := ⌊x * 10 ^ (k - n)⌋.toNat
  have hreads : (s = low ∨ s = low + 1) ∧ roundDouble (s * 10 ^ (n - k)) = x := by
    split at h
    · rename_i hdown hup
      have hd := of_decide_eq_true hdown
      have hu := of_decide_eq_true hup
      split_ifs at h <;> obtain rfl := Option.some.inj h <;> simp_all
    · rename_i hdown _
      obtain rfl := Option.some.inj h
      exact ⟨Or.inl rfl, of_decide_eq_true hdown⟩
    · rename_i _ hup
      obtain rfl := Option.some.inj h
      exact ⟨Or.inr rfl, of_decide_eq_true hup⟩
    · cases h
  obtain ⟨rfl | rfl, hround⟩ := hreads
  · exact ⟨hk, hfrom, hto.le, hround⟩
  · exact ⟨hk, hfrom.trans (Nat.le_succ _), hto, hround⟩

/-- The search finds digits, if some length within the fuel is exact. -/
theorem readsBack_shortestDigits (hdouble : roundDouble x = x) (fuel : ℕ) {k : ℕ} (hk : 0 < k)
    (hexact : x.den.log2 ≤ ((k + fuel : ℕ) : ℤ) - n) :
    ReadsBack x n (shortestDigits x n fuel k).1 (shortestDigits x n fuel k).2 := by
  induction fuel generalizing k with
  | zero =>
    obtain ⟨r, hr⟩ := exists_int_of_le hdouble hexact
    obtain ⟨hfrom, hto⟩ := floor_scaled_bounds hlow hhigh hk
    rw [Nat.add_zero] at hr
    rw [hr, Int.floor_intCast] at hfrom hto
    have hr0 : 0 ≤ r := by
      by_contra hneg
      have : 0 < 10 ^ (k - 1) := by positivity
      omega
    simp only [shortestDigits, hr, Int.floor_intCast]
    refine ⟨hk, hfrom, hto.le, ?_⟩
    have hcast : ((r.toNat : ℕ) : ℚ) = x * 10 ^ ((k : ℤ) - n) := by
      rw [hr]
      exact_mod_cast Int.toNat_of_nonneg hr0
    rw [hcast, mul_assoc, ← zpow_add₀ (by norm_num)]
    simpa using hdouble
  | succ fuel ih =>
    unfold shortestDigits
    split
    · rename_i s hs
      exact readsBack_of_digitsOfLength hlow hhigh hk hs
    · exact ih k.succ_pos (by push_cast at hexact ⊢; omega)

end Search

/-! ## `Number::toString` and back -/

theorem head_decimal {s : ℕ} (h : 0 < s) : (decimal s).head? ≠ some (unit '0') := by
  intro hhead
  obtain ⟨rest, hrest⟩ := List.head?_eq_some_iff.mp hhead
  have hvalue : s = Json.digitsValue rest := by
    have hzero : Json.digitsValue (unit '0' :: rest) = Json.digitsValue rest := rfl
    rw [← hzero, ← hrest, Json.digitsValue_decimal]
  have hlt : s < 10 ^ rest.length := by
    rw [hvalue]
    exact Json.digitsValue_lt fun u hu => Json.isDigit_decimal (n := s) (by simp [hrest, hu])
  rcases Nat.eq_zero_or_pos rest.length with hnil | hpos
  · rw [hnil] at hlt
    omega
  · have hlength := (Nat.length_toDigits_le_iff (n := s) (b := 10) (by norm_num) hpos).mpr hlt
    have hcount := congrArg List.length hrest
    rw [decimal, List.length_map, List.length_cons] at hcount
    omega

/-- The digits of a positive double, as it is written, read back as the double. -/
theorem exists_denotes_positiveText {x : ℚ} (hdouble : roundDouble x = x) (hpos : 0 < x) :
    ∃ value, roundDouble value = x ∧ Json.Denotes (positiveText x) value := by
  have hden : ∀ {s k : ℕ} {n : ℤ}, 0 < k → 10 ^ (k - 1) ≤ s → s < 10 ^ k →
      roundDouble (s * 10 ^ (n - k)) = x →
      ∃ value, roundDouble value = x ∧ Json.Denotes (layoutDigits (decimal s) k n) value := by
    intro s k n hk hlow hhigh hround
    obtain ⟨k, rfl⟩ := Nat.exists_eq_succ_of_ne_zero hk.ne'
    have hlength : (decimal s).length = k + 1 := Json.length_decimal hlow hhigh
    have hdenotes := Json.denotes_layoutDigits (fun u hu => Json.isDigit_decimal hu)
      (Json.decimal_ne_nil s) (head_decimal (lt_of_lt_of_le (by positivity) hlow)) n
    rw [hlength, Json.digitsValue_decimal] at hdenotes
    exact ⟨_, hround, hdenotes⟩
  have hlog : (10 : ℚ) ^ Int.log 10 x ≤ x := by
    exact_mod_cast Int.zpow_log_le_self (b := 10) (by norm_num) hpos
  have hsucc : x < (10 : ℚ) ^ (Int.log 10 x + 1) := by
    exact_mod_cast Int.lt_zpow_succ_log_self (b := 10) (by norm_num) x
  have hdigits := readsBack_shortestDigits (x := x) (n := Int.log 10 x + 1) (by simpa using hlog)
    hsucc hdouble (x.den.log2 + (Int.log 10 x + 1).natAbs) one_pos (by omega)
  unfold positiveText
  dsimp only
  split_ifs with hcarry
  · refine hden one_pos (by norm_num) (by norm_num) ?_
    have hround := hdigits.round
    rw [hcarry] at hround
    push_cast at hround ⊢
    rw [← zpow_natCast, ← zpow_add₀ (by norm_num)] at hround
    simpa using hround
  · exact hden hdigits.pos hdigits.low (lt_of_le_of_ne hdigits.high hcarry) hdigits.round

namespace JsNumber

def zero : JsNumber := .finite ⟨0, roundDouble_zero, by norm_num⟩

theorem ofRat_of_round {x : Double} {negative : Bool} {q : ℚ} (hround : roundDouble q = x.value)
    (hsign : negative = true → x.value ≠ 0) : ofRat negative q = .finite x := by
  have hzero : ¬(decide (roundDouble q = 0) && negative) = true := by
    rw [hround]
    cases negative with
    | false => simp
    | true => simpa using hsign rfl
  have hbounded : |roundDouble q| < 2 ^ 1024 := hround ▸ x.bounded
  rw [ofRat, if_neg hzero, dif_pos hbounded]
  cases x
  simp_all

theorem parseNumber_of_denotes {text rest : JsString} {value : ℚ} {x : Double} (negative : Bool)
    (h : Json.Denotes text value) (hrest : Json.Ends rest)
    (hround : roundDouble (if negative then -value else value) = x.value)
    (hsign : negative = true → x.value ≠ 0) :
    Json.parseNumber ((if negative then [unit '-'] else []) ++ (text ++ rest)) =
      some (.finite x, rest) := by
  rw [h negative rest hrest, ofRat_of_round hround hsign]

/-- A finite number is read back from its text. -/
theorem parseNumber_toText (x : Double) {rest : JsString} (hrest : Json.Ends rest) :
    Json.parseNumber ((JsNumber.finite x).toText ++ rest) = some (.finite x, rest) := by
  unfold toText
  dsimp only
  split_ifs with hzero hneg
  · have hdenotes : Json.Denotes (js "0") 0 :=
      (Json.denotes_numeral [unit '0'] [] none Json.isDigit_zero (by simp) (by simp) nofun).of_eq
        rfl (by simp [Json.digitsValue_zero])
    exact parseNumber_of_denotes false hdenotes hrest (by simp [hzero, roundDouble_zero]) nofun
  · have hrounded : roundDouble (-x.value) = -x.value := by rw [roundDouble_neg, x.rounded]
    obtain ⟨value, hvalue, hdenotes⟩ := exists_denotes_positiveText hrounded (by linarith)
    have hround : roundDouble (-value) = x.value := by rw [roundDouble_neg, hvalue, neg_neg]
    have hread := parseNumber_of_denotes true hdenotes hrest hround fun _ => hzero
    rw [Json.js_minus, List.append_assoc]
    exact hread
  · obtain ⟨value, hvalue, hdenotes⟩ := exists_denotes_positiveText x.rounded
      (lt_of_le_of_ne (not_lt.mp hneg) (Ne.symm hzero))
    exact parseNumber_of_denotes false hdenotes hrest hvalue nofun

/-! ## The characters of a number -/

/-- Graphic ASCII characters only. -/
def Graphic (text : JsString) : Prop := ∀ u ∈ text, 0x20 < u.toNat ∧ u.toNat < 0x7f

instance (text : JsString) : Decidable (Graphic text) :=
  List.decidableBAll (fun u : UInt16 => 0x20 < u.toNat ∧ u.toNat < 0x7f) text

theorem graphic_append {s t : JsString} : Graphic (s ++ t) ↔ Graphic s ∧ Graphic t :=
  List.forall_mem_append

theorem graphic_decimal (n : ℕ) : Graphic (decimal n) := by
  intro u hu
  have hdigit : 48 ≤ u.toNat ∧ u.toNat ≤ 57 := by
    simpa [Json.isDigit] using Json.isDigit_decimal hu
  omega

theorem graphic_layoutDigits {digits : JsString} (h : Graphic digits) (k : ℕ) (n : ℤ) :
    Graphic (layoutDigits digits k n) := by
  have htake : ∀ k, Graphic (digits.take k) := fun _ u hu => h u (List.mem_of_mem_take hu)
  have hdrop : ∀ k, Graphic (digits.drop k) := fun _ u hu => h u (List.mem_of_mem_drop hu)
  have hzeros : ∀ k, Graphic (List.replicate k (unit '0')) := by
    intro k u hu
    rw [List.eq_of_mem_replicate hu]
    decide
  have hmarks : ∀ text ∈ [js ".", js "0.", js "e", js "-", js "+"], Graphic text := by decide
  simp only [List.forall_mem_cons] at hmarks
  unfold layoutDigits
  split_ifs <;> simp only [graphic_append, h, htake, hdrop, hzeros, hmarks, graphic_decimal,
    and_self]

theorem graphic_toText (n : JsNumber) : Graphic n.toText := by
  have hpositive (x : ℚ) : Graphic (positiveText x) := by
    unfold positiveText
    dsimp only
    split_ifs <;> exact graphic_layoutDigits (graphic_decimal _) _ _
  cases n with
  | finite x =>
    rw [toText]
    split_ifs
    · decide
    · exact graphic_append.mpr ⟨by decide, hpositive _⟩
    · exact hpositive x.value
  | negativeZero => decide
  | infinity negative => cases negative <;> decide

end JsNumber

end DwnServer
