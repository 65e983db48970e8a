import DwnServer.Js.JsonText
import Mathlib.Data.List.DropRight

/-!
# BigInts and hexadecimal text

BigInts are integers, and their division truncates toward zero. `BigInt` of a number
throws unless the number is integral, `BigInt` of a text unless it is a numeral. Numbers
that the source only computes with are exact rationals here.
-/
namespace DwnServer

/-! ## Hexadecimal digits -/

/-- The value of a digit sequence, most significant digit first. -/
def hexValue : List ℕ → ℕ := List.foldl (fun n d => 16 * n + d) 0

/-- The last `width` hexadecimal digits of a number. -/
def hexDigits : ℕ → ℕ → List ℕ
  | 0, _ => []
  | width + 1, n => hexDigits width (n / 16) ++ [n % 16]

def lowerHex (digits : List ℕ) : JsString := digits.map Json.hexDigit

def upperHexDigit (d : ℕ) : UInt16 :=
  if d < 10 then unit (Nat.digitChar d) else UInt16.ofNat (55 + d)

def upperHex (digits : List ℕ) : JsString := digits.map upperHexDigit

theorem hexValue_append_singleton (digits : List ℕ) (d : ℕ) :
    hexValue (digits ++ [d]) = 16 * hexValue digits + d := by
  simp [hexValue]

@[simp] theorem length_hexDigits (width n : ℕ) : (hexDigits width n).length = width := by
  induction width generalizing n with
  | zero => rfl
  | succ width ih => simp [hexDigits, ih]

theorem lt_of_mem_hexDigits {width n d : ℕ} (h : d ∈ hexDigits width n) : d < 16 := by
  induction width generalizing n with
  | zero => cases h
  | succ width ih =>
    rcases List.mem_append.mp h with hfront | hlast
    · exact ih hfront
    · rw [List.mem_singleton.mp hlast]
      exact Nat.mod_lt _ (by norm_num)

theorem hexValue_hexDigits (width n : ℕ) : hexValue (hexDigits width n) = n % 16 ^ width := by
  induction width generalizing n with
  | zero => simp [hexDigits, hexValue, Nat.mod_one]
  | succ width ih =>
    rw [hexDigits, hexValue_append_singleton, ih, pow_succ', Nat.mod_mul]
    ring

/-- The digits that a text consists of. -/
def readHex (text : JsString) : Option (List ℕ) := text.mapM Json.hexValue?

theorem readHex_cons {u : UInt16} {text : JsString} {digits : List ℕ} :
    readHex (u :: text) = some digits ↔
      ∃ d rest, Json.hexValue? u = some d ∧ readHex text = some rest ∧ digits = d :: rest := by
  simp only [readHex, List.mapM_cons, Option.bind_eq_bind, Option.bind_eq_some_iff,
    Option.pure_def, Option.some.injEq]
  constructor
  · rintro ⟨d, hd, rest, hrest, rfl⟩
    exact ⟨d, rest, hd, hrest, rfl⟩
  · rintro ⟨d, rest, hd, hrest, rfl⟩
    exact ⟨d, hd, rest, hrest, rfl⟩

/-- Digits written in any alphabet that is read back digit by digit. -/
theorem readHex_map {digit : ℕ → UInt16} (hdigit : ∀ d < 16, Json.hexValue? (digit d) = some d)
    {digits : List ℕ} (h : ∀ d ∈ digits, d < 16) : readHex (digits.map digit) = some digits := by
  induction digits with
  | nil => rfl
  | cons d digits ih =>
    obtain ⟨hd, hrest⟩ := List.forall_mem_cons.mp h
    exact readHex_cons.mpr ⟨d, digits, hdigit d hd, ih hrest, rfl⟩

theorem readHex_lowerHex {digits : List ℕ} (h : ∀ d ∈ digits, d < 16) :
    readHex (lowerHex digits) = some digits :=
  readHex_map (by decide) h

theorem readHex_upperHex {digits : List ℕ} (h : ∀ d ∈ digits, d < 16) :
    readHex (upperHex digits) = some digits :=
  readHex_map (by decide) h

theorem hexValue?_eq_some {u : UInt16} {d : ℕ} (h : Json.hexValue? u = some d) :
    d < 16 ∧ 48 ≤ u.toNat ∧ u.toNat ≤ 102 := by
  unfold Json.hexValue? at h
  dsimp only at h
  split_ifs at h <;> obtain rfl := Option.some.inj h <;> omega

theorem lt_and_length_of_readHex {text : JsString} {digits : List ℕ}
    (h : readHex text = some digits) :
    (∀ d ∈ digits, d < 16) ∧ digits.length = text.length := by
  induction text generalizing digits with
  | nil =>
    obtain rfl := Option.some.inj h
    exact ⟨by simp, rfl⟩
  | cons u text ih =>
    obtain ⟨d, rest, hd, hrest, rfl⟩ := readHex_cons.mp h
    obtain ⟨hlt, hlength⟩ := ih hrest
    exact ⟨List.forall_mem_cons.mpr ⟨(hexValue?_eq_some hd).1, hlt⟩, by simp [hlength]⟩

theorem isSome_readHex {text : JsString} :
    (readHex text).isSome = true ↔ ∀ u ∈ text, (Json.hexValue? u).isSome = true := by
  induction text with
  | nil => simp [readHex]
  | cons u text ih =>
    rw [List.forall_mem_cons, ← ih]
    simp only [Option.isSome_iff_exists, readHex_cons]
    constructor
    · rintro ⟨digits, d, rest, hd, hrest, -⟩
      exact ⟨⟨d, hd⟩, rest, hrest⟩
    · rintro ⟨⟨d, hd⟩, rest, hrest⟩
      exact ⟨d :: rest, d, rest, hd, hrest, rfl⟩

theorem hexValue_lt {digits : List ℕ} (h : ∀ d ∈ digits, d < 16) :
    hexValue digits < 16 ^ digits.length := by
  induction digits using List.reverseRecOn with
  | nil => decide
  | append_singleton digits d ih =>
    have hd : d < 16 := h d (by simp)
    have hrest := ih fun e he => h e (by simp [he])
    rw [hexValue_append_singleton, List.length_append, List.length_singleton, pow_succ]
    omega

/-- The digits of a 256-bit value determine it. -/
theorem eq_of_hexDigits {x y : BitVec 256}
    (h : hexDigits 64 x.toNat = hexDigits 64 y.toNat) : x = y := by
  have hvalue := congrArg hexValue h
  rw [hexValue_hexDigits, hexValue_hexDigits, Nat.mod_eq_of_lt (by exact BitVec.isLt _),
    Nat.mod_eq_of_lt (by exact BitVec.isLt _)] at hvalue
  exact BitVec.eq_of_toNat_eq hvalue

theorem lowerHex_hexDigits_injective :
    Function.Injective fun x : BitVec 256 => lowerHex (hexDigits 64 x.toNat) := by
  intro x y h
  have hread := congrArg readHex h
  rw [readHex_lowerHex fun _ => lt_of_mem_hexDigits,
    readHex_lowerHex fun _ => lt_of_mem_hexDigits] at hread
  exact eq_of_hexDigits (Option.some.inj hread)

theorem upperHex_hexDigits_injective :
    Function.Injective fun x : BitVec 256 => upperHex (hexDigits 64 x.toNat) := by
  intro x y h
  have hread := congrArg readHex h
  rw [readHex_upperHex fun _ => lt_of_mem_hexDigits,
    readHex_upperHex fun _ => lt_of_mem_hexDigits] at hread
  exact eq_of_hexDigits (Option.some.inj hread)

/-! ## Decimal digits -/

/-- A decimal digit can be read off its code unit. -/
theorem ofNat_toNat_unit {c : Char} (h : c.isDigit) : Char.ofNat (unit c).toNat = c := by
  have hlt : c.toNat < 2 ^ 16 := lt_of_le_of_lt (Char.isDigit_iff_toNat.mp h).2 (by decide)
  rw [unit, UInt16.toNat_ofNat', Nat.mod_eq_of_lt hlt, Char.ofNat_toNat]

theorem isDigit_of_mem_decimal {n : ℕ} {u : UInt16} (h : u ∈ decimal n) :
    ∃ c : Char, c.isDigit ∧ unit c = u := by
  obtain ⟨c, hc, rfl⟩ := List.mem_map.mp h
  exact ⟨c, Nat.isDigit_of_mem_toDigits (by norm_num) (by norm_num) hc, rfl⟩

/-- A decimal numeral reads as its number. -/
theorem ofDigitChars_decimal (n : ℕ) :
    Nat.ofDigitChars 10 ((decimal n).map fun u => Char.ofNat u.toNat) 0 = n := by
  have hdigits : (decimal n).map (fun u => Char.ofNat u.toNat) = Nat.toDigits 10 n := by
    rw [decimal, List.map_map]
    refine (List.map_congr_left fun c hc => ?_).trans (List.map_id _)
    exact ofNat_toNat_unit (Nat.isDigit_of_mem_toDigits (by norm_num) (by norm_num) hc)
  rw [hdigits]
  exact Nat.ofDigitChars_ten_toDigits

theorem toNat_unit_of_isDigit {c : Char} (h : c.isDigit) :
    48 ≤ (unit c).toNat ∧ (unit c).toNat ≤ 57 := by
  have hc := Char.isDigit_iff_toNat.mp h
  have hlt : c.toNat < 2 ^ 16 := lt_of_le_of_lt hc.2 (by decide)
  rw [unit, UInt16.toNat_ofNat', Nat.mod_eq_of_lt hlt]
  exact hc

/-! ## BigInts -/

namespace BigInt

variable {C : Type}

/-- `BigInt(x)` of a number. -/
def ofNumber (x : ℚ) : Except (Thrown C) ℤ := if x.den = 1 then .ok x.num else .error .engine

/-- `a / b`. -/
def div (a b : ℤ) : Except (Thrown C) ℤ := if b = 0 then .error .engine else .ok (a.tdiv b)

/-- What `BigInt` strips from the end of a text. -/
def isStrWhiteSpace (u : UInt16) : Bool :=
  (9 ≤ u.toNat && u.toNat ≤ 13) || u.toNat ∈ [0x20, 0xa0, 0x1680, 0x2028, 0x2029, 0x202f, 0x205f,
    0x3000, 0xfeff] || (0x2000 ≤ u.toNat && u.toNat ≤ 0x200a)

/-- `BigInt` of `0x` and a text. -/
def ofHex (text : JsString) : Except (Thrown C) ℤ :=
  match readHex (text.rdropWhile isStrWhiteSpace) with
  | none | some [] => .error .engine
  | some digits => .ok (hexValue digits)

/-- `x.toString()`. -/
def toText (x : ℤ) : JsString := (if x < 0 then js "-" else []) ++ decimal x.natAbs

/-- `x.toString(16)`. -/
def toHexText (x : ℤ) : JsString :=
  (if x < 0 then js "-" else []) ++ (Nat.toDigits 16 x.natAbs).map unit

/-- A numeral reads as its value. -/
theorem ofHex_of_readHex {text : JsString} {digits : List ℕ} (h : readHex text = some digits)
    (hne : digits ≠ []) : ofHex (C := C) text = .ok (hexValue digits) := by
  have hkeep : text.rdropWhile isStrWhiteSpace = text := by
    refine List.rdropWhile_eq_self_iff.mpr fun hl hspace => ?_
    obtain ⟨d, hd⟩ := Option.isSome_iff_exists.mp
      (isSome_readHex.mp (by rw [h]; rfl) _ (List.getLast_mem hl))
    obtain ⟨-, hlow, hhigh⟩ := hexValue?_eq_some hd
    simp [isStrWhiteSpace] at hspace
    omega
  cases digits with
  | nil => exact absurd rfl hne
  | cons d digits => simp [ofHex, hkeep, h]

theorem ofHex_lowerHex {digits : List ℕ} (hdigits : ∀ d ∈ digits, d < 16) (hne : digits ≠ []) :
    ofHex (C := C) (lowerHex digits) = .ok (hexValue digits) :=
  ofHex_of_readHex (readHex_lowerHex hdigits) hne

theorem ofNumber_natCast (n : ℕ) : ofNumber (C := C) n = .ok n := rfl

theorem div_of_ne_zero (a : ℤ) {b : ℤ} (h : b ≠ 0) : div (C := C) a b = .ok (a.tdiv b) := if_neg h

theorem toText_ascii {x : ℤ} {u : UInt16} (h : u ∈ toText x) : u.toNat < 0x80 := by
  rcases List.mem_append.mp h with hsign | hdigit
  · split_ifs at hsign
    · obtain rfl := List.mem_singleton.mp hsign
      decide
    · cases hsign
  · obtain ⟨c, hc, rfl⟩ := isDigit_of_mem_decimal hdigit
    have := (toNat_unit_of_isDigit hc).2
    omega

/-- Different numbers have different texts. -/
theorem toText_injective : Function.Injective toText := by
  intro x y h
  have hminus : ∀ n : ℕ, ∀ text, decimal n ≠ js "-" ++ text := by
    intro n text heq
    obtain ⟨c, hc, hunit⟩ := isDigit_of_mem_decimal (n := n) (u := unit '-')
      (by rw [heq]; exact List.mem_append_left _ (by decide))
    have := (toNat_unit_of_isDigit hc).1
    rw [hunit] at this
    exact absurd this (by decide)
  have habs : decimal x.natAbs = decimal y.natAbs → x.natAbs = y.natAbs := by
    intro hdecimal
    rw [← ofDigitChars_decimal x.natAbs, hdecimal, ofDigitChars_decimal]
  unfold toText at h
  split_ifs at h with hx hy hy
  · have := habs (List.append_cancel_left h)
    omega
  · exact absurd h.symm (hminus _ _)
  · exact absurd h (hminus _ _)
  · have := habs h
    omega

/-! ## Padded upper-case numerals -/

theorem toUpperCase_unit_digitChar {d : ℕ} (h : d < 16) :
    toUpperCase [unit (Nat.digitChar d)] = [upperHexDigit d] := by
  have : ∀ d < 16, toUpperCase [unit (Nat.digitChar d)] = [upperHexDigit d] := by decide
  exact this d h

theorem leftpad_append_singleton {α : Type} (n : ℕ) (a b : α) (l : List α) :
    List.leftpad (n + 1) a (l ++ [b]) = List.leftpad n a l ++ [b] := by
  simp [List.leftpad, Nat.succ_sub_succ]

/-- Padded with zeros, an upper-case numeral has the digits of its number. -/
theorem leftpad_toUpperCase (width : ℕ) {n : ℕ} (h : n < 16 ^ (width + 1)) :
    List.leftpad (width + 1) (unit '0') (toUpperCase ((Nat.toDigits 16 n).map unit)) =
      upperHex (hexDigits (width + 1) n) := by
  induction width generalizing n with
  | zero =>
    rw [Nat.toDigits_of_lt_base (by simpa using h), List.map_singleton,
      toUpperCase_unit_digitChar (by simpa using h)]
    simp [List.leftpad, hexDigits, upperHex, Nat.mod_eq_of_lt (show n < 16 by simpa using h)]
  | succ width ih =>
    have hrest := ih (n := n / 16) (by
      rw [pow_succ] at h
      exact Nat.div_lt_of_lt_mul (by omega))
    have hlast := toUpperCase_unit_digitChar (Nat.mod_lt n (by norm_num : 0 < 16))
    rw [hexDigits, upperHex, List.map_append, ← upperHex, ← hrest]
    rcases lt_or_ge n 16 with hsmall | hlarge
    · rw [Nat.toDigits_of_lt_base hsmall, Nat.div_eq_of_lt hsmall, Nat.toDigits_zero]
      rw [Nat.mod_eq_of_lt hsmall] at hlast ⊢
      rw [List.map_singleton, hlast]
      have hzero : List.leftpad (width + 1) (unit '0') (toUpperCase (List.map unit ['0'])) =
          List.leftpad (width + 1) (unit '0') [] := by
        rw [List.map_singleton, (by decide : toUpperCase [unit '0'] = [unit '0'])]
        simp [List.leftpad, List.replicate_succ']
      rw [hzero]
      exact leftpad_append_singleton (width + 1) (unit '0') (upperHexDigit n) []
    · rw [Nat.toDigits_of_base_le (by norm_num) hlarge, List.map_append, List.map_singleton,
        toUpperCase_append, hlast, leftpad_append_singleton]
      rfl

end BigInt

-- elaboration should compare digests as they are, without computing their digits
attribute [irreducible] hexDigits

end DwnServer
