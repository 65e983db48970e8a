import Mathlib.Data.List.Basic

/-!
# JavaScript text

A JavaScript string is a sequence of UTF-16 code units, lone surrogates included.
`js` reads a Lean literal as such a sequence. `utf8` is the encoding Node applies when
a string is handed to a hash or a socket, with U+FFFD in the place of a lone surrogate.
-/
namespace DwnServer

abbrev JsString := List UInt16

instance : LawfulBEq JsString := inferInstance

/-- The code unit of a character of the basic multilingual plane. -/
def unit (c : Char) : UInt16 := UInt16.ofNat c.toNat

def codeUnits (c : Char) : JsString :=
  if c.toNat < 0x10000 then [unit c]
  else [UInt16.ofNat (0xD800 + (c.toNat - 0x10000) / 0x400),
    UInt16.ofNat (0xDC00 + (c.toNat - 0x10000) % 0x400)]

/-- A Lean string literal as a JavaScript string. -/
def js (s : String) : JsString := s.toList.flatMap codeUnits

theorem js_append (s t : String) : js (s ++ t) = js s ++ js t := by
  simp [js]

def isHighSurrogate (u : UInt16) : Bool := 0xD800 ≤ u.toNat && u.toNat < 0xDC00

def isLowSurrogate (u : UInt16) : Bool := 0xDC00 ≤ u.toNat && u.toNat < 0xE000

/-- The bytes of one code point, given as a number. -/
def utf8CodePoint (n : Nat) : List UInt8 :=
  if n < 0x80 then [UInt8.ofNat n]
  else if n < 0x800 then [UInt8.ofNat (0xC0 + n / 0x40), UInt8.ofNat (0x80 + n % 0x40)]
  else if n < 0x10000 then
    [UInt8.ofNat (0xE0 + n / 0x1000), UInt8.ofNat (0x80 + n / 0x40 % 0x40),
      UInt8.ofNat (0x80 + n % 0x40)]
  else
    [UInt8.ofNat (0xF0 + n / 0x40000), UInt8.ofNat (0x80 + n / 0x1000 % 0x40),
      UInt8.ofNat (0x80 + n / 0x40 % 0x40), UInt8.ofNat (0x80 + n % 0x40)]

/-- A code unit that is not part of a surrogate pair. -/
def utf8Unit (u : UInt16) : List UInt8 :=
  if isHighSurrogate u || isLowSurrogate u then utf8CodePoint 0xFFFD else utf8CodePoint u.toNat

def utf8 : JsString → List UInt8
  | [] => []
  | [u] => utf8Unit u
  | u :: v :: rest =>
    if isHighSurrogate u && isLowSurrogate v then
      utf8CodePoint (0x10000 + (u.toNat - 0xD800) * 0x400 + (v.toNat - 0xDC00)) ++ utf8 rest
    else utf8Unit u ++ utf8 (v :: rest)

/-- `toUpperCase` on ASCII text. -/
def toUpperCase (text : JsString) : JsString :=
  text.map fun u => if 97 ≤ u.toNat ∧ u.toNat ≤ 122 then u - 32 else u

theorem toUpperCase_append (s t : JsString) :
    toUpperCase (s ++ t) = toUpperCase s ++ toUpperCase t :=
  List.map_append

/-- ASCII text can be read off its encoding. -/
theorem map_toUInt16_utf8 {text : JsString} (h : ∀ u ∈ text, u.toNat < 0x80) :
    (utf8 text).map UInt8.toUInt16 = text := by
  have hunit : ∀ u : UInt16, u.toNat < 0x80 → (utf8Unit u).map UInt8.toUInt16 = [u] := by
    intro u hu
    have hhigh : isHighSurrogate u = false := by simp [isHighSurrogate]; omega
    have hlow : isLowSurrogate u = false := by simp [isLowSurrogate]; omega
    have hbyte : (UInt8.ofNat u.toNat).toUInt16 = u := by
      apply UInt16.toNat_inj.mp
      rw [UInt8.toNat_toUInt16, UInt8.toNat_ofNat_of_lt' (by simp [UInt8.size]; omega)]
    simp only [utf8Unit, utf8CodePoint, hhigh, hlow, hu, Bool.or_self, Bool.false_eq_true, if_false,
      if_true, List.map_cons, List.map_nil, hbyte]
  induction text using utf8.induct with
  | case1 => rfl
  | case2 u => simpa [utf8] using hunit u (h u (by simp))
  | case3 u v rest hpair ih =>
    have hu := h u (by simp)
    simp [isHighSurrogate] at hpair
    omega
  | case4 u v rest hpair ih =>
    obtain ⟨hu, hrest⟩ := List.forall_mem_cons.mp h
    rw [utf8, if_neg hpair, List.map_append, hunit u hu, ih hrest]
    rfl

end DwnServer
