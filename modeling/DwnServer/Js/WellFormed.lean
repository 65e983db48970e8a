import DwnServer.Js.JsonRoundTrip

/-!
# Well-formed text

Text whose surrogates all stand in pairs is the UTF-16 of a sequence of characters, and two such
texts have the same UTF-8 only if they are the same. `JSON.stringify` writes no other text.
-/
namespace DwnServer

/-- `isWellFormed`: every surrogate is part of a pair. -/
def IsWellFormed (s : JsString) : Prop := ∃ text : String, js text = s

theorem isWellFormed_js (text : String) : IsWellFormed (js text) := ⟨text, rfl⟩

theorem IsWellFormed.append {s t : JsString} (hs : IsWellFormed s) (ht : IsWellFormed t) :
    IsWellFormed (s ++ t) := by
  obtain ⟨text, rfl⟩ := hs
  obtain ⟨text', rfl⟩ := ht
  exact ⟨text ++ text', js_append text text'⟩

/-! ## UTF-8 -/

theorem toNat_lt (c : Char) : c.toNat < 0xD800 ∨ 0xDFFF < c.toNat ∧ c.toNat < 0x110000 := c.valid

/-- The bytes of a code point are those that Lean encodes its character with. -/
theorem utf8CodePoint_toNat (c : Char) : utf8CodePoint c.toNat = String.utf8EncodeChar c := by
  have hc := toNat_lt c
  have hval : c.val.toNat = c.toNat := rfl
  unfold utf8CodePoint String.utf8EncodeChar
  simp only [hval]
  split_ifs <;> first | omega | skip
  · rfl
  · have hlead : c.toNat / 0x40 % 0x20 = c.toNat / 0x40 := Nat.mod_eq_of_lt (by omega)
    simp only [hlead, Nat.add_comm]
  · have hlead : c.toNat / 0x1000 % 0x10 = c.toNat / 0x1000 := Nat.mod_eq_of_lt (by omega)
    simp only [hlead, Nat.add_comm]
  · have hlead : c.toNat / 0x40000 % 0x8 = c.toNat / 0x40000 := Nat.mod_eq_of_lt (by omega)
    simp only [hlead, Nat.add_comm]

theorem utf8_cons {u : UInt16} (hu : isHighSurrogate u = false) (rest : JsString) :
    utf8 (u :: rest) = utf8Unit u ++ utf8 rest := by
  cases rest with
  | nil => simp [utf8]
  | cons v rest => simp [utf8, hu]

/-- A character of the basic multilingual plane is one code unit. -/
theorem codeUnits_of_lt {c : Char} (h : c.toNat < 0x10000) :
    ∃ u : UInt16, codeUnits c = [u] ∧ u.toNat = c.toNat ∧ isHighSurrogate u = false ∧
      isLowSurrogate u = false := by
  have hc := toNat_lt c
  have hunit : (unit c).toNat = c.toNat := UInt16.toNat_ofNat_of_lt' (by simpa [UInt16.size])
  refine ⟨unit c, if_pos h, hunit, ?_, ?_⟩
  · simp only [isHighSurrogate, hunit, Bool.and_eq_false_iff, decide_eq_false_iff_not]
    omega
  · simp only [isLowSurrogate, hunit, Bool.and_eq_false_iff, decide_eq_false_iff_not]
    omega

/-- Any other character is a pair of surrogates. -/
theorem codeUnits_of_le {c : Char} (h : 0x10000 ≤ c.toNat) :
    ∃ u v : UInt16, codeUnits c = [u, v] ∧ isHighSurrogate u = true ∧ isLowSurrogate v = true ∧
      0x10000 + (u.toNat - 0xD800) * 0x400 + (v.toNat - 0xDC00) = c.toNat := by
  have hc := toNat_lt c
  have hu : (UInt16.ofNat (0xD800 + (c.toNat - 0x10000) / 0x400)).toNat =
      0xD800 + (c.toNat - 0x10000) / 0x400 :=
    UInt16.toNat_ofNat_of_lt' (by simp only [UInt16.size]; omega)
  have hv : (UInt16.ofNat (0xDC00 + (c.toNat - 0x10000) % 0x400)).toNat =
      0xDC00 + (c.toNat - 0x10000) % 0x400 :=
    UInt16.toNat_ofNat_of_lt' (by simp only [UInt16.size]; omega)
  refine ⟨_, _, if_neg (not_lt.mpr h), ?_, ?_, ?_⟩
  · simp only [isHighSurrogate, hu, Bool.and_eq_true, decide_eq_true_eq]
    omega
  · simp only [isLowSurrogate, hv, Bool.and_eq_true, decide_eq_true_eq]
    omega
  · omega

theorem utf8_codeUnits_append (c : Char) (rest : JsString) :
    utf8 (codeUnits c ++ rest) = String.utf8EncodeChar c ++ utf8 rest := by
  rcases lt_or_ge c.toNat 0x10000 with h | h
  · obtain ⟨u, hunits, hu, hhigh, hlow⟩ := codeUnits_of_lt h
    rw [hunits, List.singleton_append, utf8_cons hhigh, utf8Unit, hhigh, hlow, hu,
      ← utf8CodePoint_toNat]
    rfl
  · obtain ⟨u, v, hunits, hhigh, hlow, hpoint⟩ := codeUnits_of_le h
    rw [hunits, List.cons_append, List.singleton_append, utf8, if_pos (by simp [hhigh, hlow]),
      hpoint, utf8CodePoint_toNat]

theorem utf8_flatMap_append (cs : List Char) (rest : JsString) :
    utf8 (cs.flatMap codeUnits ++ rest) = cs.flatMap String.utf8EncodeChar ++ utf8 rest := by
  induction cs with
  | nil => rfl
  | cons c cs ih =>
    rw [List.flatMap_cons, List.append_assoc, utf8_codeUnits_append, ih, List.flatMap_cons,
      List.append_assoc]

/-- A well-formed text is encoded as Lean encodes its characters. -/
theorem utf8_js (text : String) : utf8 (js text) = text.toList.flatMap String.utf8EncodeChar := by
  have hchars := utf8_flatMap_append text.toList []
  rwa [List.append_nil, utf8, List.append_nil] at hchars

theorem IsWellFormed.utf8_append {s : JsString} (hs : IsWellFormed s) (t : JsString) :
    utf8 (s ++ t) = utf8 s ++ utf8 t := by
  obtain ⟨text, rfl⟩ := hs
  rw [utf8_js, js, utf8_flatMap_append]

/-- Different well-formed texts have different encodings. -/
theorem IsWellFormed.utf8_inj {s t : JsString} (hs : IsWellFormed s) (ht : IsWellFormed t)
    (h : utf8 s = utf8 t) : s = t := by
  obtain ⟨text, rfl⟩ := hs
  obtain ⟨text', rfl⟩ := ht
  have hbytes : text.toList.utf8Encode = text'.toList.utf8Encode := by
    rw [utf8_js, utf8_js] at h
    exact congrArg List.toByteArray h
  rw [String.utf8Encode_toList, String.utf8Encode_toList, String.toByteArray_inj] at hbytes
  rw [hbytes]

/-! ## The text of `JSON.stringify` -/

theorem isWellFormed_codeUnits (c : Char) : IsWellFormed (codeUnits c) :=
  ⟨String.singleton c, by simp [js]⟩

/-- A code point that is no surrogate is one of a character. -/
theorem exists_char {n : ℕ} (h : n < 0xD800 ∨ 0xDFFF < n ∧ n < 0x110000) :
    ∃ c : Char, c.toNat = n :=
  ⟨Char.ofNatAux n h, rfl⟩

theorem isWellFormed_unit {u : UInt16} (hhigh : isHighSurrogate u = false)
    (hlow : isLowSurrogate u = false) : IsWellFormed [u] := by
  have hu := u.toNat_lt
  simp only [isHighSurrogate, isLowSurrogate, Bool.and_eq_false_iff, decide_eq_false_iff_not] at *
  obtain ⟨c, hc⟩ : ∃ c : Char, c.toNat = u.toNat := exists_char (by omega)
  obtain ⟨v, hunits, hv, -⟩ := codeUnits_of_lt (hc ▸ hu)
  obtain rfl : v = u := UInt16.toNat_inj.mp (hv.trans hc)
  exact hunits ▸ isWellFormed_codeUnits c

theorem isWellFormed_pair {u v : UInt16} (hu : isHighSurrogate u = true)
    (hv : isLowSurrogate v = true) : IsWellFormed [u, v] := by
  simp only [isHighSurrogate, isLowSurrogate, Bool.and_eq_true, decide_eq_true_eq] at *
  obtain ⟨c, hc⟩ : ∃ c : Char,
      c.toNat = 0x10000 + (u.toNat - 0xD800) * 0x400 + (v.toNat - 0xDC00) :=
    exists_char (by omega)
  obtain ⟨u', v', hunits, hu', hv', hpoint⟩ := codeUnits_of_le (c := c) (by omega)
  simp only [isHighSurrogate, isLowSurrogate, Bool.and_eq_true, decide_eq_true_eq] at hu' hv'
  obtain rfl : u' = u := UInt16.toNat_inj.mp (by omega)
  obtain rfl : v' = v := UInt16.toNat_inj.mp (by omega)
  exact hunits ▸ isWellFormed_codeUnits c

/-- Text without surrogates is well formed. -/
theorem isWellFormed_of_forall {s : JsString} (h : ∀ u ∈ s, u.toNat < 0xD800) :
    IsWellFormed s := by
  induction s with
  | nil => exact isWellFormed_js ""
  | cons u s ih =>
    obtain ⟨hu, hs⟩ := List.forall_mem_cons.mp h
    have hhigh : isHighSurrogate u = false := by simp [isHighSurrogate]; omega
    have hlow : isLowSurrogate u = false := by simp [isLowSurrogate]; omega
    exact (isWellFormed_unit hhigh hlow).append (ih hs)

namespace Json

theorem isWellFormed_escapeUnit (u : UInt16) : IsWellFormed (escapeUnit u) := by
  have hdigits : ∀ d < 16, (unit (Nat.digitChar d)).toNat < 0xD800 := by decide
  have hdigit : ∀ n, (hexDigit n).toNat < 0xD800 := fun n =>
    hdigits _ (Nat.mod_lt n (by norm_num))
  refine (isWellFormed_js "\\u").append (isWellFormed_of_forall ?_)
  simp only [List.forall_mem_cons, hdigit, List.not_mem_nil, false_implies, implies_true, and_self]

theorem isWellFormed_quoteUnit (u : UInt16) : IsWellFormed (quoteUnit u) := by
  unfold quoteUnit
  split_ifs with h1 h2 h3 h4 h5 h6 h7 hescape
  case neg =>
    simp only [Bool.or_eq_true, not_or, Bool.not_eq_true] at hescape
    exact isWellFormed_unit hescape.1.2 hescape.2
  all_goals first | exact isWellFormed_js _ | exact isWellFormed_escapeUnit u

theorem isWellFormed_quoteUnits (s : JsString) : IsWellFormed (quoteUnits s) := by
  induction s using quoteUnits.induct with
  | case1 => exact isWellFormed_js ""
  | case2 u => exact isWellFormed_quoteUnit u
  | case3 u v s hpair ih =>
    rw [quoteUnits, if_pos hpair]
    obtain ⟨hu, hv⟩ := Bool.and_eq_true_iff.mp hpair
    exact (isWellFormed_pair hu hv).append ih
  | case4 u v s hpair ih =>
    rw [quoteUnits, if_neg hpair]
    exact (isWellFormed_quoteUnit u).append ih

theorem isWellFormed_quote (s : JsString) : IsWellFormed (quote s) :=
  ((isWellFormed_js _).append (isWellFormed_quoteUnits s)).append (isWellFormed_js _)

theorem isWellFormed_toText (n : JsNumber) : IsWellFormed n.toText :=
  isWellFormed_of_forall fun u hu => by
    have := n.graphic_toText u hu
    omega

theorem isWellFormed_brace : IsWellFormed [openBrace] ∧ IsWellFormed [closeBrace] :=
  ⟨isWellFormed_of_forall (List.forall_mem_singleton.mpr (by decide)),
    isWellFormed_of_forall (List.forall_mem_singleton.mpr (by decide))⟩

mutual

/-- Everything that `JSON.stringify` writes is well formed. -/
theorem isWellFormed_stringify : ∀ j : Json, IsWellFormed j.stringify
  | .null => isWellFormed_js "null"
  | .bool true => isWellFormed_js "true"
  | .bool false => isWellFormed_js "false"
  | .number (.infinity _) => isWellFormed_js "null"
  | .number (.finite x) => isWellFormed_toText (.finite x)
  | .number .negativeZero => isWellFormed_toText .negativeZero
  | .string s => isWellFormed_quote s
  | .array elements =>
    ((isWellFormed_js "[").append (isWellFormed_elementsText elements)).append (isWellFormed_js "]")
  | .object members =>
    (isWellFormed_brace.1.append (isWellFormed_membersText members)).append isWellFormed_brace.2

theorem isWellFormed_elementsText : ∀ elements : List Json,
    IsWellFormed (stringify.elementsText elements)
  | [] => isWellFormed_js ""
  | [j] => isWellFormed_stringify j
  | j :: j' :: elements =>
    ((isWellFormed_stringify j).append (isWellFormed_js ",")).append
      (isWellFormed_elementsText (j' :: elements))

theorem isWellFormed_membersText : ∀ members : List (JsString × Json),
    IsWellFormed (stringify.membersText members)
  | [] => isWellFormed_js ""
  | [(name, j)] =>
    ((isWellFormed_quote name).append (isWellFormed_js ":")).append (isWellFormed_stringify j)
  | (name, j) :: member :: members =>
    ((((isWellFormed_quote name).append (isWellFormed_js ":")).append
      (isWellFormed_stringify j)).append (isWellFormed_js ",")).append
        (isWellFormed_membersText (member :: members))

end

end Json

end DwnServer
