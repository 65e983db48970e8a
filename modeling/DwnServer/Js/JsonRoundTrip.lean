import DwnServer.Js.NumberText

/-!
# `JSON.parse` of `JSON.stringify`

Every text that `JSON.stringify` writes is read back: as the value it was written from, but
for infinities, which it writes as `null`, and the sign of zero, which it leaves out.
-/
namespace DwnServer

namespace Json

/-! ## Strings -/

theorem js_quote : js "\"" = [unit '"'] := rfl

theorem js_comma : js "," = [unit ','] := rfl

theorem js_colon : js ":" = [unit ':'] := rfl

theorem js_openBracket : js "[" = [unit '['] := rfl

theorem js_closeBracket : js "]" = [unit ']'] := rfl

/-- `parseString` on a text that begins with the code unit `u` of the string. -/
def ReadsUnit (text : JsString) (u : UInt16) : Prop :=
  ∀ after, parseString (text ++ after) = (parseString after).map fun (s, rest) => (u :: s, rest)

theorem readsUnit_self {u : UInt16} (hquote : u ≠ unit '"') (hbackslash : u ≠ unit '\\')
    (hcontrol : 0x20 ≤ u.toNat) : ReadsUnit [u] u := by
  intro after
  rw [List.singleton_append, parseString.eq_def]
  simp only [hquote, hbackslash, not_lt.mpr hcontrol, if_false]
  cases parseString after <;> rfl

theorem readsUnit_escaped {e u : UInt16} (he : e ≠ unit 'u') (h : escaped? e = some u) :
    ReadsUnit [unit '\\', e] u := by
  intro after
  have hquote : unit '\\' ≠ unit '"' := by decide
  rw [List.cons_append, List.singleton_append, parseString.eq_def]
  simp only [hquote, he, h, if_false, if_true]
  cases parseString after <;> rfl

theorem hexValue?_hexDigit (n : ℕ) : hexValue? (hexDigit n) = some (n % 16) := by
  have hdigit : ∀ d < 16, hexValue? (unit (Nat.digitChar d)) = some d := by decide
  exact hdigit _ (Nat.mod_lt _ (by norm_num))

theorem readsUnit_escapeUnit (u : UInt16) : ReadsUnit (escapeUnit u) u := by
  intro after
  have hquote : unit '\\' ≠ unit '"' := by decide
  have htext : js "\\u" = [unit '\\', unit 'u'] := rfl
  have hvalue : UInt16.ofNat (u.toNat / 0x1000 % 16 * 0x1000 + u.toNat / 0x100 % 16 * 0x100 +
      u.toNat / 0x10 % 16 * 0x10 + u.toNat % 16) = u := by
    have hlt := u.toNat_lt
    have hsum : u.toNat / 0x1000 % 16 * 0x1000 + u.toNat / 0x100 % 16 * 0x100 +
        u.toNat / 0x10 % 16 * 0x10 + u.toNat % 16 = u.toNat := by omega
    rw [hsum, UInt16.ofNat_toNat]
  simp only [escapeUnit, htext, List.cons_append, List.nil_append]
  rw [parseString]
  simp only [hquote, if_false, if_true, hexValue?_hexDigit, Option.bind_eq_bind, Option.bind_some,
    hvalue]
  cases parseString after <;> rfl

theorem readsUnit_quoteUnit (u : UInt16) : ReadsUnit (quoteUnit u) u := by
  unfold quoteUnit
  split_ifs with h1 h2 h3 h4 h5 h6 h7 h8
  · exact h1 ▸ readsUnit_escaped (by decide) (by decide)
  · exact h2 ▸ readsUnit_escaped (by decide) (by decide)
  · exact h3 ▸ readsUnit_escaped (by decide) (by decide)
  · exact h4 ▸ readsUnit_escaped (by decide) (by decide)
  · exact h5 ▸ readsUnit_escaped (by decide) (by decide)
  · exact h6 ▸ readsUnit_escaped (by decide) (by decide)
  · exact h7 ▸ readsUnit_escaped (by decide) (by decide)
  · exact readsUnit_escapeUnit u
  · refine readsUnit_self h1 h2 (not_lt.mp fun hlt => h8 ?_)
    simp [hlt]

/-- A string is read back from between its quotes. -/
theorem parseString_quoteUnits (s rest : JsString) :
    parseString (quoteUnits s ++ unit '"' :: rest) = some (s, rest) := by
  have hend : parseString (unit '"' :: rest) = some ([], rest) := by
    rw [parseString.eq_def]
    exact if_pos rfl
  induction s using quoteUnits.induct with
  | case1 => exact hend
  | case2 u => rw [quoteUnits, readsUnit_quoteUnit u, hend]; rfl
  | case3 u v s hpair ih =>
    rw [quoteUnits, if_pos hpair]
    simp only [isHighSurrogate, isLowSurrogate, Bool.and_eq_true, decide_eq_true_eq] at hpair
    obtain ⟨⟨hhigh, -⟩, hlow, -⟩ := hpair
    have hplain : ∀ w : UInt16, 0xD800 ≤ w.toNat → ReadsUnit [w] w := by
      intro w hw
      apply readsUnit_self _ _ (by omega) <;> rintro rfl <;> revert hw <;> decide
    have hu := hplain u hhigh (v :: (quoteUnits s ++ unit '"' :: rest))
    have hv := hplain v (by omega) (quoteUnits s ++ unit '"' :: rest)
    rw [List.singleton_append] at hu hv
    rw [List.cons_append, List.cons_append, hu, hv, ih]
    rfl
  | case4 u v s hpair ih =>
    rw [quoteUnits, if_neg hpair, List.append_assoc, readsUnit_quoteUnit u, ih]
    rfl

/-! ## What is read back -/

/-- The value that `JSON.parse` reads from the text of `JSON.stringify`. -/
def reparsed : Json → Json
  | .number (.infinity _) => .null
  | .number .negativeZero => .number .zero
  | .array elements => .array (reparsedElements elements)
  | .object members => ofMembers (reparsedMembers members)
  | j => j
where
  reparsedElements : List Json → List Json
    | [] => []
    | j :: rest => reparsed j :: reparsedElements rest
  reparsedMembers : List (JsString × Json) → List (JsString × Json)
    | [] => []
    | (name, j) :: rest => (name, reparsed j) :: reparsedMembers rest

/-! ## Tokens -/

theorem skipWhitespace_cons {u : UInt16} (h : isWhitespace u = false) (rest : JsString) :
    skipWhitespace (u :: rest) = u :: rest := by
  simp [skipWhitespace, h]

theorem ends_cons {u : UInt16} (h : u ∈ [unit ',', unit ']', closeBrace]) (rest : JsString) :
    Ends (u :: rest) := by
  rintro v ⟨⟩
  simp only [List.mem_cons, List.not_mem_nil, or_false] at h
  rcases h with rfl | rfl | rfl <;> decide

theorem quote_append (s rest : JsString) :
    quote s ++ rest = unit '"' :: (quoteUnits s ++ unit '"' :: rest) := by
  simp [quote, js_quote]

theorem parseKeyword_append (word : String) (value : Json) (rest : JsString) :
    parseKeyword word value (js word ++ rest) = some (value, rest) := by
  simp [parseKeyword]

/-- A numeral begins with a digit or a minus sign. -/
theorem exists_cons_of_parseNumber {s : JsString} {p : JsNumber × JsString}
    (h : parseNumber s = some p) :
    ∃ u rest, s = u :: rest ∧ (u = unit '-' ∨ isDigit u = true) := by
  cases s with
  | nil => cases h
  | cons u rest =>
    refine ⟨u, rest, rfl, ?_⟩
    by_contra hu
    obtain ⟨hminus, hdigit⟩ := not_or.mp hu
    simp [parseNumber, hminus, hdigit] at h

section Numeral

variable {u : UInt16} (hu : u = unit '-' ∨ isDigit u = true)

include hu

theorem ne_of_numeral {v : UInt16} (hminus : v ≠ unit '-') (hdigit : isDigit v = false) :
    u ≠ v := by
  rintro rfl
  exact hu.elim hminus (by simp [hdigit])

theorem isWhitespace_of_numeral : isWhitespace u = false := by
  simp only [isWhitespace, Bool.or_eq_false_iff, decide_eq_false_iff_not]
  exact ⟨⟨⟨ne_of_numeral hu (by decide) (by decide), ne_of_numeral hu (by decide) (by decide)⟩,
    ne_of_numeral hu (by decide) (by decide)⟩, ne_of_numeral hu (by decide) (by decide)⟩

theorem parseValue_number (fuel : ℕ) (rest : JsString) :
    parseValue (fuel + 1) (u :: rest) =
      (parseNumber (u :: rest)).map fun (n, s) => (.number n, s) := by
  have hne : ∀ v ∈ [openBrace, unit '[', unit '"', unit 't', unit 'f', unit 'n'], u ≠ v := by
    intro v hv
    simp only [List.mem_cons, List.not_mem_nil, or_false] at hv
    rcases hv with rfl | rfl | rfl | rfl | rfl | rfl <;>
      exact ne_of_numeral hu (by decide) (by decide)
  rw [parseValue, skipWhitespace_cons (isWhitespace_of_numeral hu)]
  simp only [hne, List.mem_cons, true_or, or_true, if_false]

end Numeral

theorem parseValue_string (fuel : ℕ) (s rest : JsString) :
    parseValue (fuel + 1) (quote s ++ rest) = some (.string s, rest) := by
  have hspace : isWhitespace (unit '"') = false := by decide
  have hbrace : unit '"' ≠ openBrace := by decide
  have hbracket : unit '"' ≠ unit '[' := by decide
  rw [quote_append, parseValue, skipWhitespace_cons hspace]
  simp only [hbrace, hbracket, if_false, if_true, parseString_quoteUnits, Option.map_some]

theorem parseValue_null (fuel : ℕ) (rest : JsString) :
    parseValue (fuel + 1) (js "null" ++ rest) = some (.null, rest) :=
  parseKeyword_append "null" .null rest

theorem parseValue_bool (fuel : ℕ) (b : Bool) (rest : JsString) :
    parseValue (fuel + 1) ((if b then js "true" else js "false") ++ rest) =
      some (.bool b, rest) := by
  cases b with
  | false => exact parseKeyword_append "false" (.bool false) rest
  | true => exact parseKeyword_append "true" (.bool true) rest

theorem parseValue_finite (fuel : ℕ) (x : Double) {rest : JsString} (hrest : Ends rest) :
    parseValue (fuel + 1) ((JsNumber.finite x).toText ++ rest) =
      some (.number (.finite x), rest) := by
  have hread := JsNumber.parseNumber_toText x hrest
  obtain ⟨u, after, htext, hu⟩ := exists_cons_of_parseNumber hread
  rw [htext] at hread ⊢
  rw [parseValue_number hu, hread]
  rfl

/-- The text of a value begins neither with a space nor with a closing bracket. -/
theorem exists_cons_stringify (j : Json) :
    ∃ u text, j.stringify = u :: text ∧ isWhitespace u = false ∧ u ≠ unit ']' := by
  have hnull : js "null" = [unit 'n', unit 'u', unit 'l', unit 'l'] := rfl
  cases j with
  | null => exact ⟨_, _, hnull, by decide, by decide⟩
  | bool b =>
    cases b with
    | false =>
      have hfalse : js "false" = [unit 'f', unit 'a', unit 'l', unit 's', unit 'e'] := rfl
      exact ⟨_, _, hfalse, by decide, by decide⟩
    | true =>
      have htrue : js "true" = [unit 't', unit 'r', unit 'u', unit 'e'] := rfl
      exact ⟨_, _, htrue, by decide, by decide⟩
  | number n =>
    cases n with
    | finite x =>
      have hread := JsNumber.parseNumber_toText x (show Ends [] from nofun)
      rw [List.append_nil] at hread
      obtain ⟨u, text, htext, hu⟩ := exists_cons_of_parseNumber hread
      exact ⟨u, text, htext, isWhitespace_of_numeral hu,
        ne_of_numeral hu (by decide) (by decide)⟩
    | negativeZero => exact ⟨unit '0', [], by decide, by decide, by decide⟩
    | infinity => exact ⟨_, _, hnull, by decide, by decide⟩
  | string s => exact ⟨_, _, by rw [stringify, ← List.append_nil (quote s), quote_append],
      by decide, by decide⟩
  | array elements =>
    exact ⟨_, _, by rw [stringify, js_openBracket]; rfl, by decide, by decide⟩
  | object members => exact ⟨openBrace, _, rfl, by decide, by decide⟩

theorem parseElements_element {fuel : ℕ} {j value : Json} {u : UInt16} {after : JsString}
    (h : parseValue fuel (j.stringify ++ u :: after) = some (value, u :: after))
    (hu : isWhitespace u = false) :
    parseElements (fuel + 1) (j.stringify ++ u :: after) =
      if u = unit ']' then some ([value], after)
      else if u = unit ',' then
        (parseElements fuel after).map fun (elements, s) => (value :: elements, s)
      else none := by
  rw [parseElements, h]
  simp only [Option.bind_eq_bind, Option.bind_some, skipWhitespace_cons hu]
  cases parseElements fuel after <;> rfl

theorem parseMembers_member {fuel : ℕ} {name : JsString} {j value : Json} {u : UInt16}
    {after : JsString} (h : parseValue fuel (j.stringify ++ u :: after) = some (value, u :: after))
    (hu : isWhitespace u = false) :
    parseMembers (fuel + 1) (quote name ++ unit ':' :: (j.stringify ++ u :: after)) =
      if u = closeBrace then some ([(name, value)], after)
      else if u = unit ',' then
        (parseMembers fuel after).map fun (members, s) => ((name, value) :: members, s)
      else none := by
  have hquote : isWhitespace (unit '"') = false := by decide
  have hcolon : isWhitespace (unit ':') = false := by decide
  rw [quote_append, parseMembers, skipWhitespace_cons hquote]
  simp only [if_true, parseString_quoteUnits, Option.bind_eq_bind, Option.bind_some,
    skipWhitespace_cons hcolon, h, skipWhitespace_cons hu]
  cases parseMembers fuel after <;> rfl

/-! ## Brackets and braces -/

theorem stringify_array (elements : List Json) (rest : JsString) :
    (Json.array elements).stringify ++ rest =
      unit '[' :: (stringify.elementsText elements ++ unit ']' :: rest) := by
  simp [stringify, js_openBracket, js_closeBracket]

theorem stringify_object (members : List (JsString × Json)) (rest : JsString) :
    (Json.object members).stringify ++ rest =
      openBrace :: (stringify.membersText members ++ closeBrace :: rest) := by
  simp [stringify]

theorem elementsText_cons (j j' : Json) (elements : List Json) (rest : JsString) :
    stringify.elementsText (j :: j' :: elements) ++ rest =
      j.stringify ++ unit ',' :: (stringify.elementsText (j' :: elements) ++ rest) := by
  simp [stringify.elementsText, js_comma]

theorem membersText_singleton (name : JsString) (j : Json) (rest : JsString) :
    stringify.membersText [(name, j)] ++ rest =
      quote name ++ unit ':' :: (j.stringify ++ rest) := by
  simp [stringify.membersText, js_colon]

theorem membersText_cons (name : JsString) (j : Json) (member : JsString × Json)
    (members : List (JsString × Json)) (rest : JsString) :
    stringify.membersText ((name, j) :: member :: members) ++ rest =
      quote name ++ unit ':' ::
        (j.stringify ++ unit ',' :: (stringify.membersText (member :: members) ++ rest)) := by
  simp [stringify.membersText, js_colon, js_comma]

theorem exists_cons_elementsText {elements : List Json} (hne : elements ≠ []) (rest : JsString) :
    ∃ u text, stringify.elementsText elements ++ rest = u :: text ∧
      isWhitespace u = false ∧ u ≠ unit ']' := by
  obtain ⟨j, elements, rfl⟩ := List.exists_cons_of_ne_nil hne
  obtain ⟨u, text, htext, hspace, hclose⟩ := exists_cons_stringify j
  cases elements with
  | nil => exact ⟨u, _, by rw [stringify.elementsText, htext]; rfl, hspace, hclose⟩
  | cons j' elements => exact ⟨u, _, by rw [elementsText_cons, htext]; rfl, hspace, hclose⟩

theorem exists_cons_membersText {members : List (JsString × Json)} (hne : members ≠ [])
    (rest : JsString) : ∃ text, stringify.membersText members ++ rest = unit '"' :: text := by
  obtain ⟨⟨name, j⟩, members, rfl⟩ := List.exists_cons_of_ne_nil hne
  cases members with
  | nil => exact ⟨_, by rw [membersText_singleton, quote_append]⟩
  | cons member members => exact ⟨_, by rw [membersText_cons, quote_append]⟩

theorem parseValue_array {fuel : ℕ} {elements values : List Json} {rest : JsString}
    (hne : elements ≠ [])
    (h : parseElements fuel (stringify.elementsText elements ++ unit ']' :: rest) =
      some (values, rest)) :
    parseValue (fuel + 1) ((Json.array elements).stringify ++ rest) =
      some (.array values, rest) := by
  have hopen : isWhitespace (unit '[') = false := by decide
  have hbrace : unit '[' ≠ openBrace := by decide
  obtain ⟨u, text, htext, hspace, hclose⟩ := exists_cons_elementsText hne (unit ']' :: rest)
  rw [stringify_array, parseValue, skipWhitespace_cons hopen]
  simp only [hbrace, if_false, if_true]
  rw [htext] at h ⊢
  rw [skipWhitespace_cons hspace]
  simp only [hclose, if_false, h, Option.map_some]

theorem parseValue_object {fuel : ℕ} {members values : List (JsString × Json)} {rest : JsString}
    (hne : members ≠ [])
    (h : parseMembers fuel (stringify.membersText members ++ closeBrace :: rest) =
      some (values, rest)) :
    parseValue (fuel + 1) ((Json.object members).stringify ++ rest) =
      some (ofMembers values, rest) := by
  have hopen : isWhitespace openBrace = false := by decide
  have hquote : isWhitespace (unit '"') = false := by decide
  have hclose : unit '"' ≠ closeBrace := by decide
  obtain ⟨text, htext⟩ := exists_cons_membersText hne (closeBrace :: rest)
  rw [stringify_object, parseValue, skipWhitespace_cons hopen]
  simp only [if_true]
  rw [htext] at h ⊢
  rw [skipWhitespace_cons hquote]
  simp only [hclose, if_false, h, Option.map_some]

/-! ## The round trip -/

theorem length_stringify_pos (j : Json) : 0 < j.stringify.length := by
  obtain ⟨u, text, htext, -⟩ := exists_cons_stringify j
  simp [htext]

mutual

/-- With fuel for its text, a value is read back, whatever ends the text. -/
theorem parseValue_stringify : ∀ (j : Json) (fuel : ℕ) (rest : JsString),
    2 * j.stringify.length ≤ fuel → Ends rest →
      parseValue fuel (j.stringify ++ rest) = some (j.reparsed, rest)
  | j, 0, rest, hfuel, _ => by
    have := length_stringify_pos j
    omega
  | .null, fuel + 1, rest, _, _ => parseValue_null fuel rest
  | .bool b, fuel + 1, rest, _, _ => parseValue_bool fuel b rest
  | .number (.finite x), fuel + 1, rest, _, hrest => parseValue_finite fuel x hrest
  | .number .negativeZero, fuel + 1, rest, _, hrest => by
    have hzero : JsNumber.negativeZero.toText = JsNumber.zero.toText := rfl
    simp only [stringify, hzero]
    exact parseValue_finite fuel _ hrest
  | .number (.infinity _), fuel + 1, rest, _, _ => parseValue_null fuel rest
  | .string s, fuel + 1, rest, _, _ => parseValue_string fuel s rest
  | .array [], fuel + 1, rest, _, _ => rfl
  | .array (j :: elements), fuel + 1, rest, hfuel, _ => by
    have hlength := congrArg List.length (stringify_array (j :: elements) [])
    simp only [List.length_append, List.length_cons, List.length_nil] at hlength
    exact parseValue_array (by simp)
      (parseElements_elementsText (j :: elements) fuel rest (by simp) (by omega))
  | .object [], fuel + 1, rest, _, _ => rfl
  | .object (member :: members), fuel + 1, rest, hfuel, _ => by
    have hlength := congrArg List.length (stringify_object (member :: members) [])
    simp only [List.length_append, List.length_cons, List.length_nil] at hlength
    exact parseValue_object (by simp)
      (parseMembers_membersText (member :: members) fuel rest (by simp) (by omega))

theorem parseElements_elementsText : ∀ (elements : List Json) (fuel : ℕ) (rest : JsString),
    elements ≠ [] → 2 * (stringify.elementsText elements).length + 1 ≤ fuel →
      parseElements fuel (stringify.elementsText elements ++ unit ']' :: rest) =
        some (reparsed.reparsedElements elements, rest)
  | [], _, _, hne, _ => absurd rfl hne
  | [j], fuel + 1, rest, _, hfuel => by
    rw [stringify.elementsText] at hfuel ⊢
    have hread := parseValue_stringify j fuel (unit ']' :: rest) (by omega) (ends_cons (by simp) _)
    rw [parseElements_element hread (by decide), if_pos rfl]
    rfl
  | j :: j' :: elements, fuel + 1, rest, _, hfuel => by
    have hlength := congrArg List.length (elementsText_cons j j' elements [])
    simp only [List.length_append, List.length_cons, List.length_nil] at hlength
    have hread := parseValue_stringify j fuel
      (unit ',' :: (stringify.elementsText (j' :: elements) ++ unit ']' :: rest)) (by omega)
      (ends_cons (by simp) _)
    have hrest := parseElements_elementsText (j' :: elements) fuel rest (by simp) (by omega)
    rw [elementsText_cons, parseElements_element hread (by decide), if_neg (by decide), if_pos rfl,
      hrest]
    rfl

theorem parseMembers_membersText : ∀ (members : List (JsString × Json)) (fuel : ℕ)
    (rest : JsString), members ≠ [] → 2 * (stringify.membersText members).length + 1 ≤ fuel →
      parseMembers fuel (stringify.membersText members ++ closeBrace :: rest) =
        some (reparsed.reparsedMembers members, rest)
  | [], _, _, hne, _ => absurd rfl hne
  | [(name, j)], fuel + 1, rest, _, hfuel => by
    have hlength := congrArg List.length (membersText_singleton name j [])
    simp only [List.length_append, List.length_cons, List.length_nil] at hlength
    have hread := parseValue_stringify j fuel (closeBrace :: rest) (by omega)
      (ends_cons (by simp) _)
    rw [membersText_singleton, parseMembers_member hread (by decide), if_pos rfl]
    rfl
  | (name, j) :: member :: members, fuel + 1, rest, _, hfuel => by
    have hlength := congrArg List.length (membersText_cons name j member members [])
    simp only [List.length_append, List.length_cons, List.length_nil] at hlength
    have hread := parseValue_stringify j fuel
      (unit ',' :: (stringify.membersText (member :: members) ++ closeBrace :: rest)) (by omega)
      (ends_cons (by simp) _)
    have hrest := parseMembers_membersText (member :: members) fuel rest (by simp) (by omega)
    rw [membersText_cons, parseMembers_member hread (by decide), if_neg (by decide), if_pos rfl,
      hrest]
    rfl

end

/-- What `JSON.stringify` writes, `JSON.parse` reads. -/
theorem parse_stringify (j : Json) : parse j.stringify = some j.reparsed := by
  have hread := parseValue_stringify j (2 * j.stringify.length + 1) [] (by omega) nofun
  rw [List.append_nil] at hread
  rw [parse, hread]
  rfl

/-! ## Values that come back unchanged -/

/-- Numbers are finite and zero has no sign; members have distinct names and stand in the order
in which JavaScript enumerates them. -/
def Canonical : Json → Prop
  | .number (.infinity _) | .number .negativeZero => False
  | .array elements => CanonicalElements elements
  | .object members =>
    (members.map Prod.fst).Nodup ∧ enumerationOrder members = members ∧ CanonicalMembers members
  | _ => True
where
  CanonicalElements : List Json → Prop
    | [] => True
    | j :: rest => Canonical j ∧ CanonicalElements rest
  CanonicalMembers : List (JsString × Json) → Prop
    | [] => True
    | (_, j) :: rest => Canonical j ∧ CanonicalMembers rest

/-- Members have distinct names and stand in the order in which JavaScript enumerates them. -/
def Enumerated : Json → Prop
  | .array elements => EnumeratedElements elements
  | .object members =>
    (members.map Prod.fst).Nodup ∧ enumerationOrder members = members ∧ EnumeratedMembers members
  | _ => True
where
  EnumeratedElements : List Json → Prop
    | [] => True
    | j :: rest => Enumerated j ∧ EnumeratedElements rest
  EnumeratedMembers : List (JsString × Json) → Prop
    | [] => True
    | (_, j) :: rest => Enumerated j ∧ EnumeratedMembers rest

theorem canonical_number {n : JsNumber}
    (h : n ≠ .negativeZero ∧ ∀ negative, n ≠ .infinity negative) :
    (Json.number n).Canonical := by
  cases n with
  | finite x => trivial
  | negativeZero => exact absurd rfl h.1
  | infinity negative => exact absurd rfl (h.2 negative)

theorem foldl_define {members : List (JsString × Json)} (front : List (JsString × Json))
    (h : ((front ++ members).map Prod.fst).Nodup) :
    members.foldl (fun ms m => define ms m.1 m.2) front = front ++ members := by
  induction members generalizing front with
  | nil => simp
  | cons m members ih =>
    have hfresh : (front.any fun m' => m'.1 = m.1) = false := by
      rw [List.any_eq_false]
      intro m' hm'
      rw [List.map_append, List.nodup_append] at h
      simpa using h.2.2 _ (List.mem_map_of_mem hm') m.1 (by simp)
    have happend : define front m.1 m.2 = front ++ [m] := by simp [define, hfresh]
    rw [List.foldl_cons, happend, ih _ (by simpa using h)]
    simp

theorem ofMembers_of_nodup {members : List (JsString × Json)}
    (h : (members.map Prod.fst).Nodup) :
    ofMembers members = .object (enumerationOrder members) := by
  rw [ofMembers, foldl_define [] h]
  rfl

mutual

theorem reparsed_of_canonical : ∀ j : Json, j.Canonical → j.reparsed = j
  | .null, _ | .bool _, _ | .string _, _ | .number (.finite _), _ => rfl
  | .array elements, h => congrArg Json.array (reparsedElements_of_canonical elements h)
  | .object members, ⟨hnodup, horder, h⟩ => by
    rw [reparsed, reparsedMembers_of_canonical members h, ofMembers_of_nodup hnodup, horder]

theorem reparsedElements_of_canonical : ∀ elements : List Json,
    Canonical.CanonicalElements elements → reparsed.reparsedElements elements = elements
  | [], _ => rfl
  | j :: elements, ⟨hj, h⟩ => by
    rw [reparsed.reparsedElements, reparsed_of_canonical j hj,
      reparsedElements_of_canonical elements h]

theorem reparsedMembers_of_canonical : ∀ members : List (JsString × Json),
    Canonical.CanonicalMembers members → reparsed.reparsedMembers members = members
  | [], _ => rfl
  | (name, j) :: members, ⟨hj, h⟩ => by
    rw [reparsed.reparsedMembers, reparsed_of_canonical j hj,
      reparsedMembers_of_canonical members h]

end

theorem reparsedMembers_eq (members : List (JsString × Json)) :
    reparsed.reparsedMembers members = members.map fun m => (m.1, m.2.reparsed) := by
  induction members with
  | nil => rfl
  | cons m members ih => simp [reparsed.reparsedMembers, ih]

/-- The order of the members is one of their names. -/
theorem enumerationOrder_map (f : Json → Json) (members : List (JsString × Json)) :
    enumerationOrder (members.map fun m => (m.1, f m.2)) =
      (enumerationOrder members).map fun m => (m.1, f m.2) := by
  rw [enumerationOrder, enumerationOrder, List.map_append, List.filter_map, List.filter_map]
  congr 1
  let revalue (m : JsString × Json) : JsString × Json := (m.1, f m.2)
  exact (List.map_insertionSort _ _ revalue _ fun _ _ _ _ => Iff.rfl).symm

theorem reparsed_object {members : List (JsString × Json)} (hnodup : (members.map Prod.fst).Nodup)
    (horder : enumerationOrder members = members) :
    (Json.object members).reparsed = .object (reparsed.reparsedMembers members) := by
  have hnames : ((reparsed.reparsedMembers members).map Prod.fst) = members.map Prod.fst := by
    rw [reparsedMembers_eq, List.map_map]
    rfl
  rw [reparsed, ofMembers_of_nodup (hnames ▸ hnodup), reparsedMembers_eq, enumerationOrder_map,
    horder]

mutual

/-- A value and what is read back from its text have the same text. -/
theorem stringify_reparsed : ∀ j : Json, j.Enumerated → j.reparsed.stringify = j.stringify
  | .null, _ | .bool _, _ | .string _, _ | .number (.finite _), _ | .number (.infinity _), _ => rfl
  | .number .negativeZero, _ => by decide +kernel
  | .array elements, h => by
    rw [reparsed, stringify, stringify, elementsText_reparsed elements h]
  | .object members, ⟨hnodup, horder, h⟩ => by
    rw [reparsed_object hnodup horder, stringify, stringify, membersText_reparsed members h]

theorem elementsText_reparsed : ∀ elements : List Json, Enumerated.EnumeratedElements elements →
    stringify.elementsText (reparsed.reparsedElements elements) = stringify.elementsText elements
  | [], _ => rfl
  | [j], ⟨hj, _⟩ => stringify_reparsed j hj
  | j :: j' :: elements, ⟨hj, h⟩ => by
    have hrest := elementsText_reparsed (j' :: elements) h
    simp only [reparsed.reparsedElements, stringify.elementsText] at hrest ⊢
    rw [stringify_reparsed j hj, hrest]

theorem membersText_reparsed : ∀ members : List (JsString × Json),
    Enumerated.EnumeratedMembers members →
      stringify.membersText (reparsed.reparsedMembers members) = stringify.membersText members
  | [], _ => rfl
  | [(name, j)], ⟨hj, _⟩ => by
    simp only [reparsed.reparsedMembers, stringify.membersText, stringify_reparsed j hj]
  | (name, j) :: (name', j') :: members, ⟨hj, h⟩ => by
    have hrest := membersText_reparsed ((name', j') :: members) h
    simp only [reparsed.reparsedMembers, stringify.membersText] at hrest ⊢
    rw [stringify_reparsed j hj, hrest]

end

end Json

end DwnServer
