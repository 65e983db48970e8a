import DwnServer.Js.Json
import Mathlib.Data.List.Sort

/-!
# `JSON.parse` and `JSON.stringify`

Both follow ECMAScript on UTF-16 code units. Parsing is by recursive descent, with the
length of the text as fuel; a repeated member name keeps its first place and its last
value, and array-index names enumerate first. Stringification escapes what the standard
escapes: quotes, backslashes, control characters, and surrogates that have no partner.
-/
namespace DwnServer

namespace Json

/-! ## Objects in enumeration order -/

/-- Define a member, overwriting one of the same name in place. -/
def define (members : List (JsString × Json)) (name : JsString) (value : Json) :
    List (JsString × Json) :=
  if members.any fun m => m.1 = name then
    members.map fun m => if m.1 = name then (name, value) else m
  else members ++ [(name, value)]

def isDigit (u : UInt16) : Bool := 48 ≤ u.toNat && u.toNat ≤ 57

def digitsValue (digits : JsString) : ℕ := digits.foldl (fun n u => 10 * n + (u.toNat - 48)) 0

/-- Canonical decimal names below 2^32 - 1 are array indices. -/
def isArrayIndex (name : JsString) : Bool :=
  name.all isDigit && name = decimal (digitsValue name) && digitsValue name < 2 ^ 32 - 1

def enumerationOrder (members : List (JsString × Json)) : List (JsString × Json) :=
  (members.filter fun m => isArrayIndex m.1).insertionSort
      (fun m m' => digitsValue m.1 ≤ digitsValue m'.1) ++
    members.filter fun m => !isArrayIndex m.1

def ofMembers (members : List (JsString × Json)) : Json :=
  .object (enumerationOrder (members.foldl (fun ms m => define ms m.1 m.2) []))

/-! ## Parsing -/

def openBrace : UInt16 := 0x7b

def closeBrace : UInt16 := 0x7d

def isWhitespace (u : UInt16) : Bool :=
  u = unit ' ' || u = unit '\t' || u = unit '\n' || u = unit '\r'

def skipWhitespace (s : JsString) : JsString := s.dropWhile isWhitespace

def hexValue? (u : UInt16) : Option ℕ :=
  let n := u.toNat
  if 48 ≤ n ∧ n ≤ 57 then some (n - 48)
  else if 65 ≤ n ∧ n ≤ 70 then some (n - 55)
  else if 97 ≤ n ∧ n ≤ 102 then some (n - 87)
  else none

/-- The character after a backslash, apart from `u`. -/
def escaped? (u : UInt16) : Option UInt16 :=
  if u = unit '"' || u = unit '\\' || u = unit '/' then some u
  else if u = unit 'b' then some 8
  else if u = unit 'f' then some 12
  else if u = unit 'n' then some 10
  else if u = unit 'r' then some 13
  else if u = unit 't' then some 9
  else none

/-- The rest of a string literal, after its opening quote. -/
def parseString : JsString → Option (JsString × JsString)
  | [] => none
  | u :: rest =>
    if u = unit '"' then some ([], rest)
    else if u = unit '\\' then
      match rest with
      | [] => none
      | e :: rest =>
        if e = unit 'u' then
          match rest with
          | a :: b :: c :: d :: rest => do
            let a ← hexValue? a
            let b ← hexValue? b
            let c ← hexValue? c
            let d ← hexValue? d
            let (s, rest) ← parseString rest
            return (UInt16.ofNat (a * 0x1000 + b * 0x100 + c * 0x10 + d) :: s, rest)
          | _ => none
        else do
          let u ← escaped? e
          let (s, rest) ← parseString rest
          return (u :: s, rest)
    else if u.toNat < 0x20 then none
    else do
      let (s, rest) ← parseString rest
      return (u :: s, rest)

def parseFraction (s : JsString) : Option (JsString × JsString) :=
  match s with
  | u :: rest =>
    if u = unit '.' then
      let (digits, rest) := rest.span isDigit
      if digits = [] then none else some (digits, rest)
    else some ([], s)
  | [] => some ([], [])

def parseExponent (s : JsString) : Option (ℤ × JsString) :=
  match s with
  | u :: rest =>
    if u = unit 'e' || u = unit 'E' then
      let (negative, rest) := match rest with
        | v :: rest' =>
          if v = unit '-' then (true, rest') else if v = unit '+' then (false, rest')
          else (false, rest)
        | [] => (false, rest)
      let (digits, rest) := rest.span isDigit
      if digits = [] then none
      else some (if negative then -(digitsValue digits : ℤ) else digitsValue digits, rest)
    else some (0, s)
  | [] => some (0, [])

def parseNumber (s : JsString) : Option (JsNumber × JsString) := do
  let (negative, s) := match s with
    | u :: rest => if u = unit '-' then (true, rest) else (false, s)
    | [] => (false, s)
  let (whole, s) := s.span isDigit
  if whole = [] || (whole.head? = some (unit '0') && whole.length ≠ 1) then none
  let (fraction, s) ← parseFraction s
  let (exponent, s) ← parseExponent s
  let magnitude : ℚ := digitsValue (whole ++ fraction) * 10 ^ (exponent - fraction.length)
  return (.ofRat negative (if negative then -magnitude else magnitude), s)

/-- A keyword, when the text starts with it. -/
def parseKeyword (word : String) (value : Json) (s : JsString) : Option (Json × JsString) :=
  if (js word).isPrefixOf s then some (value, s.drop (js word).length) else none

mutual

def parseValue : ℕ → JsString → Option (Json × JsString)
  | 0, _ => none
  | fuel + 1, s =>
    match skipWhitespace s with
    | [] => none
    | u :: rest =>
      if u = openBrace then
        match skipWhitespace rest with
        | v :: rest' =>
          if v = closeBrace then some (.object [], rest')
          else (parseMembers fuel rest).map fun (members, s) => (ofMembers members, s)
        | [] => none
      else if u = unit '[' then
        match skipWhitespace rest with
        | v :: rest' =>
          if v = unit ']' then some (.array [], rest')
          else (parseElements fuel rest).map fun (elements, s) => (.array elements, s)
        | [] => none
      else if u = unit '"' then (parseString rest).map fun (text, s) => (.string text, s)
      else if u = unit 't' then parseKeyword "true" (.bool true) (u :: rest)
      else if u = unit 'f' then parseKeyword "false" (.bool false) (u :: rest)
      else if u = unit 'n' then parseKeyword "null" .null (u :: rest)
      else (parseNumber (u :: rest)).map fun (n, s) => (.number n, s)

/-- The elements of an array up to its closing bracket. -/
def parseElements : ℕ → JsString → Option (List Json × JsString)
  | 0, _ => none
  | fuel + 1, s => do
    let (element, s) ← parseValue fuel s
    match skipWhitespace s with
    | u :: rest =>
      if u = unit ']' then some ([element], rest)
      else if u = unit ',' then
        let (elements, s) ← parseElements fuel rest
        return (element :: elements, s)
      else none
    | [] => none

/-- The members of an object up to its closing brace. -/
def parseMembers : ℕ → JsString → Option (List (JsString × Json) × JsString)
  | 0, _ => none
  | fuel + 1, s =>
    match skipWhitespace s with
    | u :: rest =>
      if u = unit '"' then do
        let (name, s) ← parseString rest
        match skipWhitespace s with
        | c :: rest =>
          if c = unit ':' then
            let (value, s) ← parseValue fuel rest
            match skipWhitespace s with
            | u :: rest =>
              if u = closeBrace then some ([(name, value)], rest)
              else if u = unit ',' then
                let (members, s) ← parseMembers fuel rest
                return ((name, value) :: members, s)
              else none
            | [] => none
          else none
        | [] => none
      else none
    | [] => none

end

/-- `JSON.parse`, absent where it throws a `SyntaxError`. -/
def parse (s : JsString) : Option Json := do
  let (value, rest) ← parseValue (2 * s.length + 1) s
  if skipWhitespace rest = [] then some value else none

theorem ne_nil_of_parse {s : JsString} {value : Json} (h : parse s = some value) : s ≠ [] := by
  rintro rfl
  have hnil : parse [] = none := by decide +kernel
  exact absurd (hnil.symm.trans h) nofun

/-! ## Stringification -/

def hexDigit (n : ℕ) : UInt16 := unit (Nat.digitChar (n % 16))

def escapeUnit (u : UInt16) : JsString :=
  js "\\u" ++ [hexDigit (u.toNat / 0x1000), hexDigit (u.toNat / 0x100),
    hexDigit (u.toNat / 0x10), hexDigit u.toNat]

/-- A code unit that is not part of a surrogate pair. -/
def quoteUnit (u : UInt16) : JsString :=
  if u = unit '"' then js "\\\""
  else if u = unit '\\' then js "\\\\"
  else if u = 8 then js "\\b"
  else if u = 9 then js "\\t"
  else if u = 10 then js "\\n"
  else if u = 12 then js "\\f"
  else if u = 13 then js "\\r"
  else if u.toNat < 0x20 || isHighSurrogate u || isLowSurrogate u then escapeUnit u
  else [u]

def quoteUnits : JsString → JsString
  | [] => []
  | [u] => quoteUnit u
  | u :: v :: rest =>
    if isHighSurrogate u && isLowSurrogate v then u :: v :: quoteUnits rest
    else quoteUnit u ++ quoteUnits (v :: rest)

def quote (s : JsString) : JsString := js "\"" ++ quoteUnits s ++ js "\""

/-- `JSON.stringify` without indentation. -/
def stringify : Json → JsString
  | .null => js "null"
  | .bool b => if b then js "true" else js "false"
  | .number (.infinity _) => js "null"
  | .number n => n.toText
  | .string s => quote s
  | .array elements => js "[" ++ elementsText elements ++ js "]"
  | .object members => [openBrace] ++ membersText members ++ [closeBrace]
where
  elementsText : List Json → JsString
    | [] => []
    | [element] => stringify element
    | element :: rest => stringify element ++ js "," ++ elementsText rest
  membersText : List (JsString × Json) → JsString
    | [] => []
    | [(name, value)] => quote name ++ js ":" ++ stringify value
    | (name, value) :: rest => quote name ++ js ":" ++ stringify value ++ js "," ++ membersText rest

end Json

end DwnServer
