import DwnServer.Js.Number

/-!
# JSON values as JavaScript reads them

A parsed JSON value, and the conversions the source applies to one it has not checked:
truthiness, property reads, and `String(value)`. An absent property is `undefined`, so
a value read from a request is an `Option Json`. The names the source reads are members
of no built-in prototype; a read of one from an array, a string or another primitive
gives `undefined`, and a read from `null` or `undefined` throws.
-/
namespace DwnServer

/-- A JSON value. The members of an object have distinct names and stand in the order in
which JavaScript enumerates them. -/
inductive Json where
  | null
  | bool (b : Bool)
  | number (n : JsNumber)
  | string (s : JsString)
  | array (elements : List Json)
  | object (members : List (JsString × Json))

/-- A JSON value or `undefined`. -/
abbrev JsValue := Option Json

/-- An exception in flight. The text of an exception the engine itself raises is not
fixed by the language, so it is left to the event that runs the code. -/
inductive Thrown (Code : Type) where
  | engine
  | server (code : Code) (message : JsString)
  | foreign (message : JsString)
  deriving DecidableEq

namespace Json

mutual

def beq : Json → Json → Bool
  | .null, .null => true
  | .bool a, .bool b => a = b
  | .number a, .number b => a = b
  | .string a, .string b => a = b
  | .array as, .array bs => beqElements as bs
  | .object as, .object bs => beqMembers as bs
  | _, _ => false

def beqElements : List Json → List Json → Bool
  | [], [] => true
  | a :: as, b :: bs => beq a b && beqElements as bs
  | _, _ => false

def beqMembers : List (JsString × Json) → List (JsString × Json) → Bool
  | [], [] => true
  | (m, a) :: as, (n, b) :: bs => decide (m = n) && beq a b && beqMembers as bs
  | _, _ => false

end

mutual

theorem beq_iff : ∀ a b : Json, beq a b = true ↔ a = b
  | .null, b | .bool _, b | .number _, b | .string _, b => by cases b <;> simp [beq]
  | .array as, b => by cases b <;> simp [beq, beqElements_iff as]
  | .object as, b => by cases b <;> simp [beq, beqMembers_iff as]

theorem beqElements_iff : ∀ as bs : List Json, beqElements as bs = true ↔ as = bs
  | [], bs => by cases bs <;> simp [beqElements]
  | a :: as, bs => by cases bs <;> simp [beqElements, beq_iff a, beqElements_iff as]

theorem beqMembers_iff : ∀ as bs : List (JsString × Json), beqMembers as bs = true ↔ as = bs
  | [], bs => by cases bs <;> simp [beqMembers]
  | (m, a) :: as, bs => by
    rcases bs with _ | ⟨⟨n, b⟩, bs⟩
    · simp [beqMembers]
    · simp [beqMembers, beq_iff a, beqMembers_iff as]

end

instance : DecidableEq Json := fun a b => decidable_of_iff _ (beq_iff a b)

def member (members : List (JsString × Json)) (name : JsString) : JsValue :=
  (members.find? fun m => m.1 = name).map Prod.snd

def truthy : Json → Bool
  | .null => false
  | .bool b => b
  | .number (.finite x) => x.value ≠ 0
  | .number .negativeZero => false
  | .number (.infinity _) => true
  | .string s => s ≠ []
  | .array _ | .object _ => true

def isObject : Json → Bool
  | .object _ => true
  | _ => false

/-- The value's own members; `undefined` for every name of a value that is no object. -/
def own : Json → JsString → JsValue
  | .object members, name => member members name
  | _, _ => none

/-- `String(value)`, absent where it throws: an own `toString` member of a JSON object is
never callable, and `valueOf` then yields the object again. -/
def toText? : Json → Option JsString
  | .null => some (js "null")
  | .bool b => some (if b then js "true" else js "false")
  | .number n => some n.toText
  | .string s => some s
  | .array elements => (elementTexts elements).map (List.intercalate (js ","))
  | .object members =>
    if (member members (js "toString")).isSome then none else some (js "[object Object]")
where
  elementTexts : List Json → Option (List JsString)
    | [] => some []
    | .null :: rest => (elementTexts rest).map ([] :: ·)
    | element :: rest => do
      let text ← toText? element
      let texts ← elementTexts rest
      return text :: texts

/-! ## What `JSON.stringify` keeps -/

/-- The value that the text of `JSON.stringify` denotes, up to the sign of zeros: a number
too large for a double is written as `null`. -/
def serialised : Json → Json
  | .number (.infinity _) => .null
  | .array elements => .array (serialisedElements elements)
  | .object members => .object (serialisedMembers members)
  | j => j
where
  serialisedElements : List Json → List Json
    | [] => []
    | j :: rest => serialised j :: serialisedElements rest
  serialisedMembers : List (JsString × Json) → List (JsString × Json)
    | [] => []
    | (name, j) :: rest => (name, serialised j) :: serialisedMembers rest

theorem serialisedMembers_eq (members : List (JsString × Json)) :
    serialised.serialisedMembers members = members.map fun m => (m.1, m.2.serialised) := by
  induction members with
  | nil => rfl
  | cons m rest ih => simp [serialised.serialisedMembers, ih]

@[simp] theorem own_serialised (j : Json) (name : JsString) :
    j.serialised.own name = (j.own name).map serialised := by
  cases j with
  | object members =>
    simp only [serialised, own, member, serialisedMembers_eq, List.find?_map, Option.map_map]
    rfl
  | number n => cases n <;> rfl
  | null | bool _ | string _ | array _ => rfl

end Json

namespace JsValue

def truthy (v : JsValue) : Bool := v.elim false Json.truthy

/-- `v == undefined`: the operand of `??` and `?.` that takes the other branch. -/
def isNullish : JsValue → Bool
  | none | some .null => true
  | _ => false

/-- `v.name`. -/
def read {C : Type} (v : JsValue) (name : String) : Except (Thrown C) JsValue :=
  match v with
  | none | some .null => .error .engine
  | some j => .ok (j.own (js name))

/-- `v?.name`. -/
def readOptional (v : JsValue) (name : String) : JsValue := v.bind fun j => j.own (js name)

/-- `-0` and `0` are one key of a `Map`, and equal. -/
def normalizeZero : JsValue → JsValue
  | some (.number .negativeZero) => some (.number (.ofInt 0))
  | v => v

/-- `v === w` for values that were parsed apart from each other. -/
def strictEquals (v w : JsValue) : Bool :=
  match v.normalizeZero with
  | some (.array _) | some (.object _) => false
  | v => v = w.normalizeZero

/-- `v === text`. -/
def isText (v : JsValue) (text : JsString) : Bool :=
  match v with
  | some (.string s) => s = text
  | _ => false

/-- `${v}` in a template literal, and `v` used as a property name. -/
def toText {C : Type} : JsValue → Except (Thrown C) JsString
  | none => .ok (js "undefined")
  | some j => j.toText?.elim (.error .engine) .ok

/-- A property read succeeds exactly when the value is not nullish. -/
theorem read_eq {C : Type} (v : JsValue) (name : String) :
    v.read (C := C) name = if v.isNullish then .error .engine else .ok (v.readOptional name) := by
  rcases v with _ | ⟨_ | _ | _ | _ | _ | _⟩ <;> rfl

theorem isNullish_of_truthy {v : JsValue} (h : v.truthy = true) : v.isNullish = false := by
  rcases v with _ | ⟨_ | _ | _ | _ | _ | _⟩ <;> first | rfl | cases h

/-- Only a value that is not nullish has members. -/
theorem isNullish_of_own {j : Json} {name : JsString} {value : Json}
    (h : j.own name = some value) : JsValue.isNullish (some j) = false := by
  cases j <;> first | rfl | cases h

theorem isNullish_of_readOptional {v : JsValue} {name : String}
    (h : (v.readOptional name).isNullish = false) : v.isNullish = false := by
  rcases v with _ | ⟨_ | _ | _ | _ | _ | _⟩ <;> first | rfl | cases h

end JsValue

end DwnServer
