import DwnServer.Library.OrderedMap
import DwnServer.Library.Script
import DwnServer.Js.Json
import DwnServer.Js.Prototype
import Mathlib.Logic.Function.Basic

/-!
# Objects and the built-ins they inherit from

The ordinary objects and arrays of ECMAScript: own properties in the order of their
creation, a prototype, and the reads and writes that walk the chain of prototypes. The
built-in objects stand on the same heap, one of each for the whole process; what they
hold at its start is the `Realm`, a parameter. Code runs in strict mode, so a write that
cannot be made throws. The objects a task makes are numbered by the task.
-/
namespace DwnServer

/-- An object: one of the built-ins `B`, or the `index`-th one that task `maker` made. -/
inductive Ref (B : Type) where
  | builtin (b : B)
  | made (maker index : Nat)
  deriving DecidableEq

/-- An object that the process starts with. -/
def Ref.IsBuiltin {B : Type} : Ref B → Prop
  | .builtin _ => True
  | .made _ _ => False

inductive Primitive where
  | undefined
  | null
  | boolean (b : Bool)
  | number (n : JsNumber)
  | string (s : JsString)
  deriving DecidableEq

/-- A value of the language, symbols and big integers apart. -/
inductive Value (B : Type) where
  | primitive (p : Primitive)
  | object (r : Ref B)
  deriving DecidableEq

namespace Value

variable {B : Type}

def undefined : Value B := .primitive .undefined

def string (s : JsString) : Value B := .primitive (.string s)

def truthy : Value B → Bool
  | .primitive .undefined | .primitive .null => false
  | .primitive (.boolean b) => b
  | .primitive (.number n) => (Json.number n).truthy
  | .primitive (.string s) => s ≠ []
  | .object _ => true

def isNullish : Value B → Bool
  | .primitive .undefined | .primitive .null => true
  | _ => false

/-- Each object the value refers to is in `S`. -/
def Within (S : Ref B → Prop) : Value B → Prop
  | .primitive _ => True
  | .object r => S r

end Value

/-- A property: a value, the accessor `__proto__`, or an accessor that throws. -/
inductive Property (B : Type) where
  | data (value : Value B) (writable enumerable : Bool)
  | protoAccessor
  | thrower
  deriving DecidableEq

namespace Property

variable {B : Type}

def Within (S : Ref B → Prop) : Property B → Prop
  | .data v _ _ => v.Within S
  | _ => True

def enumerable : Property B → Bool
  | .data _ _ e => e
  | _ => false

end Property

/-- `name` as an array index: a decimal number below `2 ^ 32 - 1` without leading zeros. -/
def arrayIndex? (name : JsString) : Option Nat :=
  let n := name.foldl (fun n u => 10 * n + (u.toNat - (unit '0').toNat)) 0
  if decimal n = name ∧ n < 2 ^ 32 - 1 then some n else none

/-- An object. `length` is there in an array, which keeps it above the indices it has;
the prototype of `Object.prototype` is fixed. -/
structure JsObject (B : Type) where
  prototype : Option (Ref B)
  properties : OrderedMap JsString (Property B)
  length : Option Nat := none
  fixedPrototype : Bool := false
  deriving DecidableEq

namespace JsObject

variable {B : Type}

def lengthValue (n : Nat) : Value B := .primitive (.number (.ofInt n))

def own (o : JsObject B) (name : JsString) : Option (Property B) :=
  match o.length with
  | some n =>
    if name = js "length" then some (.data (lengthValue n) true false)
    else o.properties.get? name
  | none => o.properties.get? name

/-- Set the value of an own property; a new one is enumerable. -/
def put (o : JsObject B) (name : JsString) (v : Value B) : JsObject B :=
  let enumerable := ((o.properties.get? name).map Property.enumerable).getD true
  { o with properties := o.properties.set name (.data v true enumerable) }

/-- Give an object an own property. An array grows with its indices; its `length` takes
what `toLength` makes of the value and drops the indices from there on. -/
def define (toLength : Value B → Option Nat) (o : JsObject B) (name : JsString) (v : Value B) :
    Option (JsObject B) :=
  match o.length with
  | none => some (o.put name v)
  | some n =>
    if name = js "length" then
      (toLength v).map fun m => { o with
        length := some m
        properties := o.properties.filter fun name _ => (arrayIndex? name).all (· < m) }
    else match arrayIndex? name with
      | some i => some { o.put name v with length := some (max n (i + 1)) }
      | none => some (o.put name v)

/-- The own names in the order of the language: the indices in ascending order, then the
others as they were created. -/
def names (o : JsObject B) : List JsString :=
  let index (name : JsString) : Nat := (arrayIndex? name).getD 0
  (o.properties.keys.filter fun name => (arrayIndex? name).isSome).mergeSort
      (fun m n => index m ≤ index n) ++
    (if o.length.isSome then [js "length"] else []) ++
    o.properties.keys.filter fun name => (arrayIndex? name).isNone

def enumerable (o : JsObject B) (name : JsString) : Bool :=
  (o.own name).any Property.enumerable

/-- The prototype is in `P` and the objects the properties hold are in `S`. -/
structure Within (P S : Ref B → Prop) (o : JsObject B) : Prop where
  prototype : ∀ r, o.prototype = some r → P r
  properties : ∀ name p, o.properties.get? name = some p → p.Within S

end JsObject

/-- The built-in objects at the start of the process: they refer to each other only, and
none of their properties is enumerable. `depth` bounds the chains of prototypes of the
process, and `toLength` is the length that a primitive value written to the `length` of
an array denotes. -/
structure Realm (B : Type) where
  objectPrototype : B
  arrayPrototype : B
  /-- The prototype a primitive value inherits from; none for `undefined` and `null`. -/
  primitivePrototype : Primitive → Option B
  toLength : Primitive → Option Nat
  depth : Nat
  builtins : B → JsObject B
  closed : ∀ b, (builtins b).Within Ref.IsBuiltin Ref.IsBuiltin
  hidden : ∀ b name p, (builtins b).properties.get? name = some p → p.enumerable = false

/-- The objects of the process, the task that runs and how many objects it has made. -/
structure Heap (B : Type) where
  objects : Ref B → Option (JsObject B)
  maker : Nat
  made : Nat

namespace Heap

variable {B : Type}

/-- The property that `r` has under a name or inherits, `fuel` objects up the chain. -/
def find (h : Heap B) : Nat → Ref B → JsString → Option (Property B)
  | 0, _, _ => none
  | fuel + 1, r, name =>
    match h.objects r with
    | none => none
    | some o =>
      match o.own name with
      | some p => some p
      | none =>
        match o.prototype with
        | none => none
        | some parent => find h fuel parent name

/-- The names `for (const name in r)` visits: those of the object, then those it inherits
and does not hide, where they are enumerable. -/
def forIn (h : Heap B) : Nat → List JsString → Ref B → List JsString
  | 0, _, _ => []
  | fuel + 1, hidden, r =>
    match h.objects r with
    | none => []
    | some o =>
      let visible := o.names.filter fun name => o.enumerable name && name ∉ hidden
      match o.prototype with
      | none => visible
      | some parent => visible ++ forIn h fuel (hidden ++ o.names) parent

def store [DecidableEq B] (h : Heap B) (r : Ref B) (o : JsObject B) : Heap B :=
  { h with objects := Function.update h.objects r (some o) }

@[simp] theorem store_self [DecidableEq B] (h : Heap B) (r : Ref B) (o : JsObject B) :
    (h.store r o).objects r = some o := Function.update_self ..

@[simp] theorem store_of_ne [DecidableEq B] {h : Heap B} {r r' : Ref B} {o : JsObject B}
    (hne : r' ≠ r) : (h.store r o).objects r' = h.objects r' := Function.update_of_ne hne ..

/-- `r` is on the chain of prototypes that starts at `start`. -/
def onChain [DecidableEq B] (h : Heap B) (r : Ref B) : Nat → Ref B → Bool
  | 0, _ => false
  | fuel + 1, start =>
    start = r || match (h.objects start).bind JsObject.prototype with
      | some parent => onChain h r fuel parent
      | none => false

end Heap

/-- A new object of the task that runs. -/
def make {B : Type} [DecidableEq B] (o : JsObject B) : Script (Heap B) (Value B) := do
  let r ← Script.reads fun h => Ref.made h.maker h.made
  Script.writes fun h => some { h.store r o with made := h.made + 1 }
  return .object r

namespace Realm

variable {B : Type} [DecidableEq B] (realm : Realm B)

def start : Heap B where
  objects
    | .builtin b => some (realm.builtins b)
    | .made _ _ => none
  maker := 0
  made := 0

/-- `{}`. -/
def emptyObject : JsObject B where
  prototype := some (.builtin realm.objectPrototype)
  properties := .empty

/-! ## Reading -/

/-- The own properties of a string: its length and its code units. -/
def ownOfPrimitive : Primitive → JsString → Option (Property B)
  | .string s, name =>
    if name = js "length" then some (.data (JsObject.lengthValue s.length) false false)
    else do
      let i ← arrayIndex? name
      let u ← s[i]?
      return .data (.string [u]) false true
  | _, _ => none

def lookup (h : Heap B) (v : Value B) (name : JsString) : Option (Property B) :=
  match v with
  | .object r => h.find realm.depth r name
  | .primitive p =>
    match ownOfPrimitive p name with
    | some property => some property
    | none => (realm.primitivePrototype p).bind fun b => h.find realm.depth (.builtin b) name

def prototypeOf (h : Heap B) : Value B → Value B
  | .object r =>
    match (h.objects r).bind JsObject.prototype with
    | some parent => .object parent
    | none => .primitive .null
  | .primitive p => ((realm.primitivePrototype p).map fun b => .object (.builtin b)).getD .undefined

/-- What a read of the property from `v` yields. -/
def valueOf (v : Value B) : Option (Property B) → Script (Heap B) (Value B)
  | none => pure .undefined
  | some (.data x _ _) => pure x
  | some .protoAccessor => Script.reads fun h => realm.prototypeOf h v
  | some .thrower => Script.fail

/-- `v[name]`. -/
def get (v : Value B) (name : JsString) : Script (Heap B) (Value B) := do
  if v.isNullish then Script.fail
  else
    let property ← Script.reads fun h => realm.lookup h v name
    realm.valueOf v property

/-! ## Writing -/

/-- The length a value denotes. An array denotes what its only element does, and zero when
it is empty: its text is the texts of its elements, joined by commas. -/
def lengthOf (h : Heap B) : Nat → Value B → Option Nat
  | _, .primitive p => realm.toLength p
  | 0, .object _ => none
  | fuel + 1, .object r =>
    match h.objects r with
    | none => none
    | some o =>
      match o.length, o.properties.get? (js "0") with
      | some 0, _ => realm.toLength (.string [])
      | some 1, some (.data x _ _) =>
        if x.isNullish then realm.toLength (.string []) else lengthOf h fuel x
      | some 1, _ => realm.toLength (.string [])
      | _, _ => none

def defineOwn (r : Ref B) (name : JsString) (v : Value B) : Script (Heap B) Unit :=
  Script.writes fun h => do
    let o ← h.objects r
    let o' ← o.define (realm.lengthOf h realm.depth) name v
    return h.store r o'

/-- Give an object another prototype, unless it is fixed or a cycle would arise. -/
def replacePrototype (r : Ref B) (parent : Option (Ref B)) : Script (Heap B) Unit :=
  Script.writes fun h => do
    let o ← h.objects r
    if o.prototype = parent then return h
    else if o.fixedPrototype || parent.any (h.onChain r realm.depth) then none
    else return h.store r { o with prototype := parent }

/-- The setter of `__proto__`. -/
def setPrototype : Value B → Value B → Script (Heap B) Unit
  | .object r, .object parent => realm.replacePrototype r (some parent)
  | .object r, .primitive .null => realm.replacePrototype r none
  | _, _ => pure ()

/-- What a write of `x` to `v` does, given the property that stands under the name. -/
def assign (v : Value B) (name : JsString) (x : Value B) :
    Option (Property B) → Script (Heap B) Unit
  | some .protoAccessor => realm.setPrototype v x
  | some .thrower | some (.data _ false _) => Script.fail
  | some (.data _ true _) | none =>
    match v with
    | .object r => realm.defineOwn r name x
    | .primitive _ => Script.fail

/-- `v[name] = x`. -/
def set (v : Value B) (name : JsString) (x : Value B) : Script (Heap B) Unit := do
  if v.isNullish then Script.fail
  else
    let property ← Script.reads fun h => realm.lookup h v name
    realm.assign v name x property

end Realm

/-! ## `Object.prototype` and its functions -/

inductive BuiltIn where
  | objectPrototype
  | functionPrototype
  | arrayPrototype
  | primitivePrototype
  /-- The function that `Object.prototype` holds under a name. -/
  | objectFunction (name : JsString)
  deriving DecidableEq

def builtInObject : BuiltIn → JsObject BuiltIn
  | .objectPrototype => {
      prototype := none
      properties := (objectPrototypeFunctions.foldl (fun properties name =>
        properties.set name (.data (.object (.builtin (.objectFunction name))) true false))
          OrderedMap.empty).set protoName .protoAccessor
      fixedPrototype := true }
  | .functionPrototype | .primitivePrototype => {
      prototype := some (.builtin .objectPrototype)
      properties := .empty }
  | .arrayPrototype => {
      prototype := some (.builtin .objectPrototype)
      properties := .empty
      length := some 0 }
  | .objectFunction name => {
      prototype := some (.builtin .functionPrototype)
      properties := OrderedMap.empty.set (js "name") (.data (.string name) false false) }

theorem builtInObject_property {b : BuiltIn} {name : JsString} {p : Property BuiltIn}
    (h : (builtInObject b).properties.get? name = some p) :
    p.Within Ref.IsBuiltin ∧ p.enumerable = false := by
  cases b with
  | objectPrototype =>
    simp only [builtInObject, OrderedMap.get?_set] at h
    split_ifs at h with hname
    · cases h
      exact ⟨trivial, rfl⟩
    · rcases OrderedMap.get?_foldl_set _ _ h with ⟨_, _, _, rfl⟩ | hempty
      · exact ⟨trivial, rfl⟩
      · exact absurd hempty (by simp)
  | functionPrototype | primitivePrototype | arrayPrototype => simp [builtInObject] at h
  | objectFunction name' =>
    simp only [builtInObject, OrderedMap.get?_set, OrderedMap.get?_empty] at h
    split_ifs at h with hname
    cases h
    exact ⟨trivial, rfl⟩

/-- A realm with the whole of `Object.prototype`; the other prototypes only inherit. -/
def objectRealm : Realm BuiltIn where
  objectPrototype := .objectPrototype
  arrayPrototype := .arrayPrototype
  primitivePrototype
    | .undefined | .null => none
    | _ => some .primitivePrototype
  toLength
    | .string s => arrayIndex? s
    | _ => none
  depth := 16
  builtins := builtInObject
  closed b :=
    ⟨fun r hr => by cases b <;> simp_all [builtInObject] <;> subst hr <;> trivial,
      fun _ _ h => (builtInObject_property h).1⟩
  hidden _ _ _ h := (builtInObject_property h).2

end DwnServer
