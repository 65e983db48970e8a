import DwnServer.JsonRpc.Router
import DwnServer.Js.Writes

/-!
# The functions a router can hold

Handlers are functions on the heap of the process: objects that inherit from `Function.prototype`
and through it from `Object.prototype`. A `FunctionRealm` is a realm that says which of its objects
are functions; `handlerRealm` has the functions of the two prototypes and the handlers of the
repository.
-/
namespace DwnServer

variable {B : Type} [DecidableEq B]

/-- The built-in objects of a process together with its functions. A function inherits the accessor
`__proto__`, as an object literal does. -/
structure FunctionRealm (B : Type) [DecidableEq B] extends Realm B where
  callable : B → Bool
  standard : toRealm.Standard
  inherits : ∀ b, b = objectPrototype ∨ callable b = true →
    toRealm.start.find (depth - 1) (.builtin b) protoName = some .protoAccessor

/-- A function that can be registered. -/
structure FunctionRealm.JsonRpcHandler (realm : FunctionRealm B) where
  function : B
  callable : realm.callable function = true

/-! ## The objects of the process -/

/-- The functions of `Function.prototype`. -/
def functionPrototypeFunctions : List JsString :=
  [js "constructor", js "apply", js "bind", js "call", js "toString"]

/-- `Object.prototype`, `Function.prototype`, what they hold, and the handlers. -/
inductive ProcessObject where
  | objectPrototype
  | functionPrototype
  | arrayPrototype
  | primitivePrototype
  | objectFunction (name : JsString)
  | functionFunction (name : JsString)
  | handler (handler : Handler)
  deriving DecidableEq

def Handler.name : Handler → JsString
  | .handleDwnProcessMessage => js "handleDwnProcessMessage"
  | .handleSubscriptionsClose => js "handleSubscriptionsClose"

/-- A function that inherits from `Function.prototype`. -/
def functionObject (name : JsString) (parameters : ℕ) : JsObject ProcessObject where
  prototype := some (.builtin .functionPrototype)
  properties := (OrderedMap.empty.set (js "length")
    (.data (JsObject.lengthValue parameters) false false)).set (js "name")
      (.data (.string name) false false)

/-- The functions a prototype holds. -/
def withFunctions (function : JsString → ProcessObject) (names : List JsString) :
    OrderedMap JsString (Property ProcessObject) :=
  names.foldl (fun properties name =>
    properties.set name (.data (.object (.builtin (function name))) true false)) .empty

def processObject : ProcessObject → JsObject ProcessObject
  | .objectPrototype => {
      prototype := none
      properties :=
        (withFunctions .objectFunction objectPrototypeFunctions).set protoName .protoAccessor
      fixedPrototype := true }
  | .functionPrototype => {
      prototype := some (.builtin .objectPrototype)
      properties := ((((withFunctions .functionFunction functionPrototypeFunctions).set
        (js "length") (.data (JsObject.lengthValue 0) false false)).set
        (js "name") (.data (.string []) false false)).set
        (js "caller") .thrower).set (js "arguments") .thrower }
  | .arrayPrototype => {
      prototype := some (.builtin .objectPrototype)
      properties := .empty
      length := some 0 }
  | .primitivePrototype => {
      prototype := some (.builtin .objectPrototype)
      properties := .empty }
  | .objectFunction name | .functionFunction name => functionObject name 1
  | .handler handler => functionObject handler.name 2

/-- What the objects of the process hold: functions and texts that no loop visits, throwing
accessors, and the accessor `__proto__`. -/
inductive ProcessProperty (name : JsString) : Property ProcessObject → Prop where
  | object (r : ProcessObject) : ProcessProperty name (.data (.object (.builtin r)) true false)
  | primitive (p : Primitive) : ProcessProperty name (.data (.primitive p) false false)
  | protoAccessor (hname : name = protoName) : ProcessProperty name .protoAccessor
  | thrower : ProcessProperty name .thrower

theorem get?_withFunctions {function : JsString → ProcessObject} {names : List JsString}
    {name : JsString} {p : Property ProcessObject}
    (h : (withFunctions function names).get? name = some p) :
    name ∈ names ∧ p = .data (.object (.builtin (function name))) true false := by
  rcases OrderedMap.get?_foldl_set _ _ h with ⟨a, ha, rfl, rfl⟩ | hempty
  · exact ⟨ha, rfl⟩
  · simp at hempty

theorem processProperty_functionObject {function name : JsString} {parameters : ℕ}
    {p : Property ProcessObject}
    (h : (functionObject function parameters).properties.get? name = some p) :
    ProcessProperty name p := by
  simp only [functionObject, OrderedMap.get?_set, OrderedMap.get?_empty] at h
  split_ifs at h <;> obtain rfl := Option.some.inj h <;> exact .primitive _

theorem processProperty {b : ProcessObject} {name : JsString} {p : Property ProcessObject}
    (h : (processObject b).properties.get? name = some p) : ProcessProperty name p := by
  cases b with
  | objectPrototype =>
    simp only [processObject, OrderedMap.get?_set] at h
    split_ifs at h with hproto
    · obtain rfl := Option.some.inj h
      exact .protoAccessor hproto
    · obtain ⟨-, rfl⟩ := get?_withFunctions h
      exact .object _
  | functionPrototype =>
    simp only [processObject, OrderedMap.get?_set] at h
    split_ifs at h
    · exact Option.some.inj h ▸ .thrower
    · exact Option.some.inj h ▸ .thrower
    · exact Option.some.inj h ▸ .primitive _
    · exact Option.some.inj h ▸ .primitive _
    · obtain ⟨-, rfl⟩ := get?_withFunctions h
      exact .object _
  | arrayPrototype | primitivePrototype => simp [processObject] at h
  | objectFunction name' => exact processProperty_functionObject h
  | functionFunction name' => exact processProperty_functionObject h
  | handler handler => exact processProperty_functionObject h

def processRealm : Realm ProcessObject where
  objectPrototype := .objectPrototype
  arrayPrototype := .arrayPrototype
  primitivePrototype
    | .undefined | .null => none
    | _ => some .primitivePrototype
  toLength
    | .string s => arrayIndex? s
    | _ => none
  depth := 16
  builtins := processObject
  closed b := by
    refine ⟨fun r hr => ?_, fun name p h => ?_⟩
    · cases b <;> simp [processObject, functionObject] at hr <;> subst hr <;> trivial
    · cases processProperty h <;> trivial
  hidden b name p h := by
    cases processProperty h <;> rfl

theorem standard_processRealm : processRealm.Standard where
  depth_pos := by decide
  accessor b name h := by
    cases processProperty h with
    | protoAccessor hname => exact hname

/-- A function has no `__proto__` of its own. -/
theorem find_functionObject {b : ProcessObject} {name : JsString} {parameters : ℕ}
    (hb : processObject b = functionObject name parameters) :
    processRealm.start.find 15 (.builtin b) protoName = some .protoAccessor := by
  have hobject : processRealm.start.objects (.builtin b) = some (processObject b) := rfl
  have hown : (functionObject name parameters).own protoName = none := by
    rw [JsObject.own_of_ordinary rfl, functionObject, OrderedMap.get?_set, if_neg (by decide),
      OrderedMap.get?_set, if_neg (by decide)]
    rfl
  have hinherited : processRealm.start.find 14 (.builtin .functionPrototype) protoName =
      some .protoAccessor := by decide +kernel
  rw [Heap.find, hobject, hb]
  simp only [hown]
  exact hinherited

def handlerRealm : FunctionRealm ProcessObject where
  toRealm := processRealm
  callable
    | .functionPrototype | .objectFunction _ | .functionFunction _ | .handler _ => true
    | _ => false
  standard := standard_processRealm
  inherits b hb := by
    cases b with
    | objectPrototype | functionPrototype => decide +kernel
    | arrayPrototype | primitivePrototype => simp [processRealm] at hb
    | objectFunction name | functionFunction name => exact find_functionObject rfl
    | handler handler => exact find_functionObject rfl

/-- A handler of the repository as a function of the process. -/
def Handler.toFunction (handler : Handler) : handlerRealm.JsonRpcHandler :=
  ⟨.handler handler, rfl⟩

end DwnServer
