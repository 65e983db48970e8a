import DwnServer.Js.Heap
import DwnServer.Js.Prototype

/-!
# The options of a query

`GET /:did/query` and `GET /:did/read/protocols/:protocol/*` turn the parameters of the
query string, whose names may be dotted, into the nested options of a `RecordsQuery`.
`req.query` is what the query parser delivers, a JSON-like object with arbitrary names;
`decodeProtocol` is `Convert.base64Url(protocol).toString()`, absent where it throws.
Nothing in between is awaited, so no other code runs while the options are built.
-/
namespace DwnServer

variable {B : Type} [DecidableEq B] (realm : Realm B)

/-! ## `req.query` -/

def arrayObject (values : List (Value B)) : JsObject B where
  prototype := some (.builtin realm.arrayPrototype)
  properties := values.zipIdx.foldl
    (fun properties e => properties.set (decimal e.2) (.data e.1 true true)) .empty
  length := some values.length

def memberObject (members : List (JsString × Value B)) : JsObject B :=
  { realm.emptyObject with
    properties := members.foldl
      (fun properties m => properties.set m.1 (.data m.2 true true)) .empty }

/-- Put a parsed value on the heap. -/
def materialise : Json → Script (Heap B) (Value B)
  | .null => return .primitive .null
  | .bool b => return .primitive (.boolean b)
  | .number n => return .primitive (.number n)
  | .string s => return .string s
  | .array elements => do
    let values ← materialiseElements elements
    make (arrayObject realm values)
  | .object members => do
    let members ← materialiseMembers members
    make (memberObject realm members)
where
  materialiseElements : List Json → Script (Heap B) (List (Value B))
    | [] => return []
    | j :: rest => do
      let v ← materialise j
      let vs ← materialiseElements rest
      return v :: vs
  materialiseMembers : List (JsString × Json) → Script (Heap B) (List (JsString × Value B))
    | [] => return []
    | (name, j) :: rest => do
      let v ← materialise j
      let vs ← materialiseMembers rest
      return (name, v) :: vs

/-! ## The loop over the parameters -/

/-- `value || {}`. -/
def orEmpty (value : Value B) : Script (Heap B) (Value B) :=
  if value.truthy then pure value else make realm.emptyObject

/-- `(obj, key) => obj[key] = obj[key] || {}`. -/
def nextLevel (obj : Value B) (key : JsString) : Script (Heap B) (Value B) := do
  let value ← realm.get obj key
  let level ← orEmpty realm value
  realm.set obj key level
  return level

/-- `param.split('.')`, the last key apart. -/
def splitParam (param : JsString) : List JsString × JsString :=
  let keys := param.splitOn (unit '.')
  (keys.dropLast, keys.getLast?.getD [])

def addParam (query options : Value B) (param : JsString) : Script (Heap B) Unit := do
  let (keys, lastKey) := splitParam param
  let lastLevelObject ← keys.foldlM (nextLevel realm) options
  let value ← realm.get query param
  realm.set lastLevelObject lastKey value

/-- The names `for (const param in req.query)` visits. -/
def paramsOf (h : Heap B) : Value B → List JsString
  | .object r => h.forIn realm.depth [] r
  | .primitive _ => []

def addParams (query options : Value B) : Script (Heap B) Unit := do
  let params ← Script.reads fun h => paramsOf realm h query
  params.foldlM (fun _ param => addParam realm query options param) ()

/-! ## The routes -/

/-- `path.replace(/^\/|\/$/, '')`: the first match goes, which is a leading slash when
there is one. -/
def replaceLeadTailSlash (path : JsString) : JsString :=
  if path.head? = some (unit '/') then path.tail
  else if path.getLast? = some (unit '/') then path.dropLast
  else path

inductive OptionsRoute where
  | query
  | readProtocols (protocol path : JsString)
  deriving DecidableEq

structure OptionsRequest where
  route : OptionsRoute
  query : List (JsString × Json)
  deriving DecidableEq

variable (decodeProtocol : JsString → Option JsString)

/-- The options object the parameters are added to: `{}` or `{ filter: {} }`. A read
without a path is refused. -/
def newOptions : OptionsRoute → Script (Heap B) (Value B)
  | .query => make realm.emptyObject
  | .readProtocols _ path => do
    if path = [] then Script.fail
    else
      let filter ← make realm.emptyObject
      make (memberObject realm [(js "filter", filter)])

/-- What a read writes over the parameters. -/
def addProtocol (options : Value B) : OptionsRoute → Script (Heap B) Unit
  | .query => return ()
  | .readProtocols protocol path =>
    match decodeProtocol protocol with
    | none => Script.fail
    | some protocol => do
      let filter ← realm.get options (js "filter")
      realm.set filter (js "protocol") (.string protocol)
      let filter ← realm.get options (js "filter")
      realm.set filter (js "protocolPath") (.string (replaceLeadTailSlash path))

/-- `req.query` and the options before the first parameter. -/
def beginOptions (request : OptionsRequest) : Script (Heap B) (Value B × Value B) := do
  let query ← materialise realm (.object request.query)
  let options ← newOptions realm request.route
  return (query, options)

/-- The `recordsQueryOptions` or `queryOptions` of a handler; it fails where the handler
answers an error before it has them. -/
def buildOptions (request : OptionsRequest) : Script (Heap B) (Value B) := do
  let (query, options) ← beginOptions realm request
  addParams realm query options
  addProtocol realm decodeProtocol options request.route
  return options

/-! ## A process that serves one request after another -/

structure OptionsProcess (B : Type) where
  heap : Heap B
  served : Nat

namespace OptionsProcess

/-- The heap at the start of request number `served`. -/
def begin (p : OptionsProcess B) : Heap B := { p.heap with maker := p.served, made := 0 }

/-- A process that has served nothing and calls its first request `n`. -/
def fresh (n : Nat) : OptionsProcess B := ⟨realm.start, n⟩

def step (p : OptionsProcess B) (request : OptionsRequest) : Option (OptionsProcess B) :=
  some ⟨(buildOptions realm decodeProtocol request p.begin).2, p.served + 1⟩

end OptionsProcess

end DwnServer
