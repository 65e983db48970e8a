import DwnServer.Http.ProtocolPath
import DwnServer.Http.RecordsRead
import DwnServer.Library.Numbered

/-!
# The routes of anonymous readers

The GET routes below a DID put questions to the DWN that nobody has signed, and turn its replies
into answers. Between a question and its reply other requests run. They share the objects that
all options are built on, and nothing else.
-/
namespace DwnServer

open Transition

/-- The reply of the DWN to a RecordsQuery or a ProtocolsQuery, with a status that HTTP can send.
A reply with the status 200 lists its entries. `members` is the rest of it as it serialises. -/
structure QueryReply where
  statusCode : ℕ
  statusDetail : JsString
  entries : Option (List Json)
  members : List (JsString × Json)
  sendable : 100 ≤ statusCode ∧ statusCode ≤ 999
  listed : statusCode = 200 → entries.isSome

def QueryReply.toJson (reply : QueryReply) : Json :=
  .object ((js "status", .object [(js "code", .number (.ofInt reply.statusCode)),
    (js "detail", .string reply.statusDetail)]) ::
    (reply.entries.map fun entries => (js "entries", .array entries)).toList ++ reply.members)

inductive DwnListing where
  | queried (reply : QueryReply)
  | read (reply : RecordsReadReply)

/-- What a reader is sent: the message of a status, a text, a JSON text, or the record's data. -/
inductive GetAnswer where
  | sendStatus (status : ℕ)
  | text (status : ℕ) (body : JsString)
  | json (status : JsNumber) (body : JsString)
  | data (contentType dwnResponse : JsString)

def ReadAnswer.toGetAnswer : ReadAnswer → GetAnswer
  | .sendStatus status => .sendStatus status
  | .send status body => .json status ((ReadAnswer.send status body).body.getD [])
  | .data contentType dwnResponse => .data contentType dwnResponse

/-- The routes, with what they read of the path and the parameters. -/
inductive GetRoute where
  | readPath (protocol path : JsString) (query : List (JsString × Json))
  | readProtocol (protocol : JsString)
  | readRecords (id : JsString)
  | records (id : JsString)
  | queryProtocols
  | query (query : List (JsString × Json))
  deriving DecidableEq

/-- Where a handler is: it waits for the reply to a question, or has answered, or its promise was
rejected, which sends nothing. A RecordsQuery is made of the options as they are on the heap. -/
inductive GetStage (B : Type) where
  | queriesPath (options : Value B) (heap : Heap B)
  | readsPath (recordId : JsValue)
  | queriesProtocol (protocol : JsString)
  | reads (id : JsString)
  | queriesProtocols
  | queries (options : Value B) (heap : Heap B)
  | answered (answer : GetAnswer)
  | rejected

structure Get (B : Type) where
  did : JsString
  route : GetRoute
  stage : GetStage B

/-- The process and the requests that it has got, in their order. -/
structure GetRun (B : Type) where
  process : OptionsProcess B
  gets : List (Get B)

/-- A request, or what came of a question: the reply, or an exception as it serialises, when the
message cannot be made or the DWN throws. -/
inductive GetAction where
  | get (did : JsString) (route : GetRoute)
  | settles (get : ℕ) (outcome : Except Json DwnListing)

namespace GetStage

variable {B : Type}

def answer? : GetStage B → Option GetAnswer
  | .answered answer => some answer
  | _ => none

/-- The answer of the three routes below to a query that the DWN refuses. -/
def queryRefused (statusCode : ℕ) : GetStage B :=
  if statusCode = 401 then .answered (.sendStatus 404) else .answered (.sendStatus statusCode)

/-- `GET /:did/read/protocols/:protocol/*`, once the query is answered. -/
def pathQueried (reply : QueryReply) : GetStage B :=
  if reply.statusCode = 200 then
    let entry : JsValue := (reply.entries.getD []).head?
    if entry.truthy then .readsPath (entry.readOptional "recordId")
    else .answered (.sendStatus 404)
  else queryRefused reply.statusCode

/-- `GET /:did/read/protocols/:protocol`, once the query is answered. -/
def protocolQueried (reply : QueryReply) : GetStage B :=
  if reply.statusCode = 200 then
    match (reply.entries.getD []).head? with
    | some entry => .answered (.json (.ofInt 200) entry.stringify)
    | none => .answered (.sendStatus 404)
  else queryRefused reply.statusCode

/-- `GET /:did/query/protocols`, once the query is answered. -/
def protocolsQueried (reply : QueryReply) : GetStage B :=
  if reply.statusCode = 200 then
    .answered (.json (.ofInt 200) (Json.array (reply.entries.getD [])).stringify)
  else queryRefused reply.statusCode

/-- The routes that read a record by its id, and those with a `try`, which answer 400. -/
def recordRead (caught : Bool) (reply : RecordsReadReply) : GetStage B :=
  match readReplyHandler reply with
  | .ok answer => .answered answer.toGetAnswer
  | .error _ => if caught then .answered (.sendStatus 400) else .rejected

/-- How a handler goes on. -/
def settle : GetStage B → Except Json DwnListing → Option (GetStage B)
  | .queriesPath _ _, .ok (.queried reply) => some (pathQueried reply)
  | .queriesPath _ _, .error _ => some (.answered (.sendStatus 400))
  | .readsPath _, .ok (.read reply) => some (recordRead true reply)
  | .readsPath _, .error _ => some (.answered (.sendStatus 400))
  | .queriesProtocol _, .ok (.queried reply) => some (protocolQueried reply)
  | .queriesProtocol _, .error _ => some (.answered (.sendStatus 400))
  | .reads _, .ok (.read reply) => some (recordRead false reply)
  | .reads _, .error _ => some .rejected
  | .queriesProtocols, .ok (.queried reply) => some (protocolsQueried reply)
  | .queriesProtocols, .error _ => some .rejected
  | .queries _ _, .ok (.queried reply) =>
    some (.answered (.json (.ofInt 200) reply.toJson.stringify))
  | .queries _ _, .error error => some (.answered (.json (.ofInt 400) error.stringify))
  | _, _ => none

end GetStage

namespace GetRun

variable {B : Type}

/-- What request `i` has been answered. -/
def answer? (w : GetRun B) (i : ℕ) : Option GetAnswer := w.gets[i]?.bind (·.stage.answer?)

variable [DecidableEq B] (realm : Realm B) (decodeProtocol : JsString → Option JsString)

/-- The options that a route builds. -/
def optionsRequest? : GetRoute → Option OptionsRequest
  | .readPath protocol path query => some ⟨.readProtocols protocol path, query⟩
  | .query query => some ⟨.query, query⟩
  | _ => none

/-- A handler up to its first question. -/
def begin (p : OptionsProcess B) : GetRoute → GetStage B
  | .readPath protocol path query =>
    match buildOptions realm decodeProtocol ⟨.readProtocols protocol path, query⟩ p.begin with
    | (some options, heap) => .queriesPath options heap
    | (none, _) =>
      .answered (if path = [] then .text 400 (js "protocol path is required") else .sendStatus 400)
  | .readProtocol protocol =>
    match decodeProtocol protocol with
    | some protocol => .queriesProtocol protocol
    | none => .answered (.sendStatus 400)
  | .readRecords id => .reads id
  | .records id => .reads id
  | .queryProtocols => .queriesProtocols
  | .query query =>
    match buildOptions realm decodeProtocol ⟨.query, query⟩ p.begin with
    | (some options, heap) => .queries options heap
    | (none, _) => .answered (.json (.ofInt 400) (Json.object []).stringify)

/-- The process after a request has come in. -/
def served (p : OptionsProcess B) (route : GetRoute) : OptionsProcess B :=
  ((optionsRequest? route).bind (p.step realm decodeProtocol)).getD p

def step (w : GetRun B) : GetAction → Option (GetRun B)
  | .get did route => some
      { process := served realm decodeProtocol w.process route
        gets := w.gets ++ [⟨did, route, begin realm decodeProtocol w.process route⟩] }
  | .settles i outcome => do
    let get ← w.gets[i]?
    let stage ← get.stage.settle outcome
    return { w with gets := w.gets.set i { get with stage } }

variable {realm decodeProtocol} {w t : GetRun B}

theorem settles_eq_some {i : ℕ} {outcome : Except Json DwnListing} :
    w.step realm decodeProtocol (.settles i outcome) = some t ↔
      ∃ get stage, w.gets[i]? = some get ∧ get.stage.settle outcome = some stage ∧
        t = { w with gets := w.gets.set i { get with stage } } := by
  simp only [step, Option.bind_eq_bind, Option.bind_eq_some_iff, Option.some.injEq, Option.pure_def]
  constructor
  · rintro ⟨get, hget, stage, hstage, rfl⟩
    exact ⟨get, stage, hget, hstage, rfl⟩
  · rintro ⟨get, stage, hget, hstage, rfl⟩
    exact ⟨get, hget, stage, hstage, rfl⟩

end GetRun

end DwnServer
