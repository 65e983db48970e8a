import DwnServer.Http.PostRoot

/-!
# Reading a record by its id

`GET /:did/read/records/:id` and `GET /:did/records/:id` share one handler, which forwards the
reply of the DWN. A reader who may not see a record is told 404, as for a record that is not
there: in the first case by `sendStatus`, in the second with the reply itself.
-/
namespace DwnServer

/-- The reply of the DWN to a RecordsRead. `dataFormat` is that of an entry which comes with its
data, and `members` the rest of the reply as it serialises. -/
structure RecordsReadReply where
  statusCode : JsNumber
  statusDetail : JsString
  dataFormat : Option JsString
  members : List (JsString × Json)

def RecordsReadReply.toJson (reply : RecordsReadReply) : Json :=
  .object ((js "status", .object [(js "code", .number reply.statusCode),
    (js "detail", .string reply.statusDetail)]) :: reply.members)

/-- What a GET route answers: the message of a status, a JSON text, or the record's data. -/
inductive ReadAnswer where
  | sendStatus (status : ℕ)
  | send (status : JsNumber) (body : Json)
  | data (contentType dwnResponse : JsString)

/-- The messages of the statuses that the route sends. -/
def statusMessage (status : ℕ) : JsString :=
  if status = 400 then js "Bad Request" else if status = 404 then js "Not Found" else decimal status

namespace ReadAnswer

def status : ReadAnswer → JsNumber
  | .sendStatus status => .ofInt status
  | .send status _ => status
  | .data _ _ => .ofInt 200

/-- The text of the body; none for a data stream. Some statuses come without a body. -/
def body : ReadAnswer → Option JsString
  | .sendStatus status => some (statusMessage status)
  | .send status body =>
    if status ∈ [.ofInt 204, .ofInt 205, .ofInt 304] then some [] else some body.stringify
  | .data _ _ => none

end ReadAnswer

def readReplyHandler (reply : RecordsReadReply) : Eval ReadAnswer :=
  if reply.statusCode = .ofInt 200 then
    match reply.dataFormat with
    | some dataFormat =>
      let dwnResponse := reply.toJson.stringify
      if isHeaderValue dataFormat && isHeaderValue dwnResponse then
        .ok (.data dataFormat dwnResponse)
      else .error .engine
    | none => .ok (.sendStatus 400)
  else if reply.statusCode = .ofInt 401 then .ok (.sendStatus 404)
  else .ok (.send reply.statusCode reply.toJson)

section

variable {Message : Type}

/-- `create` is `RecordsRead.create`, `dwn` is `dwn.processMessage`. An exception sends nothing. -/
def recordsReadHandler (create : JsString → Eval Message)
    (dwn : JsString → Message → Eval RecordsReadReply) (did id : JsString) : Eval ReadAnswer := do
  let record ← create id
  let reply ← dwn did record
  readReplyHandler reply

inductive RecordsRoute where
  | readRecords
  | records

/-- Both routes have one handler. -/
def RecordsRoute.get (route : RecordsRoute) (create : JsString → Eval Message)
    (dwn : JsString → Message → Eval RecordsReadReply) (did id : JsString) : Eval ReadAnswer :=
  match route with
  | .readRecords => recordsReadHandler create dwn did id
  | .records => recordsReadHandler create dwn did id

/-- The DWN replies with this status to the read of the record. -/
def RepliesWith (create : JsString → Eval Message)
    (dwn : JsString → Message → Eval RecordsReadReply) (did id : JsString) (status : JsNumber) :
    Prop :=
  ∃ message reply, create id = .ok message ∧ dwn did message = .ok reply ∧
    reply.statusCode = status

variable {create create' : JsString → Eval Message}
  {dwn dwn' : JsString → Message → Eval RecordsReadReply} {did id : JsString}

theorem get_of_replies {message : Message} {reply : RecordsReadReply}
    (hcreate : create id = .ok message) (hreply : dwn did message = .ok reply)
    (route : RecordsRoute) : route.get create dwn did id = readReplyHandler reply := by
  cases route <;> simp [RecordsRoute.get, recordsReadHandler, hcreate, hreply, bind, Except.bind]

theorem readReplyHandler_unauthorized {reply : RecordsReadReply}
    (hcode : reply.statusCode = .ofInt 401) : readReplyHandler reply = .ok (.sendStatus 404) := by
  rw [readReplyHandler, hcode, if_neg (by decide +kernel), if_pos rfl]

theorem readReplyHandler_notFound {reply : RecordsReadReply}
    (hcode : reply.statusCode = .ofInt 404) :
    readReplyHandler reply = .ok (.send (.ofInt 404) reply.toJson) := by
  rw [readReplyHandler, hcode, if_neg (by decide +kernel), if_neg (by decide +kernel)]

/-- A hidden record and an absent one are answered with one status, but never with one body. -/
theorem told_apart (hhidden : RepliesWith create dwn did id (.ofInt 401))
    (habsent : RepliesWith create' dwn' did id (.ofInt 404)) (route : RecordsRoute) :
    ∃ a a', route.get create dwn did id = .ok a ∧ route.get create' dwn' did id = .ok a' ∧
      a.status = a'.status ∧ a.body ≠ a'.body := by
  obtain ⟨message, reply, hcreate, hreply, hcode⟩ := hhidden
  obtain ⟨message', reply', hcreate', hreply', hcode'⟩ := habsent
  refine ⟨.sendStatus 404, .send (.ofInt 404) reply'.toJson, ?_, ?_, rfl, ?_⟩
  · rw [get_of_replies hcreate hreply, readReplyHandler_unauthorized hcode]
  · rw [get_of_replies hcreate' hreply', readReplyHandler_notFound hcode']
  · have htext :
        ReadAnswer.body (.send (.ofInt 404) reply'.toJson) = some reply'.toJson.stringify :=
      if_neg (by decide +kernel)
    rw [htext]
    intro heq
    -- a JSON text of an object begins with a brace
    have hhead := congrArg List.head? (Option.some.inj heq)
    rw [RecordsReadReply.toJson, Json.stringify] at hhead
    cases hhead

/-- The DWN has the record, and does not show it. -/
def unauthorized : RecordsReadReply := ⟨.ofInt 401, js "Unauthorized", none, []⟩

def notFound : RecordsReadReply := ⟨.ofInt 404, js "Not Found", none, []⟩

theorem told_apart_unauthorized : ∃ a a',
    RecordsRoute.records.get (fun _ => .ok ()) (fun _ _ => .ok unauthorized) (js "did:a") (js "1") =
      .ok a ∧
    RecordsRoute.records.get (fun _ => .ok ()) (fun _ _ => .ok notFound) (js "did:a") (js "1") =
      .ok a' ∧ a.status = a'.status ∧ a.body ≠ a'.body :=
  told_apart ⟨(), unauthorized, rfl, rfl, rfl⟩ ⟨(), notFound, rfl, rfl, rfl⟩ _

/-- The bodies of a hidden record and an absent one differ. -/
theorem not_told_alike : ¬∀ (create : JsString → Eval Unit)
    (dwn dwn' : JsString → Unit → Eval RecordsReadReply) (did id : JsString) (route : RecordsRoute),
    RepliesWith create dwn did id (.ofInt 401) → RepliesWith create dwn' did id (.ofInt 404) →
    ∃ a a', route.get create dwn did id = .ok a ∧ route.get create dwn' did id = .ok a' ∧
      a.status = a'.status ∧ a.body = a'.body := by
  intro h
  obtain ⟨a, a', ha, ha', -, hbody⟩ := h (fun _ => .ok ()) (fun _ _ => .ok unauthorized)
    (fun _ _ => .ok notFound) (js "did:a") (js "1") .records
    ⟨(), unauthorized, rfl, rfl, rfl⟩ ⟨(), notFound, rfl, rfl, rfl⟩
  have hget : ∀ reply, RecordsRoute.records.get (fun _ => .ok ()) (fun _ _ => .ok reply)
      (js "did:a") (js "1") = readReplyHandler reply := fun reply => rfl
  rw [hget, readReplyHandler_unauthorized rfl] at ha
  rw [hget, readReplyHandler_notFound rfl] at ha'
  rw [← Except.ok.inj ha, ← Except.ok.inj ha'] at hbody
  revert hbody
  decide +kernel

end

end DwnServer
