import DwnServer.Client.Wire
import DwnServer.Connection.Provenance

/-!
# A client and the connection that the server keeps for it

What the socket of the client takes reaches the server in the order in which it was sent, and the
frames of the server reach the client in theirs. Either may be on its way for any time, or for
ever, and both sides go on meanwhile.
-/
namespace DwnServer

open Transition

/-- A request on its way to the server: its number at the client, and its text. -/
structure Outgoing where
  request : ℕ
  text : JsString
  deriving DecidableEq

/-- `outgoing` is all that was sent to the server, which has received as much of it as it has
requests; `delivered` is how many frames of the server the client has got. -/
structure Session where
  client : JsonRpcSocket
  server : Connection
  outgoing : List Outgoing
  delivered : ℕ

inductive SessionAction where
  /-- a call of the client, or a timer of it -/
  | client (action : ClientAction)
  /-- the next request arrives -/
  | receive (host : Host)
  /-- anything else at the server -/
  | server (action : Action)
  /-- the next frame arrives -/
  | deliver (throws : ℕ → Bool) (sending : ℕ → Sending)

def ClientAction.isMessage : ClientAction → Bool
  | .message .. => true
  | _ => false

def Frame.message : Frame → Json
  | .response _ message | .event _ message => message

/-- The requests from number `n` on that the socket took. -/
def JsonRpcSocket.sentFrom (w : JsonRpcSocket) (n : ℕ) : List Outgoing :=
  (List.range' n (w.requests.length - n)).filterMap fun i =>
    (w.requests[i]?.filter (·.settlement ≠ some .threw)).map fun r => ⟨i, r.request.text⟩

namespace Session

def new : Session := ⟨.new, .new, [], 0⟩

/-- The texts that the server has received. -/
def received (s : Session) : List JsString :=
  (s.outgoing.take s.server.requests.length).map (·.text)

/-- The frames that have not arrived yet. -/
def incoming (s : Session) : List Frame := s.server.sent.drop s.delivered

/-- The call of the client that a frame belongs to. -/
def origin (s : Session) : Frame → Origin
  | .response i _ => s.outgoing[i]?.elim .other fun o => .response o.request
  | .event i _ =>
    (s.outgoing[i]?.bind fun o => s.client.subscriptions.findIdx? (·.request = o.request)).elim
      .other .event

/-- A step of the client, which sends its new requests. -/
def clientStep (s : Session) (a : ClientAction) : Option Session :=
  (s.client.step a).map fun client => { s with
    client
    outgoing := s.outgoing ++ client.sentFrom s.client.requests.length }

/-- A frame arrives at the client. -/
def arrival (s : Session) (frame : Frame) (throws : ℕ → Bool) (sending : ℕ → Sending) :
    ClientAction :=
  .message frame.message.stringify (s.origin frame) throws sending

def step (s : Session) : SessionAction → Option Session
  | .client a => if a.isMessage then none else s.clientStep a
  | .receive host =>
    s.outgoing[s.server.requests.length]?.bind fun o =>
      (s.server.step (.message o.text host)).map fun server => { s with server }
  | .server a =>
    if a.text?.isSome then none else (s.server.step a).map fun server => { s with server }
  | .deliver throws sending =>
    s.server.sent[s.delivered]?.bind fun frame =>
      ({ s with delivered := s.delivered + 1 } : Session).clientStep
        (s.arrival frame throws sending)

/-- What the steps of a session do, and when. -/
inductive Stepped (s : Session) : SessionAction → Session → Prop where
  | client (a : ClientAction) (client : JsonRpcSocket) (ha : a.isMessage = false)
      (hstep : s.client.step a = some client) :
      s.Stepped (.client a) { s with
        client
        outgoing := s.outgoing ++ client.sentFrom s.client.requests.length }
  | receive (host : Host) (o : Outgoing) (server : Connection)
      (hnext : s.outgoing[s.server.requests.length]? = some o)
      (hstep : s.server.step (.message o.text host) = some server) :
      s.Stepped (.receive host) { s with server }
  | server (a : Action) (server : Connection) (ha : a.text? = none)
      (hstep : s.server.step a = some server) : s.Stepped (.server a) { s with server }
  | deliver (throws : ℕ → Bool) (sending : ℕ → Sending) (frame : Frame) (client : JsonRpcSocket)
      (hnext : s.server.sent[s.delivered]? = some frame)
      (hstep : s.client.step (s.arrival frame throws sending) = some client) :
      s.Stepped (.deliver throws sending) {
        client
        server := s.server
        outgoing := s.outgoing ++ client.sentFrom s.client.requests.length
        delivered := s.delivered + 1 }

theorem stepped_of_step {s t : Session} {a : SessionAction} (h : s.step a = some t) :
    s.Stepped a t := by
  cases a with
  | client a =>
    simp only [step] at h
    split_ifs at h with ha
    obtain ⟨client, hstep, rfl⟩ := Option.map_eq_some_iff.mp h
    exact .client a client (by simpa using ha) hstep
  | receive host =>
    obtain ⟨o, hnext, h⟩ := Option.bind_eq_some_iff.mp h
    obtain ⟨server, hstep, rfl⟩ := Option.map_eq_some_iff.mp h
    exact .receive host o server hnext hstep
  | server a =>
    simp only [step] at h
    split_ifs at h with ha
    obtain ⟨server, hstep, rfl⟩ := Option.map_eq_some_iff.mp h
    exact .server a server (by simpa using ha) hstep
  | deliver throws sending =>
    obtain ⟨frame, hnext, h⟩ := Option.bind_eq_some_iff.mp h
    obtain ⟨client, hstep, rfl⟩ := Option.map_eq_some_iff.mp h
    exact .deliver throws sending frame client hnext hstep

end Session

end DwnServer
