import DwnServer.Connection.Answers
import DwnServer.Http.PostRoot

/-!
# The JSON-RPC API over both transports

A text reaches the API as a frame on a connection that is in any state it can get into, or
as the `dwn-request` header of a request of its own. On both ways the text alone, and over
HTTP a reply that has to fit into a header, decide whether the client is answered.
-/
namespace DwnServer

open Transition Connection

/-- A client is answered exactly if its text is answerable. Over a WebSocket that is so when
the handling of its frame has ended, which it always can. -/
theorem answered_iff_answerable (host : Host) :
    (∀ (as as' : List Action) (w t : Connection) (data : JsString) (stage : Stage),
      run step new as = some w → w.listening = true → run step (w.message data host) as' = some t →
      t.requests[w.requests.length]? = some stage →
      (stage.isFinished = true →
        (Answered data (t.responses w.requests.length) ↔ WsAnswerable data)) ∧
      ∃ as'' u stage', run step t as'' = some u ∧
        u.requests[w.requests.length]? = some stage' ∧ stage'.isFinished = true) ∧
    ∀ (headers : PostHeaders) (dwn : DwnCall → DwnOutcome),
      Answered (headers.dwnRequest.getD []) (httpResponses (post host headers dwn)) ↔
        HttpAnswerable host headers dwn := by
  refine ⟨fun as as' w t data stage hbefore hlistening hafter hstage => ⟨fun hfinished => ?_,
    exists_run_to_finished hstage⟩, answered_iff_httpAnswerable host⟩
  exact answered_iff_wsAnswerable hbefore hlistening hafter hstage hfinished

/-- A close request without a subscription. -/
def bareClose : JsString :=
  js "\x7b\"jsonrpc\":\"2.0\",\"id\":1,\"method\":\"rpc.subscribe.close\"\x7d"

def bareCloseRequest : Json := .object
  [(js "jsonrpc", .string (js "2.0")), (js "id", .number (.ofInt 1)),
    (js "method", .string closeMethod)]

theorem parse_bareClose : Json.parse bareClose = some bareCloseRequest := by decide +kernel

/-- On a fresh connection and in a header, a bare close request is answered. -/
theorem answered_bareClose :
    (∃ t, run step (new.message bareClose ⟨[], []⟩) [.handle 0 ⟨[], []⟩, .respond 0] = some t ∧
      Answered bareClose (t.responses 0)) ∧
    Answered bareClose (httpResponses (post ⟨[], []⟩ ⟨some bareClose, none, false⟩
      fun _ => .error [])) := by
  have hid : IdSerialises bareCloseRequest := by
    intro id hid
    obtain rfl : Json.number (.ofInt 1) = id := Option.some.inj hid
    decide +kernel
  have hws : WsAnswerable bareClose := by
    intro request hparse
    obtain rfl := Option.some.inj (parse_bareClose.symm.trans hparse)
    exact ⟨closeMethod, ⟨rfl, fun _ => nofun⟩, Or.inr (Or.inl ⟨rfl, fun _ => nofun, hid⟩)⟩
  have hhttp : HttpAnswerable ⟨[], []⟩ ⟨some bareClose, none, false⟩ fun _ => .error [] :=
    fun request hparse => by
      obtain rfl := Option.some.inj (parse_bareClose.symm.trans hparse)
      exact ⟨closeMethod, rfl, Or.inr (Or.inl ⟨rfl, hid⟩)⟩
  refine ⟨?_, ((answered_iff_answerable _).2 _ _).mpr hhttp⟩
  obtain ⟨t, hrun, stage, hstage, hfinished⟩ : ∃ t,
      run step (new.message bareClose ⟨[], []⟩) [.handle 0 ⟨[], []⟩, .respond 0] = some t ∧
        ∃ stage ∈ t.requests[0]?, stage.isFinished = true :=
    exists_of_run (by decide +kernel)
  exact ⟨t, hrun, (((answered_iff_answerable _).1 [] _ new t bareClose stage rfl rfl hrun hstage).1
    hfinished).mpr hws⟩

/-- The text `null` makes both ways throw. -/
theorem not_answered_null :
    (¬∀ (as as' : List Action) (w t : Connection) (data : JsString) (host : Host) (stage : Stage),
      run step new as = some w → w.listening = true → run step (w.message data host) as' = some t →
      t.requests[w.requests.length]? = some stage → stage.isFinished = true →
        Answered data (t.responses w.requests.length)) ∧
    ¬∀ (host : Host) (headers : PostHeaders) (dwn : DwnCall → DwnOutcome),
      Answered (headers.dwnRequest.getD []) (httpResponses (post host headers dwn)) := by
  constructor <;> intro h <;> refine not_answered_nil (js "null") ?_
  · exact h [] [] new _ (js "null") ⟨[], []⟩ .threw rfl rfl rfl rfl rfl
  · exact h ⟨[], []⟩ ⟨some (js "null"), none, false⟩ fun _ => .error []

end DwnServer
