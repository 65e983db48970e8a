import DwnServer.Library.Transition

/-!
# Starting and stopping the server

`DwnServer.stop` closes in four steps, and waits in each: for the DWN, for the HTTP server,
for the connections of the WebSocket server, and once more for the HTTP server. Node calls
back from `http.Server.close` when the last connection has ended, be it upgraded or not,
and ends the idle plain connections of a server that is closing. WebSocket clients answer a
close frame, and never disconnect on their own.
-/
namespace DwnServer

/-- A connection of the HTTP server. `outstanding` counts the requests that are not yet
answered, `idle` is the mark of `HttpServerShutdownHandler`, and `closing` whether the
server has sent a close frame. -/
structure TcpConnection where
  outstanding : ℕ
  idle : Bool
  webSocket : Bool
  closing : Bool
  deriving DecidableEq

/-- What `stop` waits for, or that it is not running. -/
inductive ServerStage where
  | stopped
  | started
  | closingDwn
  | closingHttpApi
  | closingWsApi
  | stoppingHandler
  deriving DecidableEq

structure Lifecycle where
  webSocketSupport : Bool
  stage : ServerStage
  listening : Bool
  connections : List TcpConnection
  deriving DecidableEq

inductive LifecycleAction where
  | start
  | connect
  | request (connection : ℕ)
  | finish (connection : ℕ)
  | upgrade (connection : ℕ)
  | stop
  | dwnCloses
  | idleEnds (connection : ℕ)
  | httpServerCloses
  | closeAllSettles
  | webSocketEnds (connection : ℕ)
  | handlerCallsBack
  deriving DecidableEq

/-- What clients do, and when somebody starts or stops the server. -/
def LifecycleAction.external : LifecycleAction → Bool
  | .start | .connect | .request _ | .finish _ | .upgrade _ | .stop => true
  | _ => false

/-- `stop` was called and has not returned. -/
def ServerStage.isStopping : ServerStage → Bool
  | .stopped | .started => false
  | _ => true

/-- `stop` has not come to the WebSocket server. -/
def ServerStage.beforeWsApi : ServerStage → Bool
  | .started | .closingDwn | .closingHttpApi => true
  | _ => false

namespace Lifecycle

def new (webSocketSupport : Bool) : Lifecycle := ⟨webSocketSupport, .stopped, false, []⟩

/-- Change a connection that satisfies a condition. -/
def update (w : Lifecycle) (c : ℕ) (enabled : TcpConnection → Bool)
    (change : TcpConnection → TcpConnection) : Option Lifecycle :=
  match w.connections[c]? with
  | some connection =>
    if enabled connection then
      some { w with connections := w.connections.set c (change connection) }
    else none
  | none => none

/-- End a connection that satisfies a condition. -/
def ends (w : Lifecycle) (c : ℕ) (enabled : TcpConnection → Bool) : Option Lifecycle :=
  match w.connections[c]? with
  | some connection =>
    if enabled connection then some { w with connections := w.connections.eraseIdx c } else none
  | none => none

/-- `WsApi.close`: every WebSocket is sent a close frame. -/
def closeWsApi (w : Lifecycle) : Lifecycle :=
  { w with
    stage := .closingWsApi
    connections := w.connections.map fun c => { c with closing := c.closing || c.webSocket } }

/-- `HttpServerShutdownHandler.stop`: the idle sockets are destroyed. -/
def stopHandler (w : Lifecycle) : Lifecycle :=
  { w with
    stage := .stoppingHandler
    connections := w.connections.filter fun c => !c.idle }

def step (w : Lifecycle) : LifecycleAction → Option Lifecycle
  | .start =>
    if w.stage = .stopped then some { w with stage := .started, listening := true } else none
  | .connect =>
    if w.listening then some { w with connections := w.connections ++ [⟨0, true, false, false⟩] }
    else none
  | .request c =>
    w.update c (fun c => !c.webSocket) fun c =>
      { c with outstanding := c.outstanding + 1, idle := false }
  | .finish c =>
    if w.stage = .stoppingHandler then w.ends c fun c => 0 < c.outstanding
    else w.update c (fun c => 0 < c.outstanding) fun c =>
      { c with outstanding := c.outstanding - 1, idle := true }
  | .upgrade c =>
    if w.webSocketSupport && w.stage.beforeWsApi then
      w.update c (fun c => !c.webSocket && c.outstanding = 0) fun c => { c with webSocket := true }
    else none
  | .stop => if w.stage = .started then some { w with stage := .closingDwn } else none
  | .dwnCloses =>
    if w.stage = .closingDwn then some { w with stage := .closingHttpApi, listening := false }
    else none
  | .idleEnds c =>
    if w.listening then none else w.ends c fun c => !c.webSocket && c.outstanding = 0
  | .httpServerCloses =>
    if w.stage = .closingHttpApi && w.connections = [] then
      some (if w.webSocketSupport then w.closeWsApi else w.stopHandler)
    else none
  | .closeAllSettles => if w.stage = .closingWsApi then some w.stopHandler else none
  | .webSocketEnds c => w.ends c (·.closing)
  | .handlerCallsBack =>
    if w.stage = .stoppingHandler && w.connections = [] then some { w with stage := .stopped }
    else none

end Lifecycle

end DwnServer
