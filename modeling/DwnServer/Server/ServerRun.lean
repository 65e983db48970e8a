import DwnServer.Http.Registration
import DwnServer.Library.Numbered

/-!
# Calls of `start` and `stop`

Both methods read the fields of the server again after every wait, so calls that overlap find
what others left there. The objects that a server creates are kept with what happened to them,
and the fields point to them. A port is taken by the HTTP server that listens on it; nobody
listens for the error of another one, so its `start` waits for ever.
-/
namespace DwnServer

inductive DwnServerState where
  | stopped
  | started
  deriving DecidableEq

/-- A DWN, and how often it was closed. The registration manager it has for a tenant gate is named
by the call of `start` that created both. A DWN from outside has none of those. -/
structure Dwn where
  tenantGate : Option ℕ
  closes : ℕ
  deriving DecidableEq

/-- An `HttpApi` with its server: whether it listens, and how often it stopped doing so. -/
structure HttpApi where
  dwn : ℕ
  registrationManager : Option ℕ
  listening : Bool
  closes : ℕ
  deriving DecidableEq

/-- What a call of `start` waits for. -/
inductive StartStage where
  | creatingDwn
  | creatingHttpApi (dwn : ℕ) (registrationManager : Option ℕ)
  | listening
  | portTaken
  | setUp
  | resolved
  | rejected
  deriving DecidableEq

/-- What a call of `stop` waits for; a server that does not listen reports an error. -/
inductive StopStage where
  | closingDwn
  | closingHttpApi (listened : Bool)
  | closingWsApi
  | stoppingHandler
  | resolved
  | rejected
  deriving DecidableEq

inductive ServerCall where
  | start (stage : StartStage)
  | stop (stage : StopStage)
  deriving DecidableEq

def ServerCall.settled : ServerCall → Bool
  | .start .resolved | .start .rejected | .stop .resolved | .stop .rejected => true
  | _ => false

structure ServerRun where
  config : DwnServerConfig
  serverState : DwnServerState
  dwn : Option ℕ
  httpApi : Option ℕ
  httpServerShutdownHandler : Option ℕ
  wsApi : Option ℕ
  processHandlers : Option ℕ
  dwns : List Dwn
  httpApis : List HttpApi
  /-- How often each set of process handlers was removed. -/
  handlers : List ℕ
  calls : List ServerCall

/-- `settles` is what a call waits for coming out one way or the other. The process handlers of
SIGINT and SIGTERM call `stop`. -/
inductive ServerAction where
  | start
  | stop
  | settles (call : ℕ) (ok : Bool)
  | portTaken (call : ℕ)
  deriving DecidableEq

/-- The configuration of the runs below: with a registration store and WebSockets. -/
def DwnServerConfig.withStore : DwnServerConfig where
  serverName := js "@web5/dwn-server"
  baseUrl := js "http://localhost"
  maxRecordDataSize := none
  webSocketSupport := true
  registrationStoreUrl := some (js "sqlite://data/dwn.db")
  registrationProofOfWorkSeed := none
  registrationProofOfWorkEnabled := true
  registrationProofOfWorkInitialMaxHash := none
  termsOfServiceFilePath := none

def HttpApi.closeServer (api : HttpApi) : HttpApi :=
  if api.listening then { api with listening := false, closes := api.closes + 1 } else api

namespace ServerRun

/-- `injected` if a DWN is passed to the constructor. -/
def new (config : DwnServerConfig) (injected : Bool) : ServerRun where
  config
  serverState := .stopped
  dwn := if injected then some 0 else none
  httpApi := none
  httpServerShutdownHandler := none
  wsApi := none
  processHandlers := none
  dwns := if injected then [⟨none, 0⟩] else []
  httpApis := []
  handlers := []
  calls := []

def begin (w : ServerRun) (call : ServerCall) : ServerRun := { w with calls := w.calls ++ [call] }

def setCall (w : ServerRun) (i : ℕ) (call : ServerCall) : ServerRun :=
  { w with calls := w.calls.set i call }

def isListening (w : ServerRun) (api : ℕ) : Bool := w.httpApis[api]?.any (·.listening)

def closeDwn (w : ServerRun) (dwn : ℕ) : ServerRun :=
  { w with dwns := w.dwns.modify dwn fun d => { d with closes := d.closes + 1 } }

def closeHttpServer (w : ServerRun) (api : ℕ) : ServerRun :=
  { w with httpApis := w.httpApis.modify api HttpApi.closeServer }

/-! ## `start` -/

/-- Up to the first wait. -/
def start (w : ServerRun) : ServerRun :=
  match w.serverState, w.dwn with
  | .started, _ => w.begin (.start .resolved)
  | .stopped, none => w.begin (.start .creatingDwn)
  | .stopped, some dwn => w.begin (.start (.creatingHttpApi dwn none))

/-- `RegistrationManager.create` and `Dwn.create`, then `HttpApi.create` begins. -/
def createDwn (w : ServerRun) (i : ℕ) : ServerRun :=
  setCall { w with dwn := some w.dwns.length, dwns := w.dwns ++ [⟨some i, 0⟩] } i
    (.start (.creatingHttpApi w.dwns.length (some i)))

/-- The HTTP API is there, and its server is told to listen. -/
def listen (w : ServerRun) (i dwn : ℕ) (registrationManager : Option ℕ) (free : Bool) : ServerRun :=
  let w : ServerRun := { w with
    httpApi := some w.httpApis.length
    httpApis := w.httpApis ++ [⟨dwn, registrationManager, free, 0⟩] }
  w.setCall i (.start (if free then .listening else .portTaken))

/-- The rest of `#setupServer`. -/
def finishSetup (w : ServerRun) (i : ℕ) : ServerRun :=
  let w := { w with
    httpServerShutdownHandler := w.httpApi
    wsApi := if w.config.webSocketSupport then w.httpApi else w.wsApi }
  w.setCall i (.start .setUp)

def setProcessHandlers (w : ServerRun) (i : ℕ) : ServerRun :=
  let w := { w with
    processHandlers := some w.handlers.length
    handlers := w.handlers ++ [0]
    serverState := .started }
  w.setCall i (.start .resolved)

def startSettles (w : ServerRun) (i : ℕ) (ok : Bool) : StartStage → Option ServerRun
  | .creatingDwn => some (if ok then w.createDwn i else w.setCall i (.start .rejected))
  | .creatingHttpApi dwn registrationManager =>
    some (if ok then w.listen i dwn registrationManager (w.httpApis.all fun api => !api.listening)
      else w.setCall i (.start .rejected))
  | .listening => if ok then some (w.finishSetup i) else none
  | .setUp => if ok then some (w.setProcessHandlers i) else none
  | .portTaken | .resolved | .rejected => none

/-! ## `stop` -/

/-- Up to the first wait. -/
def stop (w : ServerRun) : ServerRun :=
  match w.serverState, w.dwn with
  | .stopped, _ => w.begin (.stop .resolved)
  | .started, none => w.begin (.stop .rejected)
  | .started, some dwn => (w.closeDwn dwn).begin (.stop .closingDwn)

def closeHttpApi (w : ServerRun) (i : ℕ) : ServerRun :=
  match w.httpApi with
  | some api =>
    (w.closeHttpServer api).setCall i (.stop (.closingHttpApi (w.isListening api)))
  | none => w.setCall i (.stop .rejected)

def stopShutdownHandler (w : ServerRun) (i : ℕ) : ServerRun :=
  match w.httpServerShutdownHandler with
  | some api => (w.closeHttpServer api).setCall i (.stop .stoppingHandler)
  | none => w.setCall i (.stop .rejected)

def removeProcessHandlers (w : ServerRun) (i : ℕ) : ServerRun :=
  match w.processHandlers with
  | some handlers =>
    let w := { w with
      handlers := w.handlers.modify handlers (· + 1)
      serverState := .stopped }
    w.setCall i (.stop .resolved)
  | none => w.setCall i (.stop .rejected)

def stopSettles (w : ServerRun) (i : ℕ) (ok : Bool) : StopStage → Option ServerRun
  | .closingDwn => some (if ok then w.closeHttpApi i else w.setCall i (.stop .rejected))
  | .closingHttpApi listened =>
    if ok = listened then
      some (if !listened then w.setCall i (.stop .rejected)
        else if w.wsApi.isSome then w.setCall i (.stop .closingWsApi)
        else w.stopShutdownHandler i)
    else none
  | .closingWsApi =>
    some (if ok then w.stopShutdownHandler i else w.setCall i (.stop .rejected))
  | .stoppingHandler => if ok then some (w.removeProcessHandlers i) else none
  | .resolved | .rejected => none

/-! ## Steps -/

def step (w : ServerRun) : ServerAction → Option ServerRun
  | .start => some w.start
  | .stop => some w.stop
  | .settles i ok =>
    match w.calls[i]? with
    | some (.start stage) => w.startSettles i ok stage
    | some (.stop stage) => w.stopSettles i ok stage
    | none => none
  | .portTaken i =>
    match w.calls[i]? with
    | some (.start (.creatingHttpApi dwn registrationManager)) =>
      some (w.listen i dwn registrationManager false)
    | _ => none

theorem stage_of_set {w t : ServerRun} {i : ℕ} {call call' : ServerCall}
    (hi : w.calls[i]? = some call) (hset : t.calls = w.calls.set i call') :
    t.calls[i]? = some call' := by
  rw [hset]
  exact List.getElem?_set_self (List.getElem?_eq_some_iff.mp hi).1

end ServerRun

end DwnServer
