import DwnServer.Library.OrderedMap
import DwnServer.Library.Transition
import DwnServer.DwnError
import DwnServer.Js.JsonText

/-!
# `SqlTtlCache` and `Web5ConnectServer`

The table `cacheEntries` and the calls that wait for its database. A query is issued when a
call begins or goes on, and executed at any later moment; some are not awaited. Every call
keeps its place in a list, and a row remembers which call inserted it.
-/
namespace DwnServer

/-- A row of the table, without its key. -/
structure CacheEntry where
  value : JsString
  expiry : ℤ
  insert : ℕ
  deriving DecidableEq

abbrev CacheTable := OrderedMap JsString CacheEntry

/-- Who called `get`: the connect server deletes what it gets. -/
inductive CacheReader where
  | cache
  | connect
  deriving DecidableEq

/-- How far a call has come. -/
inductive CacheCall where
  | inserting (key value : JsString) (expiry : ℤ)
  | inserted
  | selecting (key : JsString) (reader : CacheReader)
  | selected (key : JsString) (reader : CacheReader) (result : Option CacheEntry)
  | returned (reader : CacheReader) (value : Json) (insert : ℕ)
  | missed
  | deleting (key : JsString)
  | deleted
  | cleaning (now : ℤ)
  | cleaned
  | failed
  deriving DecidableEq

structure SqlTtlCache where
  now : ℤ
  cacheEntries : CacheTable
  calls : List CacheCall
  deriving DecidableEq

inductive CacheAction where
  | clock (elapsed : ℕ)
  | insert (key : JsString) (value : Json) (ttl : ℤ)
  | get (key : JsString)
  | delete (key : JsString)
  | cleanUpExpiredEntries
  | setWeb5ConnectRequest (requestId : JsString) (request : Json)
  | getWeb5ConnectRequest (requestId : JsString)
  | setWeb5ConnectResponse (state : Json) (response : Json)
  | getWeb5ConnectResponse (state : JsString)
  | execute (call : ℕ) (succeeds : Bool)
  | resume (call : ℕ)

namespace SqlTtlCache

def new (now : ℤ) (cacheEntries : CacheTable) : SqlTtlCache := ⟨now, cacheEntries, []⟩

def ttlInSeconds : ℤ := 600

def begin (w : SqlTtlCache) (call : CacheCall) : SqlTtlCache :=
  { w with calls := w.calls ++ [call] }

def setCall (w : SqlTtlCache) (i : ℕ) (call : CacheCall) : SqlTtlCache :=
  { w with calls := w.calls.set i call }

/-! ## The methods, up to their first query -/

def insert (w : SqlTtlCache) (key : JsString) (value : Json) (ttl : ℤ) : SqlTtlCache :=
  w.begin (.inserting key value.stringify (w.now + ttl * 1000))

def get (w : SqlTtlCache) (key : JsString) (reader : CacheReader) : SqlTtlCache :=
  w.begin (.selecting key reader)

def delete (w : SqlTtlCache) (key : JsString) : SqlTtlCache := w.begin (.deleting key)

def cleanUpExpiredEntries (w : SqlTtlCache) : SqlTtlCache := w.begin (.cleaning w.now)

def requestKey (requestId : JsString) : JsString := js "request:" ++ requestId

def responseKey (state : JsString) : JsString := js "response:" ++ state

/-- `requestId` is the UUID that the server draws. The insert is not awaited. -/
def setWeb5ConnectRequest (w : SqlTtlCache) (requestId : JsString) (request : Json) : SqlTtlCache :=
  w.insert (requestKey requestId) request ttlInSeconds

def getWeb5ConnectRequest (w : SqlTtlCache) (requestId : JsString) : SqlTtlCache :=
  w.get (requestKey requestId) .connect

/-- A state that no template literal can format throws before the insert. -/
def setWeb5ConnectResponse (w : SqlTtlCache) (state response : Json) : SqlTtlCache :=
  match state.toText? with
  | some state => w.insert (responseKey state) response ttlInSeconds
  | none => w.begin .failed

def getWeb5ConnectResponse (w : SqlTtlCache) (state : JsString) : SqlTtlCache :=
  w.get (responseKey state) .connect

/-! ## The queries -/

/-- The query that a call waits for; an insert fails on a key that is there. -/
def execute (w : SqlTtlCache) (i : ℕ) : CacheCall → Option SqlTtlCache
  | .inserting key value expiry =>
    if w.cacheEntries.has key then some (w.setCall i .failed)
    else some { w.setCall i .inserted with
      cacheEntries := w.cacheEntries.set key ⟨value, expiry, i⟩ }
  | .selecting key reader =>
    some (w.setCall i (.selected key reader (w.cacheEntries.get? key)))
  | .deleting key =>
    some { w.setCall i .deleted with cacheEntries := w.cacheEntries.delete key }
  | .cleaning now =>
    some { w.setCall i .cleaned with
      cacheEntries := w.cacheEntries.filter fun _ entry => ¬entry.expiry < now }
  | _ => none

/-- The rest of `get`, and of the connect server's method around it. A deletion that follows
is a call of its own, since nobody awaits it. -/
def resume (w : SqlTtlCache) (i : ℕ) (key : JsString) (reader : CacheReader) :
    Option CacheEntry → SqlTtlCache
  | none => w.setCall i .missed
  | some entry =>
    if w.now ≥ entry.expiry then (w.setCall i .missed).delete key
    else
      match Json.parse entry.value with
      | none => w.setCall i .failed
      | some value =>
        let returned := w.setCall i (.returned reader value entry.insert)
        match reader with
        | .cache => returned
        | .connect => returned.delete key

def step (w : SqlTtlCache) : CacheAction → Option SqlTtlCache
  | .clock elapsed => some { w with now := w.now + elapsed }
  | .insert key value ttl => some (w.insert key value ttl)
  | .get key => some (w.get key .cache)
  | .delete key => some (w.delete key)
  | .cleanUpExpiredEntries => some w.cleanUpExpiredEntries
  | .setWeb5ConnectRequest requestId request => some (w.setWeb5ConnectRequest requestId request)
  | .getWeb5ConnectRequest requestId => some (w.getWeb5ConnectRequest requestId)
  | .setWeb5ConnectResponse state response => some (w.setWeb5ConnectResponse state response)
  | .getWeb5ConnectResponse state => some (w.getWeb5ConnectResponse state)
  | .execute i succeeds => do
    let call ← w.calls[i]?
    let executed ← w.execute i call
    return if succeeds then executed else w.setCall i .failed
  | .resume i =>
    match w.calls[i]? with
    | some (.selected key reader result) => some (w.resume i key reader result)
    | _ => none

end SqlTtlCache

end DwnServer
