import DwnServer.Js.JsonRoundTrip
import DwnServer.Web5Connect.LostUpdate

/-!
# Acknowledgements of the Web5 Connect endpoints

The connect server issues the insert of an object and goes on without waiting for it, so the
answer 201 says nothing of the table. A run of the endpoints keeps each call of the connect
server until its answer is sent.
-/
namespace DwnServer

open Transition

inductive ConnectResponse where
  | badRequest (message : String)
  | requestCreated (request_uri : JsString) (expires_in : ℤ)
  | responseCreated
  deriving DecidableEq

/-- A call that stores an object, by the insert with its number, and the response that its
handler sends after it. -/
structure SetCall where
  call : ℕ
  key : JsString
  object : Json
  expiry : ℤ
  response : ConnectResponse
  deriving DecidableEq

namespace SetCall

/-- The row that the call is to put into the table. -/
def row (s : SetCall) : CacheEntry := ⟨s.object.stringify, s.expiry, s.call⟩

def inserting (s : SetCall) : CacheCall := .inserting s.key s.object.stringify s.expiry

end SetCall

structure ConnectRun where
  baseUrl : JsString
  cacheRun : CacheRun
  pending : List SetCall
  acknowledged : List SetCall
  refused : List ConnectResponse
  deriving DecidableEq

inductive ConnectAction where
  | clock (elapsed : ℕ)
  | postPar (requestId : JsString) (body : Json)
  | getAuthorize (requestId : JsString)
  | postCallback (body : Json)
  | getToken (state : JsString)
  | cleanUpExpiredEntries
  | execute (call : ℕ) (succeeds : Bool)
  | resume (call : ℕ)
  | acknowledge (i : ℕ)

namespace ConnectRun

def new (baseUrl : JsString) (now : ℤ) : ConnectRun := ⟨baseUrl, .new now, [], [], []⟩

/-! ## The endpoints -/

/-- What `POST /connect/par` stores. -/
def parRequest (body : Json) : Except ConnectResponse Json :=
  match body.own (js "request") with
  | none => .error (.badRequest "Bad Request: Missing 'request' parameter")
  | some request =>
    if !request.truthy then .error (.badRequest "Bad Request: Missing 'request' parameter")
    else if JsValue.truthy (request.own (js "request_uri")) then
      .error (.badRequest "Bad Request: 'request_uri' parameter is not allowed in PAR")
    else .ok request

/-- What `POST /connect/callback` stores, after the state that it stores it under. -/
def callbackResponse (body : Json) : Except ConnectResponse (Json × Json) :=
  match body.own (js "id_token"), body.own (js "state") with
  | some idToken, some state =>
    if state = .null then .error (.badRequest "Bad Request") else .ok (state, idToken)
  | _, _ => .error (.badRequest "Bad Request")

def requestUri (w : ConnectRun) (requestId : JsString) : JsString :=
  w.baseUrl ++ js "/connect/authorize/" ++ requestId ++ js ".jwt"

/-- A step of the cache, on behalf of an endpoint. -/
def query (w : ConnectRun) (a : CacheAction) : Option ConnectRun :=
  (w.cacheRun.step a).map fun cacheRun => { w with cacheRun }

/-- A step of the cache that begins an insert. -/
def store (w : ConnectRun) (a : CacheAction) (key : JsString) (object : Json)
    (response : ConnectResponse) : Option ConnectRun :=
  let call := w.cacheRun.cache.calls.length
  let expiry := w.cacheRun.cache.now + SqlTtlCache.ttlInSeconds * 1000
  (w.query a).map fun t =>
    { t with pending := w.pending ++ [⟨call, key, object, expiry, response⟩] }

def refuse (w : ConnectRun) (response : ConnectResponse) : ConnectRun :=
  { w with refused := w.refused ++ [response] }

def postPar (w : ConnectRun) (requestId : JsString) (body : Json) : Option ConnectRun :=
  match parRequest body with
  | .error response => some (w.refuse response)
  | .ok request =>
    w.store (.setWeb5ConnectRequest requestId request) (SqlTtlCache.requestKey requestId) request
      (.requestCreated (w.requestUri requestId) SqlTtlCache.ttlInSeconds)

/-- For a state that no template literal can format, the handler throws and sends nothing. -/
def postCallback (w : ConnectRun) (body : Json) : Option ConnectRun :=
  match callbackResponse body with
  | .error response => some (w.refuse response)
  | .ok (state, idToken) =>
    match state.toText? with
    | none => w.query (.setWeb5ConnectResponse state idToken)
    | some text =>
      w.store (.setWeb5ConnectResponse state idToken) (SqlTtlCache.responseKey text) idToken
        .responseCreated

def acknowledge (w : ConnectRun) (i : ℕ) : Option ConnectRun :=
  w.pending[i]?.map fun s =>
    { w with pending := w.pending.eraseIdx i, acknowledged := w.acknowledged ++ [s] }

def step (w : ConnectRun) : ConnectAction → Option ConnectRun
  | .clock elapsed => w.query (.clock elapsed)
  | .postPar requestId body => w.postPar requestId body
  | .getAuthorize requestId => w.query (.getWeb5ConnectRequest requestId)
  | .postCallback body => w.postCallback body
  | .getToken state => w.query (.getWeb5ConnectResponse state)
  | .cleanUpExpiredEntries => w.query .cleanUpExpiredEntries
  | .execute i succeeds => w.query (.execute i succeeds)
  | .resume i => w.query (.resume i)
  | .acknowledge i => w.acknowledge i

/-! ## What an acknowledgement promises -/

def Held (w : SqlTtlCache) (s : SetCall) : Prop := w.cacheEntries.get? s.key = some s.row

/-- A `get` has returned the object. -/
def Fetched (w : SqlTtlCache) (s : SetCall) : Prop :=
  ∃ (i : ℕ) (reader : CacheReader),
    w.calls[i]? = some (.returned reader s.object.reparsed s.call)

/-- The call has been answered by the table, and returns the object when it goes on before
the object expires. -/
def Fetches (w : SqlTtlCache) (i : ℕ) (s : SetCall) : Prop :=
  ∃ key reader result, w.calls[i]? = some (.selected key reader result) ∧
    ∀ t : SqlTtlCache, i < t.calls.length → t.now < s.expiry →
      (t.resume i key reader result).calls[i]? =
        some (.returned reader s.object.reparsed s.call)

/-- An acknowledged object that has not expired is in the table until a `get` returns it, and
the first `get` for its key does. -/
structure KeepsPromises (w : ConnectRun) (a : ConnectAction) (t : ConnectRun) : Prop where
  stored : ∀ s ∈ t.acknowledged, t.cacheRun.cache.now < s.expiry →
    Held t.cacheRun.cache s ∨ Fetched t.cacheRun.cache s
  fetched : ∀ s ∈ w.acknowledged, w.cacheRun.cache.now < s.expiry →
    ¬Fetched w.cacheRun.cache s → ∀ i reader, a = .execute i true →
      w.cacheRun.cache.calls[i]? = some (.selecting s.key reader) → Fetches t.cacheRun.cache i s

/-- A response is sent when its insert has succeeded. -/
def AwaitsInsert (w : ConnectRun) : ConnectAction → Prop
  | .acknowledge i => ∀ s, w.pending[i]? = some s → w.cacheRun.cache.now < s.expiry →
    w.cacheRun.cache.calls[s.call]? = some .inserted
  | _ => True

/-- Deletions are meant for the row that they find. -/
def DeletesAimed (w : ConnectRun) : ConnectAction → Prop
  | .execute i succeeds => w.cacheRun.DeletesAimed (.execute i succeeds)
  | _ => True

instance (w : ConnectRun) : ∀ a, Decidable (w.AwaitsInsert a)
  | .acknowledge i =>
    inferInstanceAs (Decidable (∀ s ∈ w.pending[i]?, w.cacheRun.cache.now < s.expiry →
      w.cacheRun.cache.calls[s.call]? = some .inserted))
  | .clock _ | .postPar .. | .getAuthorize _ | .postCallback _ | .getToken _
  | .cleanUpExpiredEntries | .execute .. | .resume _ => .isTrue trivial

instance (w : ConnectRun) : ∀ a, Decidable (w.DeletesAimed a)
  | .execute i succeeds =>
    inferInstanceAs (Decidable (w.cacheRun.DeletesAimed (.execute i succeeds)))
  | .clock _ | .postPar .. | .getAuthorize _ | .postCallback _ | .getToken _
  | .cleanUpExpiredEntries | .resume _ | .acknowledge _ => .isTrue trivial

/-! ## A `get` of a held row -/

theorem calls_resume {t : SqlTtlCache} {i : ℕ} (hi : i < t.calls.length) (s : SetCall)
    (key : JsString) (reader : CacheReader) (hnow : t.now < s.expiry) :
    (t.resume i key reader (some s.row)).calls[i]? =
      some (.returned reader s.object.reparsed s.call) := by
  have hexpired : ¬t.now ≥ s.row.expiry := not_le.mpr hnow
  have hparse : Json.parse s.row.value = some s.object.reparsed := Json.parse_stringify s.object
  have hset := List.getElem?_set_self (a := CacheCall.returned reader s.object.reparsed s.call) hi
  simp only [SqlTtlCache.resume, if_neg hexpired, hparse]
  cases reader with
  | cache => exact hset
  | connect => exact SqlTtlCache.getElem?_begin_of_some hset

theorem Held.fetches {w t : SqlTtlCache} {s : SetCall} (hs : Held w s) {i : ℕ}
    {reader : CacheReader} (hi : w.calls[i]? = some (.selecting s.key reader))
    (h : w.step (.execute i true) = some t) : Fetches t i s := by
  obtain ⟨hlt, -⟩ := List.getElem?_eq_some_iff.mp hi
  obtain ⟨call, hcall, h⟩ := Option.bind_eq_some_iff.mp h
  obtain rfl := Option.some.inj (hcall.symm.trans hi)
  obtain rfl := Option.some.inj h
  refine ⟨s.key, reader, some s.row, ?_, fun u hu hnow => calls_resume hu s _ _ hnow⟩
  exact hs ▸ List.getElem?_set_self hlt

/-! ## What a step does to a stored object -/

/-- The insert of a call waits, or has failed, or has put the row into the table, from where
a `get` has fetched it unless it expired. -/
def Accounted (w : SqlTtlCache) (s : SetCall) : Prop :=
  w.calls[s.call]? = some s.inserting ∨ w.calls[s.call]? = some .failed ∨
    w.calls[s.call]? = some .inserted ∧ (s.expiry ≤ w.now ∨ Held w s ∨ Fetched w s)

/-- What every step of the endpoints keeps, when the deletions are aimed and the inserts
awaited. -/
structure Accounts (w : ConnectRun) : Prop where
  tracked : w.cacheRun.Tracked
  origins : ∀ j origin, (j, origin) ∈ w.cacheRun.origins → ∃ call read, origin = .get call read
  returned : ∀ (i : ℕ) reader value insert,
    w.cacheRun.cache.calls[i]? = some (.returned reader value insert) →
      w.cacheRun.cache.calls[insert]? = some .inserted
  pending : ∀ s ∈ w.pending, Accounted w.cacheRun.cache s
  acknowledged : ∀ s ∈ w.acknowledged, Accounted w.cacheRun.cache s ∧
    (w.cacheRun.cache.now < s.expiry → w.cacheRun.cache.calls[s.call]? = some .inserted)

theorem Fetched.step {w t : SqlTtlCache} {a : CacheAction} {s : SetCall} (hs : Fetched w s)
    (h : w.step a = some t) : Fetched t s := by
  obtain ⟨i, reader, hi⟩ := hs
  exact ⟨i, reader, (SqlTtlCache.stepped h).settled _ _ hi not_false⟩

section Query

variable {w t : CacheRun} {a : CacheAction}

theorem origins_step
    (hw : ∀ j origin, (j, origin) ∈ w.origins → ∃ call read, origin = .get call read)
    (hdelete : ∀ key, a ≠ .delete key) (h : w.step a = some t) :
    ∀ j origin, (j, origin) ∈ t.origins → ∃ call read, origin = .get call read := by
  intro j origin horigin
  obtain ⟨cache, -, rfl⟩ := Option.map_eq_some_iff.mp h
  rcases List.mem_append.mp horigin with hold | hnew
  · exact hw j origin hold
  · unfold CacheRun.begun at hnew
    split_ifs at hnew
    · obtain ⟨origin', hbegins, hpair⟩ := List.mem_map.mp hnew
      obtain ⟨-, rfl⟩ := Prod.mk.inj hpair
      have hbegins := Option.mem_toList.mp hbegins
      cases a with
      | delete key => exact absurd rfl (hdelete key)
      | resume i =>
        simp only [CacheRun.origin?] at hbegins
        split at hbegins
        · exact ⟨_, _, (Option.some.inj hbegins).symm⟩
        · cases hbegins
      | _ => cases hbegins
    · cases hnew

theorem returned_step (hw : w.Tracked)
    (hreturned : ∀ (i : ℕ) reader value insert,
      w.cache.calls[i]? = some (.returned reader value insert) →
        w.cache.calls[insert]? = some .inserted)
    (h : w.step a = some t) (i : ℕ) (reader : CacheReader) (value : Json) (insert : ℕ)
    (hi : t.cache.calls[i]? = some (.returned reader value insert)) :
    t.cache.calls[insert]? = some .inserted := by
  have hstepped := SqlTtlCache.stepped (CacheRun.cache_of_step h)
  refine hstepped.settled _ _ ?_ not_false
  rcases hstepped.calls i _ hi with hold | ⟨j, key, entry, hj, rfl⟩
  · exact hreturned i reader value insert hold
  · exact (hw.selected j key reader entry hj).1

theorem Accounted.step {s : SetCall} (hs : Accounted w.cache s) (hw : w.Tracked)
    (horigins : ∀ j origin, (j, origin) ∈ w.origins → ∃ call read, origin = .get call read)
    (haimed : w.DeletesAimed a) (h : w.step a = some t) : Accounted t.cache s := by
  have hcache := CacheRun.cache_of_step h
  have hstepped := SqlTtlCache.stepped hcache
  rcases hs with hinserting | hfailed | ⟨hinserted, hplace⟩
  · rcases SqlTtlCache.inserting_step hcache hinserting with hwaits | hfails | ⟨hdone, hrow⟩
    · exact Or.inl hwaits
    · exact Or.inr (Or.inl hfails)
    · exact Or.inr (Or.inr ⟨hdone, Or.inr (Or.inl hrow)⟩)
  · exact Or.inr (Or.inl (hstepped.settled _ _ hfailed not_false))
  · refine Or.inr (Or.inr ⟨hstepped.settled _ _ hinserted not_false, ?_⟩)
    rcases hplace with hexpired | hheld | hfetched
    · exact Or.inl (hexpired.trans hstepped.clock)
    · by_cases hexpired : s.expiry ≤ w.cache.now
      · exact Or.inl (hexpired.trans hstepped.clock)
      by_cases hkept : Held t.cache s
      · exact Or.inr (Or.inl hkept)
      -- an aimed deletion of a `get`, which has returned the row
      obtain ⟨j, origin, -, -, horigin, -, hreturns⟩ :=
        hw.keepsRows haimed h s.key s.row hheld (not_le.mp hexpired) hkept
      obtain ⟨call, read, rfl⟩ := horigins j origin horigin
      obtain ⟨reader, value, hcall, hparse⟩ := hreturns call read rfl
      obtain rfl := Option.some.inj ((Json.parse_stringify s.object).symm.trans hparse)
      exact Or.inr (Or.inr (Fetched.step ⟨call, reader, hcall⟩ hcache))
    · exact Or.inr (Or.inr (hfetched.step hcache))

end Query

/-! ## Steps of the endpoints -/

/-- What an action of the endpoints does: it makes a step of the cache, which may begin an
insert, or it answers a bad request, or it sends the response of a call. -/
inductive Moves (w t : ConnectRun) (a : ConnectAction) : Prop
  | queried {b : CacheAction} (hstep : w.cacheRun.step b = some t.cacheRun)
      (hdelete : ∀ key, b ≠ .delete key)
      (haimed : w.DeletesAimed a → w.cacheRun.DeletesAimed b)
      (hpending : ∀ s ∈ t.pending,
        s ∈ w.pending ∨ t.cacheRun.cache.calls[s.call]? = some s.inserting)
      (hacknowledged : t.acknowledged = w.acknowledged)
  | refused (hcache : t.cacheRun = w.cacheRun) (hpending : t.pending = w.pending)
      (hacknowledged : t.acknowledged = w.acknowledged)
  | acknowledged {i : ℕ} {s : SetCall} (ha : a = .acknowledge i) (hs : w.pending[i]? = some s)
      (hcache : t.cacheRun = w.cacheRun) (hpending : ∀ s ∈ t.pending, s ∈ w.pending)
      (hacknowledged : t.acknowledged = w.acknowledged ++ [s])

variable {w t : ConnectRun} {a : ConnectAction}

theorem moves_of_query {b : CacheAction} (h : w.query b = some t)
    (hdelete : ∀ key, b ≠ .delete key) (haimed : w.DeletesAimed a → w.cacheRun.DeletesAimed b) :
    w.Moves t a := by
  obtain ⟨cacheRun, hstep, rfl⟩ := Option.map_eq_some_iff.mp h
  exact .queried hstep hdelete haimed (fun _ => Or.inl) rfl

theorem moves_of_store {b : CacheAction} {key : JsString} {object : Json}
    {response : ConnectResponse} (h : w.store b key object response = some t)
    (hstep : w.cacheRun.cache.step b =
      some (w.cacheRun.cache.insert key object SqlTtlCache.ttlInSeconds))
    (hdelete : ∀ key, b ≠ .delete key) (haimed : w.cacheRun.DeletesAimed b) : w.Moves t a := by
  obtain ⟨u, hu, rfl⟩ := Option.map_eq_some_iff.mp h
  obtain ⟨cacheRun, hrun, rfl⟩ := Option.map_eq_some_iff.mp hu
  refine .queried hrun hdelete (fun _ => haimed) (fun s hs => ?_) rfl
  rcases List.mem_append.mp hs with hold | hnew
  · exact Or.inl hold
  · obtain rfl := List.mem_singleton.mp hnew
    have hcache := CacheRun.cache_of_step hrun
    obtain heq := Option.some.inj (hstep.symm.trans hcache)
    refine Or.inr ?_
    dsimp only
    rw [← heq]
    exact List.getElem?_concat_length

theorem moves (h : w.step a = some t) : w.Moves t a := by
  cases a with
  | execute i succeeds => exact moves_of_query h nofun id
  | clock | getAuthorize | getToken | cleanUpExpiredEntries | resume =>
    exact moves_of_query h nofun fun _ => trivial
  | postPar requestId body =>
    simp only [step, postPar] at h
    split at h
    · obtain rfl := Option.some.inj h
      exact .refused rfl rfl rfl
    · exact moves_of_store h rfl nofun trivial
  | postCallback body =>
    simp only [step, postCallback] at h
    split at h
    · obtain rfl := Option.some.inj h
      exact .refused rfl rfl rfl
    · rename_i state idToken _
      split at h
      · exact moves_of_query h nofun fun _ => trivial
      · rename_i text htext
        refine moves_of_store h ?_ nofun trivial
        simp only [SqlTtlCache.step, SqlTtlCache.setWeb5ConnectResponse, htext]
  | acknowledge i =>
    obtain ⟨s, hs, rfl⟩ := Option.map_eq_some_iff.mp h
    exact .acknowledged rfl hs rfl (fun _ => List.mem_of_mem_eraseIdx) rfl

theorem Accounts.step (hw : w.Accounts) (haimed : w.DeletesAimed a) (hawaits : w.AwaitsInsert a)
    (h : w.step a = some t) : t.Accounts := by
  cases moves h with
  | @queried b hstep hdelete haimed' hpending hacknowledged =>
    have hcache := CacheRun.cache_of_step hstep
    have hstepped := SqlTtlCache.stepped hcache
    have haccounted : ∀ s, Accounted w.cacheRun.cache s → Accounted t.cacheRun.cache s :=
      fun s hs => hs.step hw.tracked hw.origins (haimed' haimed) hstep
    refine ⟨hw.tracked.step hstep, origins_step hw.origins hdelete hstep,
      returned_step hw.tracked hw.returned hstep, fun s hs => ?_, fun s hs => ?_⟩
    · rcases hpending s hs with hold | hnew
      · exact haccounted s (hw.pending s hold)
      · exact Or.inl hnew
    · obtain ⟨hold, hinserted⟩ := hw.acknowledged s (hacknowledged ▸ hs)
      refine ⟨haccounted s hold, fun hnow => ?_⟩
      exact hstepped.settled _ _ (hinserted (hstepped.clock.trans_lt hnow)) not_false
  | refused hcache hpending hacknowledged =>
    exact ⟨hcache ▸ hw.tracked, hcache ▸ hw.origins, hcache ▸ hw.returned,
      hcache ▸ hpending ▸ hw.pending, hcache ▸ hacknowledged ▸ hw.acknowledged⟩
  | @acknowledged i s ha hs hcache hpending hacknowledged =>
    subst ha
    refine ⟨hcache ▸ hw.tracked, hcache ▸ hw.origins, hcache ▸ hw.returned,
      fun s' hs' => hcache ▸ hw.pending s' (hpending s' hs'), fun s' hs' => ?_⟩
    rw [hacknowledged] at hs'
    rw [hcache]
    rcases List.mem_append.mp hs' with hold | hnew
    · exact hw.acknowledged s' hold
    · obtain rfl := List.mem_singleton.mp hnew
      exact ⟨hw.pending s' (List.mem_of_getElem? hs), hawaits s' hs⟩

theorem Accounts.stored (hw : w.Accounts) {s : SetCall} (hs : s ∈ w.acknowledged)
    (hnow : w.cacheRun.cache.now < s.expiry) :
    Held w.cacheRun.cache s ∨ Fetched w.cacheRun.cache s := by
  obtain ⟨haccounted, hinserted⟩ := hw.acknowledged s hs
  have hdone := hinserted hnow
  rcases haccounted with hwaits | hfails | ⟨-, hplace⟩
  · cases hwaits.symm.trans hdone
  · cases hfails.symm.trans hdone
  · exact hplace.resolve_left (not_le.mpr hnow)

theorem Accounts.keepsPromises (hw : w.Accounts) (haimed : w.DeletesAimed a)
    (hawaits : w.AwaitsInsert a) (h : w.step a = some t) : w.KeepsPromises a t where
  stored _ hs hnow := (hw.step haimed hawaits h).stored hs hnow
  fetched s hs hnow hfetched i reader ha hi := by
    subst ha
    obtain ⟨cacheRun, hstep, rfl⟩ := Option.map_eq_some_iff.mp h
    exact ((hw.stored hs hnow).resolve_right hfetched).fetches hi (CacheRun.cache_of_step hstep)

/-- A response that is sent before its insert has succeeded is sent before the row is there. -/
theorem KeepsPromises.awaitsInsert (hw : w.Accounts) (hkeeps : w.KeepsPromises a t)
    (h : w.step a = some t) : w.AwaitsInsert a := by
  cases a with
  | acknowledge i =>
    intro s hs hnow
    obtain ⟨s', hs', rfl⟩ := Option.map_eq_some_iff.mp h
    obtain rfl := Option.some.inj (hs.symm.trans hs')
    rcases hkeeps.stored s (by simp) hnow with hheld | ⟨i', reader, hi'⟩
    · exact (hw.tracked.rows s.key s.row hheld).1
    · exact hw.returned i' reader _ s.call hi'
  | _ => trivial

theorem accounts_new (baseUrl : JsString) (now : ℤ) : (new baseUrl now).Accounts where
  tracked := CacheRun.tracked_new now
  origins _ _ h := by cases h
  returned _ _ _ _ h := by cases h
  pending _ h := by cases h
  acknowledged _ h := by cases h

/-- Where every deletion is meant for the row that it finds, acknowledgements keep their promises
exactly if each of them waits for its insert. -/
theorem keepsPromises_iff_awaitsInsert (baseUrl : JsString) (now : ℤ) (as : List ConnectAction)
    (haimed : Along step (fun w a _ => w.DeletesAimed a) (new baseUrl now) as) :
    Along step KeepsPromises (new baseUrl now) as ↔
      Along step (fun w a _ => w.AwaitsInsert a) (new baseUrl now) as := by
  constructor
  · intro hkeeps
    refine along_of_invariant (fun w a t hw hboth h => ?_) (accounts_new baseUrl now)
      (haimed.and hkeeps)
    have hawaits := hboth.2.awaitsInsert hw h
    exact ⟨hw.step hboth.1 hawaits h, hawaits⟩
  · intro hawaits
    exact along_of_invariant (fun w a t hw hboth h => ⟨hw.step hboth.1 hboth.2 h,
      hw.keepsPromises hboth.1 hboth.2 h⟩) (accounts_new baseUrl now) (haimed.and hawaits)

/-! ## Two responses under one state -/

/-- A wallet's response under the state `s`. -/
def response (idToken : String) : ConnectAction :=
  .postCallback (.object [(js "id_token", .string (js idToken)), (js "state", .string (js "s"))])

/-- A response is stored, acknowledged and fetched. -/
theorem keepsPromises_fetched : Along step KeepsPromises (new (js "https://dwn.example") 0)
    [response "first", .execute 0 true, .acknowledge 0, .getToken (js "s"), .execute 1 true,
      .resume 1, .execute 2 true] :=
  (keepsPromises_iff_awaitsInsert _ _ _ (by decide +kernel)).mpr (by decide +kernel)

/-- The insert of the second response finds its key taken, and is acknowledged. -/
theorem not_keepsPromises :
    ¬∀ baseUrl now as, Along step KeepsPromises (new baseUrl now) as := by
  intro h
  obtain ⟨w, hrun, hacknowledges⟩ : ∃ w, run step (new (js "https://dwn.example") 0)
      [response "first", .execute 0 true, .acknowledge 0, response "second", .execute 1 true] =
        some w ∧
      (w.step (.acknowledge 0)).any (fun t => decide
        (⟨1, js "response:s", .string (js "second"), 600000, .responseCreated⟩ ∈ t.acknowledged ∧
          t.cacheRun.cache = ⟨0, OrderedMap.empty.set (js "response:s")
            ⟨js "\"first\"", 600000, 0⟩, [.inserted, .failed]⟩)) = true :=
    exists_of_run (by decide +kernel)
  obtain ⟨t, hstep, hdecided⟩ := (Option.any_eq_true _ _).mp hacknowledges
  obtain ⟨hacknowledged, hcache⟩ := of_decide_eq_true hdecided
  have hkeeps := Along.at (h _ _ (_ ++ [.acknowledge 0])) hrun hstep
  rcases hkeeps.stored _ hacknowledged (by rw [hcache]; decide) with hheld | ⟨i, reader, hi⟩
  · rw [hcache, Held] at hheld
    revert hheld
    decide
  · have hmem := List.mem_of_getElem? hi
    simp [hcache] at hmem

end ConnectRun

end DwnServer
