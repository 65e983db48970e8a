import DwnServer.Web5Connect.Acknowledgement
import DwnServer.Web5Connect.Returned

/-!
# Handing objects over

`GET /connect/authorize/:requestId.jwt` and `GET /connect/token/:state.jwt` wait for one call of
`get`, and answer what it ends with. The two endpoints share a table. What one of them answers
was posted to its counterpart, under the same id, within the time to live.
-/
namespace DwnServer

open Transition

/-- What the handlers send: the status 404, or an object as `application/jwt`. -/
inductive ConnectAnswer where
  | notFound
  | jwt (object : Json)
  deriving DecidableEq

/-- What `res.send` hands over. A number it takes for the status of the answer. -/
def ConnectAnswer.send? : Json → Option ConnectAnswer
  | .number _ => none
  | object => some (.jwt object)

/-- The answer to a request whose call of `get` has ended. Nobody catches a call that fails, so
its request is not answered. -/
def CacheCall.answer? : CacheCall → Option ConnectAnswer
  | .returned _ value _ => if value.truthy then ConnectAnswer.send? value else some .notFound
  | .missed => some .notFound
  | _ => none

theorem ConnectAnswer.eq_of_send? {value object : Json}
    (h : ConnectAnswer.send? value = some (.jwt object)) : value = object := by
  cases value with
  | number n => cases h
  | _ => exact ConnectAnswer.jwt.inj (Option.some.inj h)

namespace ConnectAction

/-- The step of the cache that an endpoint makes. -/
def cacheAction? : ConnectAction → Option CacheAction
  | .clock elapsed => some (.clock elapsed)
  | .postPar requestId body =>
    (ConnectRun.parRequest body).toOption.map (.setWeb5ConnectRequest requestId)
  | .getAuthorize requestId => some (.getWeb5ConnectRequest requestId)
  | .postCallback body =>
    (ConnectRun.callbackResponse body).toOption.map fun p => .setWeb5ConnectResponse p.1 p.2
  | .getToken state => some (.getWeb5ConnectResponse state)
  | .cleanUpExpiredEntries => some .cleanUpExpiredEntries
  | .execute i succeeds => some (.execute i succeeds)
  | .resume i => some (.resume i)
  | .acknowledge _ => none

def elapsed : ConnectAction → ℕ
  | .clock elapsed => elapsed
  | _ => 0

/-- The key that a request asks for. -/
def asks? : ConnectAction → Option JsString
  | .getAuthorize requestId => some (SqlTtlCache.requestKey requestId)
  | .getToken state => some (SqlTtlCache.responseKey state)
  | _ => none

/-- A request meets the one that posted the object it asks for. -/
inductive Meets : ConnectAction → ConnectAction → Json → Prop
  | authorize {requestId : JsString} {body request : Json}
      (h : ConnectRun.parRequest body = .ok request) :
      Meets (.getAuthorize requestId) (.postPar requestId body) request
  | token {body state idToken : Json} {text : JsString}
      (h : ConnectRun.callbackResponse body = .ok (state, idToken))
      (hstate : state.toText? = some text) : Meets (.getToken text) (.postCallback body) idToken

/-- A request puts the object into the table under the key. -/
inductive Offers : ConnectAction → JsString → Json → Prop
  | request {requestId : JsString} {body request : Json}
      (h : ConnectRun.parRequest body = .ok request) :
      Offers (.postPar requestId body) (SqlTtlCache.requestKey requestId) request
  | response {body state idToken : Json} {text : JsString}
      (h : ConnectRun.callbackResponse body = .ok (state, idToken))
      (hstate : state.toText? = some text) :
      Offers (.postCallback body) (SqlTtlCache.responseKey text) idToken

end ConnectAction

open ConnectAction

/-- The time that passes in a run. -/
def elapsed (as : List ConnectAction) : ℕ := (as.map ConnectAction.elapsed).sum

@[simp] theorem elapsed_nil : elapsed [] = 0 := rfl

@[simp] theorem elapsed_append (as bs : List ConnectAction) :
    elapsed (as ++ bs) = elapsed as + elapsed bs := by
  simp [elapsed]

@[simp] theorem elapsed_cons (a : ConnectAction) (as : List ConnectAction) :
    elapsed (a :: as) = a.elapsed + elapsed as := by
  simp [elapsed]

/-! ## Keys -/

theorem requestKey_ne_responseKey (requestId state : JsString) :
    SqlTtlCache.requestKey requestId ≠ SqlTtlCache.responseKey state := by
  intro h
  -- the third character tells them apart
  have hrequest : (SqlTtlCache.requestKey requestId)[2]? = (js "request:")[2]? :=
    List.getElem?_append_left (by decide)
  have hresponse : (SqlTtlCache.responseKey state)[2]? = (js "response:")[2]? :=
    List.getElem?_append_left (by decide)
  rw [h, hresponse] at hrequest
  revert hrequest
  decide

/-- What is asked for at one endpoint was offered at its counterpart, with the same id. -/
theorem meets_of_offers {get post : ConnectAction} {key : JsString} {object : Json}
    (hasks : get.asks? = some key) (hoffers : post.Offers key object) :
    get.Meets post object := by
  cases get with
  | getAuthorize requestId =>
    obtain rfl := Option.some.inj hasks
    generalize hkey : SqlTtlCache.requestKey requestId = key at hoffers
    cases hoffers with
    | request h =>
      obtain rfl := List.append_cancel_left hkey
      exact .authorize h
    | response h hstate =>
      exact absurd hkey (requestKey_ne_responseKey requestId _)
  | getToken state =>
    obtain rfl := Option.some.inj hasks
    generalize hkey : SqlTtlCache.responseKey state = key at hoffers
    cases hoffers with
    | request h =>
      exact absurd hkey.symm (requestKey_ne_responseKey _ state)
    | response h hstate =>
      obtain rfl := List.append_cancel_left hkey
      exact .token h hstate
  | _ => cases hasks

/-! ## Steps of the cache -/

section Cache

variable {w t : SqlTtlCache} {a : CacheAction}

/-- A call of `get` for the key, or how it has ended. -/
def Gets (key : JsString) (reader : CacheReader) : CacheCall → Prop
  | .selecting key' reader' => key' = key ∧ reader' = reader
  | .selected key' reader' _ => key' = key ∧ reader' = reader
  | .returned .. | .missed | .failed => True
  | _ => False

theorem now_resume (i : ℕ) (key : JsString) (reader : CacheReader) (result : Option CacheEntry) :
    (w.resume i key reader result).now = w.now := by
  unfold SqlTtlCache.resume
  cases result with
  | none => rfl
  | some entry =>
    dsimp only
    split_ifs
    · rfl
    · cases Json.parse entry.value <;> cases reader <;> rfl

theorem now_execute {i : ℕ} {call : CacheCall} (h : w.execute i call = some t) : t.now = w.now := by
  cases call with
  | inserting =>
    simp only [SqlTtlCache.execute] at h
    split_ifs at h <;> obtain rfl := Option.some.inj h <;> rfl
  | selecting | deleting | cleaning =>
    obtain rfl := Option.some.inj h
    rfl
  | _ => cases h

theorem now_step (h : w.step a = some t) (ha : ∀ elapsed, a ≠ .clock elapsed) : t.now = w.now := by
  cases a with
  | clock elapsed => exact absurd rfl (ha elapsed)
  | execute i succeeds =>
    obtain ⟨call, -, h⟩ := Option.bind_eq_some_iff.mp h
    obtain ⟨executed, hexecuted, h⟩ := Option.bind_eq_some_iff.mp h
    obtain rfl := Option.some.inj h
    cases succeeds with
    | true => exact now_execute hexecuted
    | false => rfl
  | resume i =>
    simp only [SqlTtlCache.step] at h
    split at h
    · obtain rfl := Option.some.inj h
      exact now_resume i _ _ _
    · cases h
  | setWeb5ConnectResponse state response =>
    obtain rfl := Option.some.inj h
    unfold SqlTtlCache.setWeb5ConnectResponse
    split <;> rfl
  | _ =>
    obtain rfl := Option.some.inj h
    rfl

variable {i : ℕ} {key : JsString} {reader : CacheReader} {call : CacheCall}

theorem gets_resume {result : Option CacheEntry} (hi : i < w.calls.length) :
    ∃ call, (w.resume i key reader result).calls[i]? = some call ∧ Gets key reader call := by
  have hset : ∀ call, (w.setCall i call).calls[i]? = some call := fun call =>
    List.getElem?_set_self hi
  unfold SqlTtlCache.resume
  cases result with
  | none => exact ⟨.missed, hset _, trivial⟩
  | some entry =>
    dsimp only
    split_ifs
    · exact ⟨.missed, SqlTtlCache.getElem?_begin_of_some (hset _), trivial⟩
    cases Json.parse entry.value with
    | none => exact ⟨.failed, hset _, trivial⟩
    | some value =>
      refine ⟨.returned reader value entry.insert, ?_, trivial⟩
      cases reader with
      | cache => exact hset _
      | connect => exact SqlTtlCache.getElem?_begin_of_some (hset _)

/-- A call of `get` stays one for its key. -/
theorem gets_step (h : w.step a = some t) (hi : w.calls[i]? = some call)
    (hcall : Gets key reader call) :
    ∃ call', t.calls[i]? = some call' ∧ Gets key reader call' := by
  obtain ⟨hlt, -⟩ := List.getElem?_eq_some_iff.mp hi
  by_cases hresume : a = .resume i
  · subst hresume
    simp only [SqlTtlCache.step, hi] at h
    cases call with
    | selected key' reader' result =>
      obtain ⟨rfl, rfl⟩ := hcall
      obtain rfl := Option.some.inj h
      exact gets_resume hlt
    | _ => cases h
  by_cases hexecute : ∃ succeeds, a = .execute i succeeds
  · obtain ⟨succeeds, rfl⟩ := hexecute
    obtain ⟨old, hold, h⟩ := Option.bind_eq_some_iff.mp h
    obtain rfl := Option.some.inj (hold.symm.trans hi)
    obtain ⟨executed, hexecuted, h⟩ := Option.bind_eq_some_iff.mp h
    obtain rfl := Option.some.inj h
    cases succeeds with
    | false => exact ⟨.failed, List.getElem?_set_self hlt, trivial⟩
    | true =>
      cases old with
      | selecting key' reader' =>
        obtain rfl := Option.some.inj hexecuted
        exact ⟨_, List.getElem?_set_self hlt, hcall⟩
      | selected | returned | missed | failed => cases hexecuted
      | _ => cases hcall
  · exact ⟨call, SqlTtlCache.call_of_step h hi (fun succeeds ha => hexecute ⟨succeeds, ha⟩) hresume,
      hcall⟩

end Cache

/-! ## Where rows come from -/

/-- The row was offered in the past, and expires when its time to live has passed. -/
def Offered (now : ℤ) (past : List ConnectAction) (key text : JsString) (expiry : ℤ) : Prop :=
  ∃ front post back object, past = front ++ post :: back ∧ post.Offers key object ∧
    text = object.stringify ∧ expiry = now + elapsed front + SqlTtlCache.ttlInSeconds * 1000

theorem Offered.append {now expiry : ℤ} {past : List ConnectAction} {key text : JsString}
    (h : Offered now past key text expiry) (more : List ConnectAction) :
    Offered now (past ++ more) key text expiry := by
  obtain ⟨front, post, back, object, rfl, hoffers, htext, hexpiry⟩ := h
  exact ⟨front, post, back ++ more, object, by simp, hoffers, htext, hexpiry⟩

/-- What has happened up to a state accounts for the clock and for all rows. -/
structure Sourced (now : ℤ) (past : List ConnectAction) (w : SqlTtlCache) : Prop where
  clock : w.now = now + elapsed past
  inserting : ∀ (i : ℕ) key text expiry, w.calls[i]? = some (.inserting key text expiry) →
    Offered now past key text expiry
  rows : ∀ key row, w.cacheEntries.get? key = some row →
    Offered now past key row.value row.expiry
  selected : ∀ (i : ℕ) key reader row,
    w.calls[i]? = some (.selected key reader (some row)) →
      Offered now past key row.value row.expiry

theorem sourced_new (now : ℤ) : Sourced now [] (.new now .empty) where
  clock := by simp [SqlTtlCache.new]
  inserting _ _ _ _ h := by cases h
  rows _ _ h := by cases h
  selected _ _ _ _ h := by cases h

/-- An insert that an endpoint begins is offered by its request. -/
theorem offers_of_insertion {a : ConnectAction} {b : CacheAction} {w : SqlTtlCache} {n : Insertion}
    (hb : a.cacheAction? = some b) (hn : InsertRun.insertion? w b = some n) :
    a.Offers n.key n.value ∧ n.expiry = w.now + SqlTtlCache.ttlInSeconds * 1000 := by
  cases a with
  | postPar requestId body =>
    obtain ⟨request, hrequest, rfl⟩ := Option.map_eq_some_iff.mp hb
    obtain rfl := Option.some.inj hn
    cases hparsed : ConnectRun.parRequest body with
    | error response => rw [hparsed] at hrequest; cases hrequest
    | ok request' =>
      rw [hparsed] at hrequest
      obtain rfl := Option.some.inj hrequest
      exact ⟨.request hparsed, rfl⟩
  | postCallback body =>
    obtain ⟨⟨state, idToken⟩, hresponse, rfl⟩ := Option.map_eq_some_iff.mp hb
    obtain ⟨text, htext, rfl⟩ := Option.map_eq_some_iff.mp hn
    cases hparsed : ConnectRun.callbackResponse body with
    | error response => rw [hparsed] at hresponse; cases hresponse
    | ok p =>
      rw [hparsed] at hresponse
      obtain rfl := Option.some.inj hresponse
      exact ⟨.response hparsed htext, rfl⟩
  | acknowledge => cases hb
  | _ =>
    obtain rfl := Option.some.inj hb
    cases hn

theorem elapsed_of_cacheAction {a : ConnectAction} {b : CacheAction}
    {w t : SqlTtlCache} (hb : a.cacheAction? = some b) (h : w.step b = some t) :
    t.now = w.now + a.elapsed := by
  cases a with
  | clock elapsed =>
    obtain rfl := Option.some.inj hb
    obtain rfl := Option.some.inj h
    rfl
  | postPar | postCallback =>
    obtain ⟨_, -, rfl⟩ := Option.map_eq_some_iff.mp hb
    simp [now_step h nofun, ConnectAction.elapsed]
  | acknowledge => cases hb
  | _ =>
    obtain rfl := Option.some.inj hb
    simp [now_step h nofun, ConnectAction.elapsed]

theorem Sourced.step {now : ℤ} {past : List ConnectAction} {a : ConnectAction} {b : CacheAction}
    {w t : SqlTtlCache} (hw : Sourced now past w) (hb : a.cacheAction? = some b)
    (h : w.step b = some t) : Sourced now (past ++ [a]) t := by
  refine ⟨?_, fun i key text expiry hi => ?_, fun key row hrow => ?_, fun i key reader row hi => ?_⟩
  · rw [elapsed_of_cacheAction hb h, hw.clock]
    simp
    omega
  · rcases InsertRun.arises h hi with hold | hnew
    · exact (hw.inserting i key text expiry hold).append _
    · cases hnew with
      | inserting n hn hj =>
        obtain ⟨hoffers, hexpiry⟩ := offers_of_insertion hb hn
        exact ⟨past, a, [], n.value, rfl, hoffers, rfl, by rw [hexpiry, hw.clock]⟩
      | other hcall => cases hcall
  · rcases CacheRun.row_of_step h hrow with hold | ⟨hcall, -⟩
    · exact (hw.rows key row hold).append _
    · exact (hw.inserting _ _ _ _ hcall).append _
  · rcases (SqlTtlCache.stepped h).calls i _ hi with hold | hread
    · exact (hw.selected i key reader row hold).append _
    · exact (hw.rows key row hread.symm).append _

/-! ## Runs of the endpoints -/

namespace ConnectRun

/-- The answer to the request that began a call. -/
def answer? (w : ConnectRun) (call : ℕ) : Option ConnectAnswer :=
  w.cacheRun.cache.calls[call]?.bind CacheCall.answer?

variable {w u t : ConnectRun} {a get : ConnectAction} {past before after : List ConnectAction}
  {now : ℤ} {call : ℕ} {key : JsString}

/-- An action makes the step of the cache that it has, or leaves the cache. -/
theorem cache_of_step (h : w.step a = some t) :
    a.cacheAction? = none ∧ t.cacheRun.cache = w.cacheRun.cache ∧ a.elapsed = 0 ∨
      ∃ b, a.cacheAction? = some b ∧ w.cacheRun.cache.step b = some t.cacheRun.cache := by
  have hquery : ∀ {b t}, w.query b = some t → w.cacheRun.cache.step b = some t.cacheRun.cache := by
    intro b t h
    obtain ⟨cacheRun, hstep, rfl⟩ := Option.map_eq_some_iff.mp h
    exact CacheRun.cache_of_step hstep
  have hstore : ∀ {b key object response t}, w.store b key object response = some t →
      w.cacheRun.cache.step b = some t.cacheRun.cache := by
    intro b key object response t h
    obtain ⟨v, hv, rfl⟩ := Option.map_eq_some_iff.mp h
    have hstep := hquery hv
    exact hstep
  cases a with
  | postPar requestId body =>
    simp only [step, postPar] at h
    split at h
    · rename_i response hparsed
      obtain rfl := Option.some.inj h
      exact Or.inl ⟨by simp [cacheAction?, hparsed, Except.toOption], rfl, rfl⟩
    · rename_i request hparsed
      exact Or.inr ⟨_, by simp [cacheAction?, hparsed, Except.toOption], hstore h⟩
  | postCallback body =>
    simp only [step, postCallback] at h
    split at h
    · rename_i response hparsed
      obtain rfl := Option.some.inj h
      exact Or.inl ⟨by simp [cacheAction?, hparsed, Except.toOption], rfl, rfl⟩
    · rename_i state idToken hparsed
      refine Or.inr ⟨.setWeb5ConnectResponse state idToken,
        by simp [cacheAction?, hparsed, Except.toOption], ?_⟩
      split at h
      · exact hquery h
      · exact hstore h
  | acknowledge i =>
    obtain ⟨s, -, rfl⟩ := Option.map_eq_some_iff.mp h
    exact Or.inl ⟨rfl, rfl, rfl⟩
  | _ => exact Or.inr ⟨_, rfl, hquery h⟩

theorem sourced_step (hw : Sourced now past w.cacheRun.cache) (h : w.step a = some t) :
    Sourced now (past ++ [a]) t.cacheRun.cache := by
  rcases cache_of_step h with ⟨-, hsame, helapsed⟩ | ⟨b, hb, hstep⟩
  · rw [hsame]
    exact ⟨by simp [hw.clock, helapsed],
      fun i key text expiry hi => (hw.inserting i key text expiry hi).append _,
      fun key row hrow => (hw.rows key row hrow).append _,
      fun i key reader row hi => (hw.selected i key reader row hi).append _⟩
  · exact hw.step hb hstep

/-- The call has returned a value that was offered under its key, less than the time to live
before. -/
def HandsOver (past : List ConnectAction) (call : ℕ) (key : JsString) (value : Json) : Prop :=
  ∃ front post mid back object, past = front ++ post :: (mid ++ .resume call :: back) ∧
    post.Offers key object ∧ value = object.reparsed ∧
    elapsed mid < SqlTtlCache.ttlInSeconds * 1000

theorem HandsOver.append {value : Json} (h : HandsOver past call key value)
    (more : List ConnectAction) : HandsOver (past ++ more) call key value := by
  obtain ⟨front, post, mid, back, object, rfl, hoffers, hvalue, htime⟩ := h
  exact ⟨front, post, mid, back ++ more, object, by simp, hoffers, hvalue, htime⟩

/-- A call of `get` of an endpoint, and what it has returned. -/
structure Follows (past : List ConnectAction) (call : ℕ) (key : JsString) (w : ConnectRun) :
    Prop where
  gets : ∃ c, w.cacheRun.cache.calls[call]? = some c ∧ Gets key .connect c
  returned : ∀ reader value insert,
    w.cacheRun.cache.calls[call]? = some (.returned reader value insert) →
      HandsOver past call key value

theorem Follows.step (hw : w.Follows past call key) (hs : Sourced now past w.cacheRun.cache)
    (h : w.step a = some t) : t.Follows (past ++ [a]) call key := by
  obtain ⟨c, hc, hgets⟩ := hw.gets
  rcases cache_of_step h with ⟨-, hsame, -⟩ | ⟨b, hb, hstep⟩
  · exact ⟨⟨c, hsame ▸ hc, hgets⟩,
      fun reader value insert hi => (hw.returned reader value insert (hsame ▸ hi)).append _⟩
  refine ⟨gets_step hstep hc hgets, fun reader value insert hi => ?_⟩
  rcases InsertRun.arises hstep hi with hold | hnew
  · exact (hw.returned reader value insert hold).append _
  · cases hnew with
    | @returned key' _ row _ hj hnow hvalue =>
      obtain rfl := Option.some.inj (hc.symm.trans hj)
      obtain ⟨rfl, -⟩ := hgets
      obtain ⟨front, post, back, object, hpast, hoffers, htext, hexpiry⟩ :=
        hs.selected call _ _ row hj
      have ha : a = .resume call := by
        cases a with
        | resume i => exact congrArg ConnectAction.resume (CacheAction.resume.inj
            (Option.some.inj hb))
        | postPar | postCallback =>
          obtain ⟨_, -, heq⟩ := Option.map_eq_some_iff.mp hb
          cases heq
        | _ => cases hb
      subst ha
      rw [htext, Json.parse_stringify] at hvalue
      refine ⟨front, post, back, [], object, by rw [hpast]; simp, hoffers,
        (Option.some.inj hvalue).symm, ?_⟩
      rw [hexpiry, hs.clock, hpast] at hnow
      simp only [elapsed_append, elapsed_cons] at hnow
      push_cast at hnow
      omega
    | other hcall => cases hcall

/-- In every run, an object that a request is answered with was posted to the counterpart of its
endpoint, under the same id, and less than the time to live before it was returned. -/
theorem handed_over {baseUrl : JsString} {object : Json}
    (hbefore : run step (new baseUrl now) before = some w) (hget : w.step get = some u)
    (hasks : get.asks? = some key) (hafter : run step u after = some t)
    (hanswer : t.answer? w.cacheRun.cache.calls.length = some (.jwt object)) :
    ∃ front post mid back posted, before ++ get :: after =
        front ++ post :: (mid ++ .resume w.cacheRun.cache.calls.length :: back) ∧
      get.Meets post posted ∧ object = posted.reparsed ∧ object.truthy = true ∧
      elapsed mid < SqlTtlCache.ttlInSeconds * 1000 := by
  have hw : Sourced now before w.cacheRun.cache :=
    run_history (I := fun past v => Sourced now past v.cacheRun.cache)
      (fun _ _ _ _ _ hs hstep => sourced_step hs hstep) (sourced_new now) hbefore
  set call := w.cacheRun.cache.calls.length with hcall
  -- the request begins the call
  have hu : u.cacheRun.cache = w.cacheRun.cache.get key .connect := by
    rcases cache_of_step hget with ⟨hnone, -⟩ | ⟨b, hb, hstep⟩
    · cases get <;> cases hasks <;> cases hnone
    · cases get with
      | getAuthorize | getToken =>
        obtain rfl := Option.some.inj hasks
        obtain rfl := Option.some.inj hb
        exact (Option.some.inj hstep).symm
      | _ => cases hasks
  have hstart : u.Follows (before ++ [get]) call key := by
    have hlast : u.cacheRun.cache.calls[call]? = some (.selecting key .connect) := by
      rw [hu]
      exact List.getElem?_concat_length
    refine ⟨⟨_, hlast, rfl, rfl⟩, fun reader value insert hi => ?_⟩
    cases hlast.symm.trans hi
  have ht : Sourced now ((before ++ [get]) ++ after) t.cacheRun.cache ∧
      t.Follows ((before ++ [get]) ++ after) call key :=
    run_history (I := fun past v => Sourced now ((before ++ [get]) ++ past) v.cacheRun.cache ∧
        v.Follows ((before ++ [get]) ++ past) call key)
      (fun past _ a _ _ hv hstep => by
        rw [← List.append_assoc]
        exact ⟨sourced_step hv.1 hstep, hv.2.step hv.1 hstep⟩)
      (by simpa using ⟨sourced_step hw hget, hstart⟩) hafter
  obtain ⟨c, hc, hends⟩ := Option.bind_eq_some_iff.mp hanswer
  cases c with
  | returned reader value insert =>
    simp only [CacheCall.answer?] at hends
    split_ifs at hends with htruthy
    · obtain rfl := ConnectAnswer.eq_of_send? hends
      obtain ⟨front, post, mid, back, posted, hpast, hoffers, hvalue, htime⟩ :=
        ht.2.returned reader value insert hc
      exact ⟨front, post, mid, back, posted, by rw [← hpast]; simp, meets_of_offers hasks hoffers,
        hvalue, htruthy, htime⟩
    · cases hends
  | missed => cases hends
  | _ => cases hends

/-- A response is stored, acknowledged and, nine minutes later, fetched. -/
theorem handed_over_response : ∃ front post mid back posted,
    [response "first", .execute 0 true, .acknowledge 0, .clock 540000] ++
        .getToken (js "s") :: [.execute 1 true, .resume 1] =
      front ++ post :: (mid ++ .resume 1 :: back) ∧
    Meets (.getToken (js "s")) post posted ∧ .string (js "first") = posted.reparsed ∧
    (Json.string (js "first")).truthy = true ∧
    elapsed mid < SqlTtlCache.ttlInSeconds * 1000 := by
  obtain ⟨w, hbefore, hlength, hrest⟩ : ∃ w, run step (new (js "https://dwn.example") 0)
      [response "first", .execute 0 true, .acknowledge 0, .clock 540000] = some w ∧
      w.cacheRun.cache.calls.length = 1 ∧
      (w.step (.getToken (js "s"))).any (fun u => (run step u [.execute 1 true, .resume 1]).any
        (fun t => decide (t.answer? 1 = some (.jwt (.string (js "first")))))) = true :=
    exists_of_run (by decide +kernel)
  obtain ⟨u, hget, hrest⟩ := (Option.any_eq_true _ _).mp hrest
  obtain ⟨t, hafter, hanswer⟩ := (Option.any_eq_true _ _).mp hrest
  have hover := handed_over hbefore hget rfl hafter (by
    rw [hlength]
    exact of_decide_eq_true hanswer)
  rwa [hlength] at hover

end ConnectRun

end DwnServer
