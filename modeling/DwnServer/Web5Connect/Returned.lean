import DwnServer.Js.JsonRoundTrip
import DwnServer.Web5Connect.LostUpdate

/-!
# What a `get` returns, and what a cleanup removes

A `get` compares the clock with the expiry of the row that its query found, a cleanup compares
its own, earlier reading with the expiries of the table. A run remembers what each insert was
given, so that a returned value can be traced back to it.
-/
namespace DwnServer

open Transition

/-- What a call of `insert` was given, and the expiry that it computed. -/
structure Insertion where
  call : ℕ
  key : JsString
  value : Json
  expiry : ℤ
  deriving DecidableEq

/-- The row that the insert is to create. -/
def Insertion.row (n : Insertion) : CacheEntry := ⟨n.value.stringify, n.expiry, n.call⟩

structure InsertRun where
  cache : SqlTtlCache
  insertions : List Insertion
  deriving DecidableEq

namespace InsertRun

def new (now : ℤ) : InsertRun := ⟨.new now .empty, []⟩

/-- The insert that an action calls. -/
def insertion? (w : SqlTtlCache) : CacheAction → Option Insertion
  | .insert key value ttl => some ⟨w.calls.length, key, value, w.now + ttl * 1000⟩
  | .setWeb5ConnectRequest requestId request =>
    some ⟨w.calls.length, SqlTtlCache.requestKey requestId, request,
      w.now + SqlTtlCache.ttlInSeconds * 1000⟩
  | .setWeb5ConnectResponse state response =>
    state.toText?.map fun state => ⟨w.calls.length, SqlTtlCache.responseKey state, response,
      w.now + SqlTtlCache.ttlInSeconds * 1000⟩
  | _ => none

def step (w : InsertRun) (a : CacheAction) : Option InsertRun :=
  (w.cache.step a).map fun t => ⟨t, w.insertions ++ (insertion? w.cache a).toList⟩

/-- A `get` that goes on at the time `now` or later with this row returns nothing. -/
def Refused (now : ℤ) (row : CacheEntry) : Prop :=
  ∀ (u : SqlTtlCache) (i : ℕ) key reader, i < u.calls.length → now ≤ u.now →
    (u.resume i key reader (some row)).calls[i]? = some .missed

/-- What a `get` returns in a step has the text of what a successful insert was given, whose
row it had read, and which has not expired. A cleanup removes rows that are refused from its
reading of the clock on, and changes no others. -/
structure ServesInserted (w : InsertRun) (a : CacheAction) (t : InsertRun) : Prop where
  returned : ∀ (i : ℕ) reader value insert,
    t.cache.calls[i]? = some (.returned reader value insert) →
      w.cache.calls[i]? ≠ some (.returned reader value insert) →
        ∃ n ∈ w.insertions, n.call = insert ∧
          w.cache.calls[n.call]? = some .inserted ∧
          w.cache.calls[i]? = some (.selected n.key reader (some n.row)) ∧
          w.cache.now < n.expiry ∧
          (n.value.Enumerated → value.stringify = n.value.stringify) ∧
          (n.value.Canonical → value = n.value)
  removed : ∀ (i : ℕ) succeeds now, a = .execute i succeeds →
    w.cache.calls[i]? = some (.cleaning now) → ∀ key row,
      w.cache.cacheEntries.get? key = some row →
        t.cache.cacheEntries.get? key = some row ∨
          t.cache.cacheEntries.get? key = none ∧ Refused now row

/-! ## Where calls come from -/

/-- The call tells a value that was inserted. -/
def tells : CacheCall → Bool
  | .inserting .. | .returned .. => true
  | _ => false

/-- How a call comes to stand at the place `j`: an insert begins, a `get` returns what it has
read before it expired, or another call begins or advances. -/
inductive Arises (w : SqlTtlCache) (j : ℕ) : CacheAction → CacheCall → Prop
  | inserting {a : CacheAction} (n : Insertion) (ha : insertion? w a = some n) (hj : n.call = j) :
      Arises w j a (.inserting n.key n.value.stringify n.expiry)
  | returned {key : JsString} {reader : CacheReader} {row : CacheEntry} {value : Json}
      (hj : w.calls[j]? = some (.selected key reader (some row))) (hnow : w.now < row.expiry)
      (hvalue : Json.parse row.value = some value) :
      Arises w j (.resume j) (.returned reader value row.insert)
  | other {a : CacheAction} {call : CacheCall} (hcall : tells call = false) : Arises w j a call

section Cache

variable {w t : SqlTtlCache} {a : CacheAction} {i j : ℕ} {call call' : CacheCall}

theorem getElem?_setCall (h : (w.setCall i call).calls[j]? = some call') :
    w.calls[j]? = some call' ∨ j = i ∧ call' = call := by
  simp only [SqlTtlCache.setCall, List.getElem?_set] at h
  split_ifs at h with hij
  · exact Or.inr ⟨hij.symm, (Option.some.inj h).symm⟩
  · exact Or.inl h

theorem arises_begin (h : (w.begin call).calls[j]? = some call')
    (hcall : tells call = false) :
    w.calls[j]? = some call' ∨ Arises w j a call' := by
  rcases SqlTtlCache.getElem?_begin h with hold | rfl
  · exact Or.inl hold
  · exact Or.inr (.other hcall)

theorem arises_setCall (h : (w.setCall i call).calls[j]? = some call')
    (hcall : tells call = false) :
    w.calls[j]? = some call' ∨ Arises w j a call' := by
  rcases getElem?_setCall h with hold | ⟨-, rfl⟩
  · exact Or.inl hold
  · exact Or.inr (.other hcall)

theorem arises_insert {key : JsString} {value : Json} {ttl : ℤ}
    (ha : insertion? w a = some ⟨w.calls.length, key, value, w.now + ttl * 1000⟩)
    (h : (w.insert key value ttl).calls[j]? = some call) :
    w.calls[j]? = some call ∨ Arises w j a call := by
  rcases Numbered.getElem?_append_singleton h with hold | ⟨hj, rfl⟩
  · exact Or.inl hold
  · exact Or.inr (.inserting _ ha hj.symm)

theorem arises_execute (hexecute : w.execute i call = some t) (h : t.calls[j]? = some call') :
    w.calls[j]? = some call' ∨ Arises w j a call' := by
  cases call with
  | inserting key value expiry =>
    simp only [SqlTtlCache.execute] at hexecute
    split_ifs at hexecute <;> obtain rfl := Option.some.inj hexecute <;>
      exact arises_setCall h rfl
  | selecting | deleting | cleaning =>
    obtain rfl := Option.some.inj hexecute
    exact arises_setCall h rfl
  | _ => cases hexecute

theorem arises_delete {key : JsString} {u : SqlTtlCache}
    (hu : ∀ call', u.calls[j]? = some call' → w.calls[j]? = some call' ∨ Arises w j a call')
    (h : (u.delete key).calls[j]? = some call) : w.calls[j]? = some call ∨ Arises w j a call := by
  rcases SqlTtlCache.getElem?_begin h with hold | rfl
  · exact hu call hold
  · exact Or.inr (.other rfl)

theorem arises_resume {key : JsString} {reader : CacheReader} {result : Option CacheEntry}
    (hi : w.calls[i]? = some (.selected key reader result))
    (h : (w.resume i key reader result).calls[j]? = some call) :
    w.calls[j]? = some call ∨ Arises w j (.resume i) call := by
  cases result with
  | none => exact arises_setCall h rfl
  | some row =>
    simp only [SqlTtlCache.resume] at h
    split_ifs at h with hexpired
    · exact arises_delete (fun _ h => arises_setCall h rfl) h
    · cases hparse : Json.parse row.value with
      | none =>
        rw [hparse] at h
        exact arises_setCall h rfl
      | some value =>
        rw [hparse] at h
        have hreturned : ∀ call', (w.setCall i (.returned reader value row.insert)).calls[j]? =
            some call' → w.calls[j]? = some call' ∨ Arises w j (.resume i) call' := by
          intro call' h
          rcases getElem?_setCall h with hold | ⟨rfl, rfl⟩
          · exact Or.inl hold
          · exact Or.inr (.returned hi (not_le.mp hexpired) hparse)
        cases reader with
        | cache => exact hreturned call h
        | connect => exact arises_delete hreturned h

/-- A call after a step was there before, or the step has brought it about. -/
theorem arises (h : w.step a = some t) (hj : t.calls[j]? = some call) :
    w.calls[j]? = some call ∨ Arises w j a call := by
  cases a with
  | clock elapsed =>
    obtain rfl := Option.some.inj h
    exact Or.inl hj
  | insert | setWeb5ConnectRequest =>
    obtain rfl := Option.some.inj h
    exact arises_insert rfl hj
  | setWeb5ConnectResponse state response =>
    obtain rfl := Option.some.inj h
    unfold SqlTtlCache.setWeb5ConnectResponse at hj
    cases htext : state.toText? with
    | none =>
      rw [htext] at hj
      exact arises_begin hj rfl
    | some text =>
      rw [htext] at hj
      exact arises_insert (by simp [insertion?, htext]) hj
  | get | delete | cleanUpExpiredEntries | getWeb5ConnectRequest | getWeb5ConnectResponse =>
    obtain rfl := Option.some.inj h
    exact arises_begin hj rfl
  | execute i succeeds =>
    obtain ⟨call', hi, h⟩ := Option.bind_eq_some_iff.mp h
    obtain ⟨executed, hexecuted, h⟩ := Option.bind_eq_some_iff.mp h
    obtain rfl := Option.some.inj h
    cases succeeds with
    | false => exact arises_setCall hj rfl
    | true => exact arises_execute hexecuted hj
  | resume i =>
    simp only [SqlTtlCache.step] at h
    split at h
    · rename_i key reader result hi
      obtain rfl := Option.some.inj h
      exact arises_resume hi hj
    · cases h

/-- A row that had expired by a time is refused from then on. -/
theorem refused_of_expired {now : ℤ} {row : CacheEntry} (h : row.expiry ≤ now) :
    Refused now row := by
  intro u i key reader hi hnow
  have hexpired : u.now ≥ row.expiry := h.trans hnow
  simp only [SqlTtlCache.resume, if_pos hexpired]
  exact SqlTtlCache.getElem?_begin_of_some (List.getElem?_set_self hi)

end Cache

/-! ## Steps of a run -/

variable {w t : InsertRun} {a : CacheAction} {key : JsString} {row : CacheEntry}

/-- The row was created by an insert that succeeded. -/
def Stored (w : InsertRun) (key : JsString) (row : CacheEntry) : Prop :=
  ∃ n ∈ w.insertions, n.key = key ∧ n.row = row ∧ w.cache.calls[n.call]? = some .inserted

/-- What every step keeps. -/
structure Recorded (w : InsertRun) : Prop where
  inserting : ∀ (i : ℕ) key text expiry,
    w.cache.calls[i]? = some (.inserting key text expiry) →
      ∃ n ∈ w.insertions, n.key = key ∧ n.row = ⟨text, expiry, i⟩
  rows : ∀ key row, w.cache.cacheEntries.get? key = some row → w.Stored key row
  selected : ∀ (i : ℕ) key reader row,
    w.cache.calls[i]? = some (.selected key reader (some row)) → w.Stored key row

theorem recorded_new (now : ℤ) : (new now).Recorded where
  inserting _ _ _ _ h := by cases h
  rows _ _ h := by cases h
  selected _ _ _ _ h := by cases h

theorem insertions_step (h : w.step a = some t) :
    w.cache.step a = some t.cache ∧
      t.insertions = w.insertions ++ (insertion? w.cache a).toList := by
  obtain ⟨cache, hcache, rfl⟩ := Option.map_eq_some_iff.mp h
  exact ⟨hcache, rfl⟩

theorem mem_insertions_step {n : Insertion} (hn : n ∈ w.insertions) (h : w.step a = some t) :
    n ∈ t.insertions := by
  rw [(insertions_step h).2]
  exact List.mem_append_left _ hn

theorem Stored.step (hw : w.Stored key row) (h : w.step a = some t) : t.Stored key row := by
  obtain ⟨n, hn, hkey, hrow, hinserted⟩ := hw
  exact ⟨n, mem_insertions_step hn h, hkey, hrow,
    (SqlTtlCache.stepped (insertions_step h).1).settled _ _ hinserted not_false⟩

theorem Recorded.step (hw : w.Recorded) (h : w.step a = some t) : t.Recorded := by
  obtain ⟨hcache, hinsertions⟩ := insertions_step h
  refine ⟨fun i key text expiry hi => ?_, fun key row hrow => ?_, fun i key reader row hi => ?_⟩
  · rcases arises hcache hi with hold | hnew
    · obtain ⟨n, hn, hkey, hrow⟩ := hw.inserting i key text expiry hold
      exact ⟨n, mem_insertions_step hn h, hkey, hrow⟩
    · cases hnew with
      | inserting n ha hj =>
        refine ⟨n, ?_, rfl, by rw [← hj]; rfl⟩
        rw [hinsertions, ha]
        exact List.mem_append_right _ (List.mem_singleton_self n)
      | other hcall => cases hcall
  · rcases CacheRun.row_of_step hcache hrow with hold | ⟨hcall, hinserted⟩
    · exact (hw.rows key row hold).step h
    · obtain ⟨n, hn, hkey, hsame⟩ := hw.inserting row.insert key row.value row.expiry hcall
      have hcall : n.call = row.insert := congrArg CacheEntry.insert hsame
      exact ⟨n, mem_insertions_step hn h, hkey, hsame, hcall ▸ hinserted⟩
  · rcases (SqlTtlCache.stepped hcache).calls i _ hi with hold | hread
    · exact (hw.selected i key reader row hold).step h
    · exact (hw.rows key row hread.symm).step h

theorem Recorded.servesInserted (hw : w.Recorded) (h : w.step a = some t) :
    w.ServesInserted a t := by
  obtain ⟨hcache, -⟩ := insertions_step h
  refine ⟨fun i reader value insert hi hnew => ?_, fun i succeeds now ha hi key row hrow => ?_⟩
  · rcases arises hcache hi with hold | harises
    · exact absurd hold hnew
    · cases harises with
      | other hcall => cases hcall
      | returned hread hnow hvalue =>
        obtain ⟨n, hn, rfl, rfl, hinserted⟩ := hw.selected i _ reader _ hread
        obtain rfl := Option.some.inj ((Json.parse_stringify n.value).symm.trans hvalue)
        exact ⟨n, hn, rfl, hinserted, hread, hnow, Json.stringify_reparsed n.value,
          Json.reparsed_of_canonical n.value⟩
  · subst ha
    have htabled := SqlTtlCache.tabled hcache
    cases htabled with
    | kept hkept => exact Or.inl (hkept ▸ hrow)
    | inserted hcall => cases hi.symm.trans hcall
    | deleted hcall => cases hi.symm.trans hcall
    | cleaned hcall hfilter =>
      obtain ⟨rfl⟩ := CacheCall.cleaning.inj (Option.some.inj (hi.symm.trans hcall))
      by_cases hexpired : row.expiry < now
      · refine Or.inr ⟨?_, refused_of_expired hexpired.le⟩
        rw [hfilter]
        by_contra hsome
        obtain ⟨row', hrow'⟩ := Option.ne_none_iff_exists'.mp hsome
        obtain ⟨hsame, hkept⟩ := OrderedMap.get?_filter.mp hrow'
        obtain rfl := Option.some.inj (hrow.symm.trans hsame)
        simp [hexpired] at hkept
      · refine Or.inl ?_
        rw [hfilter, OrderedMap.get?_filter]
        exact ⟨hrow, by simpa using hexpired⟩

/-- In every run from an empty table on, each `get` returns what an insert was given and has not
expired, and each cleanup removes what no later `get` would return. -/
theorem serves_inserted (now : ℤ) (as : List CacheAction) :
    Along step ServesInserted (new now) as :=
  along_of_preserved (fun _ _ _ hw h => ⟨hw.step h, hw.servesInserted h⟩)
    (recorded_new now) as

end InsertRun

end DwnServer
