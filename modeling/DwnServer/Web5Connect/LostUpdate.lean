import DwnServer.Web5Connect.CacheSteps

/-!
# Deletions and the rows they are meant for

A deletion names a key, and is executed after the step that decided on it. A row that was
stored under the key in between is deleted in the place of the one that was read. A run
remembers for each deletion who began it.
-/
namespace DwnServer

open Transition

/-- Who began a deletion: a caller of `delete`, with the row that was there under the key, or
a call of `get`, with the row that it had read. -/
inductive DeletionOrigin where
  | caller (target : Option CacheEntry)
  | get (call : ℕ) (read : CacheEntry)
  deriving DecidableEq

/-- The deletion `j` is meant for the row. A caller that finds no row means one whose insert
was called before. -/
def DeletionOrigin.AimedAt (j : ℕ) (entry : CacheEntry) : DeletionOrigin → Prop
  | .caller (some target) => entry.insert = target.insert
  | .caller none => entry.insert < j
  | .get _ read => entry.insert = read.insert

instance (j : ℕ) (entry : CacheEntry) :
    ∀ origin : DeletionOrigin, Decidable (origin.AimedAt j entry)
  | .caller (some target) => inferInstanceAs (Decidable (entry.insert = target.insert))
  | .caller none => inferInstanceAs (Decidable (entry.insert < j))
  | .get _ read => inferInstanceAs (Decidable (entry.insert = read.insert))

structure CacheRun where
  cache : SqlTtlCache
  origins : List (ℕ × DeletionOrigin)
  deriving DecidableEq

namespace CacheRun

def new (now : ℤ) : CacheRun := ⟨.new now .empty, []⟩

/-- The origin of a deletion that the action begins. -/
def origin? (w : SqlTtlCache) : CacheAction → Option DeletionOrigin
  | .delete key => some (.caller (w.cacheEntries.get? key))
  | .resume i =>
    match w.calls[i]? with
    | some (.selected _ _ (some read)) => some (.get i read)
    | _ => none
  | _ => none

/-- The deletion that a step begins, as the last call of the state after it. -/
def begun (w t : SqlTtlCache) (a : CacheAction) : List (ℕ × DeletionOrigin) :=
  if w.calls.length < t.calls.length then (origin? w a).toList.map (w.calls.length, ·) else []

def step (w : CacheRun) (a : CacheAction) : Option CacheRun :=
  (w.cache.step a).map fun t => ⟨t, w.origins ++ begun w.cache t a⟩

/-- The call has returned the value of the row. -/
def Returned (w : SqlTtlCache) (call : ℕ) (entry : CacheEntry) : Prop :=
  ∃ reader value, w.calls[call]? = some (.returned reader value entry.insert) ∧
    Json.parse entry.value = some value

/-- The deletion removes the row it is meant for, and if a `get` began it, this call has
returned the row's value. -/
def Removes (w : CacheRun) (j : ℕ) (entry : CacheEntry) (origin : DeletionOrigin) : Prop :=
  origin.AimedAt j entry ∧ ∀ call read, origin = .get call read → Returned w.cache call entry

/-- A row that has not expired is removed only by a deletion that is meant for it. -/
def KeepsRows (w : CacheRun) (a : CacheAction) (t : CacheRun) : Prop :=
  ∀ key entry, w.cache.cacheEntries.get? key = some entry → w.cache.now < entry.expiry →
    t.cache.cacheEntries.get? key ≠ some entry →
      ∃ j origin, a = .execute j true ∧ w.cache.calls[j]? = some (.deleting key) ∧
        (j, origin) ∈ w.origins ∧ w.Removes j entry origin

/-- A deletion that is executed finds no row that has not expired, or the one that it is
meant for. -/
def DeletesAimed (w : CacheRun) : CacheAction → Prop
  | .execute j true => ∀ key entry, w.cache.calls[j]? = some (.deleting key) →
    w.cache.cacheEntries.get? key = some entry → w.cache.now < entry.expiry →
      ∃ origin, (j, origin) ∈ w.origins ∧ origin.AimedAt j entry
  | _ => True

def deletes? : CacheCall → Option JsString
  | .deleting key => some key
  | _ => none

theorem deletes?_eq_some {call : CacheCall} {key : JsString} :
    deletes? call = some key ↔ call = .deleting key := by
  cases call <;> simp [deletes?]

instance (w : CacheRun) : ∀ a, Decidable (w.DeletesAimed a)
  | .execute j true =>
    decidable_of_iff (∀ key ∈ w.cache.calls[j]?.bind deletes?,
        ∀ entry ∈ w.cache.cacheEntries.get? key, w.cache.now < entry.expiry →
          ∃ p ∈ w.origins, p.1 = j ∧ p.2.AimedAt j entry) <| by
      simp only [Option.mem_def, Option.bind_eq_some_iff, deletes?_eq_some, exists_eq_right]
      constructor
      · intro h key entry hcall hrow hnow
        obtain ⟨⟨j', origin⟩, hmem, rfl, haimed⟩ := h key hcall entry hrow hnow
        exact ⟨origin, hmem, haimed⟩
      · intro h key hcall entry hrow hnow
        obtain ⟨origin, hmem, haimed⟩ := h key entry hcall hrow hnow
        exact ⟨(j, origin), hmem, rfl, haimed⟩
  | .execute _ false | .clock _ | .insert .. | .get _ | .delete _ | .cleanUpExpiredEntries
  | .setWeb5ConnectRequest .. | .getWeb5ConnectRequest _ | .setWeb5ConnectResponse ..
  | .getWeb5ConnectResponse _ | .resume _ => .isTrue trivial

/-! ## Rows that were read -/

/-- The row was inserted, and only it has its number. -/
def Known (w : SqlTtlCache) (entry : CacheEntry) : Prop :=
  w.calls[entry.insert]? = some .inserted ∧
    ∀ key row, w.cacheEntries.get? key = some row → row.insert = entry.insert → row = entry

/-- What every step keeps. A `get` that began a deletion has returned the row that it read, or
this row has expired. -/
structure Tracked (w : CacheRun) : Prop where
  rows : ∀ key entry, w.cache.cacheEntries.get? key = some entry → Known w.cache entry
  selected : ∀ (i : ℕ) key reader entry,
    w.cache.calls[i]? = some (.selected key reader (some entry)) → Known w.cache entry
  cleanings : ∀ (i : ℕ) now, w.cache.calls[i]? = some (.cleaning now) → now ≤ w.cache.now
  origins : ∀ j call read, (j, .get call read) ∈ w.origins →
    Known w.cache read ∧ (read.expiry ≤ w.cache.now ∨ Returned w.cache call read)

theorem tracked_new (now : ℤ) : Tracked (new now) where
  rows _ _ h := by cases h
  selected _ _ _ _ h := by cases h
  cleanings _ _ h := by cases h
  origins _ _ _ h := by cases h

section Cache

variable {w t : SqlTtlCache} {a : CacheAction}

/-- A row of the table after a step was there before, or an insert has just put it there. -/
theorem row_of_step (h : w.step a = some t) {key : JsString} {row : CacheEntry}
    (hrow : t.cacheEntries.get? key = some row) :
    w.cacheEntries.get? key = some row ∨
      w.calls[row.insert]? = some (.inserting key row.value row.expiry) ∧
        t.calls[row.insert]? = some .inserted := by
  cases SqlTtlCache.tabled h with
  | kept hkept => exact Or.inl (hkept ▸ hrow)
  | inserted hcall hfree hinserted hset =>
    rw [hset, OrderedMap.get?_set] at hrow
    split_ifs at hrow with hkey
    · obtain rfl := Option.some.inj hrow
      exact Or.inr ⟨hkey ▸ hcall, hinserted⟩
    · exact Or.inl hrow
  | deleted hcall hdelete =>
    rw [hdelete, OrderedMap.get?_delete] at hrow
    split_ifs at hrow
    exact Or.inl hrow
  | cleaned hcall hfilter =>
    rw [hfilter, OrderedMap.get?_filter] at hrow
    exact Or.inl hrow.1

theorem Known.step {entry : CacheEntry} (hw : Known w entry) (h : w.step a = some t) :
    Known t entry := by
  obtain ⟨hinserted, hunique⟩ := hw
  refine ⟨(SqlTtlCache.stepped h).settled _ _ hinserted not_false, fun key row hrow hsame => ?_⟩
  rcases row_of_step h hrow with hold | ⟨hcall, -⟩
  · exact hunique key row hold hsame
  · rw [hsame, hinserted] at hcall
    cases hcall

theorem Returned.step {call : ℕ} {entry : CacheEntry} (hw : Returned w call entry)
    (h : w.step a = some t) : Returned t call entry := by
  obtain ⟨reader, value, hcall, hparse⟩ := hw
  exact ⟨reader, value, (SqlTtlCache.stepped h).settled _ _ hcall not_false, hparse⟩

/-- A `get` that begins a deletion returns the row that it read, or has found it expired. -/
theorem returned_of_resume {i : ℕ} {key : JsString} {reader : CacheReader} {read : CacheEntry}
    (hi : w.calls[i]? = some (.selected key reader (some read)))
    (hbegun : w.calls.length < (w.resume i key reader (some read)).calls.length) :
    read.expiry ≤ w.now ∨ Returned (w.resume i key reader (some read)) i read := by
  obtain ⟨hlt, -⟩ := List.getElem?_eq_some_iff.mp hi
  unfold SqlTtlCache.resume at hbegun ⊢
  dsimp only at hbegun ⊢
  split_ifs at hbegun ⊢ with hexpired
  · exact Or.inl hexpired
  cases hparse : Json.parse read.value with
  | none => simp [hparse, SqlTtlCache.setCall] at hbegun
  | some value =>
    cases reader with
    | cache => simp [hparse, SqlTtlCache.setCall] at hbegun
    | connect =>
      refine Or.inr ⟨.connect, value, ?_, hparse⟩
      exact SqlTtlCache.getElem?_begin_of_some (List.getElem?_set_self hlt)

end Cache

/-! ## Steps of a run -/

variable {w t : CacheRun} {a : CacheAction}

theorem cache_of_step (h : w.step a = some t) : w.cache.step a = some t.cache := by
  obtain ⟨cache, hcache, rfl⟩ := Option.map_eq_some_iff.mp h
  exact hcache

theorem origin?_eq_get {w : SqlTtlCache} {call : ℕ} {read : CacheEntry}
    (h : origin? w a = some (.get call read)) :
    a = .resume call ∧
      ∃ key reader, w.calls[call]? = some (.selected key reader (some read)) := by
  cases a with
  | resume i =>
    simp only [origin?] at h
    split at h
    · rename_i key reader read' hi
      obtain ⟨rfl, rfl⟩ := DeletionOrigin.get.inj (Option.some.inj h)
      exact ⟨rfl, key, reader, hi⟩
    · cases h
  | _ => cases h

/-- A deletion of `get` was begun before, or its call begins it now. -/
theorem origin_of_step (h : w.step a = some t) {j call : ℕ} {read : CacheEntry}
    (horigin : (j, .get call read) ∈ t.origins) :
    (j, .get call read) ∈ w.origins ∨
      (∃ key reader, w.cache.calls[call]? = some (.selected key reader (some read))) ∧
        (read.expiry ≤ w.cache.now ∨ Returned t.cache call read) := by
  obtain ⟨cache, hcache, rfl⟩ := Option.map_eq_some_iff.mp h
  rcases List.mem_append.mp horigin with hold | hnew
  · exact Or.inl hold
  · unfold begun at hnew
    split_ifs at hnew with hbegun
    · obtain ⟨origin, hbegins, hpair⟩ := List.mem_map.mp hnew
      obtain ⟨rfl, rfl⟩ := Prod.mk.inj hpair
      obtain ⟨rfl, key, reader, hcall⟩ := origin?_eq_get (Option.mem_toList.mp hbegins)
      simp only [SqlTtlCache.step, hcall] at hcache
      obtain rfl := Option.some.inj hcache
      exact Or.inr ⟨⟨key, reader, hcall⟩, returned_of_resume hcall hbegun⟩
    · cases hnew

theorem Tracked.step (hw : w.Tracked) (h : w.step a = some t) : t.Tracked := by
  have hcache := cache_of_step h
  have hstepped := SqlTtlCache.stepped hcache
  refine ⟨fun key entry hrow => ?_, fun i key reader entry hi => ?_, fun i now hi => ?_,
    fun j call read horigin => ?_⟩
  · rcases row_of_step hcache hrow with hold | ⟨hcall, hinserted⟩
    · exact (hw.rows key entry hold).step hcache
    · refine ⟨hinserted, fun key' row hrow' hsame => ?_⟩
      rw [← hsame] at hcall
      rcases row_of_step hcache hrow' with hold | ⟨hcall', -⟩
      · cases hcall.symm.trans (hw.rows key' row hold).1
      · obtain ⟨-, hvalue, hexpiry⟩ := CacheCall.inserting.inj
          (Option.some.inj (hcall.symm.trans hcall'))
        cases row
        cases entry
        simp_all
  · rcases hstepped.calls i _ hi with hold | hread
    · exact (hw.selected i key reader entry hold).step hcache
    · exact (hw.rows key entry hread.symm).step hcache
  · rcases hstepped.calls i _ hi with hold | rfl
    · exact (hw.cleanings i now hold).trans hstepped.clock
    · exact hstepped.clock
  · rcases origin_of_step h horigin with hold | ⟨⟨key, reader, hcall⟩, hdone⟩
    · obtain ⟨hknown, hdone⟩ := hw.origins j call read hold
      refine ⟨hknown.step hcache, ?_⟩
      rcases hdone with hexpired | hreturned
      · exact Or.inl (hexpired.trans hstepped.clock)
      · exact Or.inr (hreturned.step hcache)
    · refine ⟨(hw.selected call key reader read hcall).step hcache, ?_⟩
      exact hdone.imp_left fun hexpired => hexpired.trans hstepped.clock

theorem Tracked.keepsRows (hw : w.Tracked) (hguard : w.DeletesAimed a) (h : w.step a = some t) :
    w.KeepsRows a t := by
  have hcache := cache_of_step h
  intro key entry hrow hunexpired hremoved
  have htabled := SqlTtlCache.tabled hcache
  cases htabled with
  | kept hkept =>
    rw [hkept] at hremoved
    exact absurd hrow hremoved
  | inserted hcall hfree hinserted hset =>
    rw [hset, OrderedMap.get?_set] at hremoved
    split_ifs at hremoved with hkey
    · cases hfree.symm.trans (hkey ▸ hrow)
    · exact absurd hrow hremoved
  | @deleted i key' hcall hdelete =>
    rw [hdelete, OrderedMap.get?_delete] at hremoved
    split_ifs at hremoved with hkey
    · subst hkey
      obtain ⟨origin, horigin, haimed⟩ := hguard key entry hcall hrow hunexpired
      refine ⟨i, origin, rfl, hcall, horigin, haimed, ?_⟩
      rintro call read rfl
      obtain ⟨hknown, hdone⟩ := hw.origins i call read horigin
      obtain rfl := hknown.2 key entry hrow haimed
      exact hdone.resolve_left (not_le.mpr hunexpired)
    · exact absurd hrow hremoved
  | @cleaned i now hcall hfilter =>
    -- a cleanup removes what had expired when it was called
    have hnow := hw.cleanings i now hcall
    have hkept : t.cache.cacheEntries.get? key = some entry := by
      rw [hfilter, OrderedMap.get?_filter]
      exact ⟨hrow, by simp; omega⟩
    exact absurd hkept hremoved

theorem KeepsRows.deletesAimed (ht : w.KeepsRows a t) (h : w.step a = some t) :
    w.DeletesAimed a := by
  unfold DeletesAimed
  split
  · rename_i j
    intro key entry hcall hrow hunexpired
    have hremoved : t.cache.cacheEntries.get? key = none := by
      rw [SqlTtlCache.cacheEntries_of_deleting hcall (cache_of_step h), OrderedMap.get?_delete,
        if_pos rfl]
    obtain ⟨j', origin, ha, -, horigin, haimed, -⟩ := ht key entry hrow hunexpired
      (by simp [hremoved])
    obtain rfl := (CacheAction.execute.inj ha).1
    exact ⟨origin, horigin, haimed⟩
  · trivial

/-- The rows that have not expired are removed only by a deletion that is meant for them, exactly
if no deletion is executed on a row of its key that it is not meant for. -/
theorem keepsRows_iff_deletesAimed (now : ℤ) (as : List CacheAction) :
    Along step KeepsRows (new now) as ↔
      Along step (fun w a _ => w.DeletesAimed a) (new now) as := by
  constructor
  · exact along_of_invariant (fun _ _ _ _ hkeeps h => ⟨trivial, hkeeps.deletesAimed h⟩) trivial
  · exact along_of_invariant (fun _ _ _ hw hguard h => ⟨hw.step h, hw.keepsRows hguard h⟩)
      (tracked_new now)

/-! ## Deletions that are over before the next insert -/

/-- The key of a call that may still delete a row: a deletion, or a `get` that has read one. -/
def deletesLater? : CacheCall → Option JsString
  | .deleting key => some key
  | .selected key _ (some _) => some key
  | _ => none

/-- The key under which a step inserts a row. -/
def inserts? (w : SqlTtlCache) : CacheAction → Option JsString
  | .execute i true =>
    match w.calls[i]? with
    | some (.inserting key _ _) => if w.cacheEntries.has key then none else some key
    | _ => none
  | _ => none

/-- A step inserts no row while a deletion of its key waits to be executed, or a `get` that has read
an earlier row waits to go on. -/
def InsertsApart (w : CacheRun) (a : CacheAction) : Prop :=
  ∀ key ∈ inserts? w.cache a, ∀ call ∈ w.cache.calls, deletesLater? call ≠ some key

instance (w : CacheRun) (a : CacheAction) : Decidable (w.InsertsApart a) :=
  inferInstanceAs (Decidable (∀ key ∈ inserts? w.cache a, ∀ call ∈ w.cache.calls,
    deletesLater? call ≠ some key))

/-- What every step keeps that inserts apart from deletions: the row under a key is the one that
every deletion of the key is meant for, and that every `get` has read. -/
structure Apart (w : CacheRun) : Prop where
  deleting : ∀ (j : ℕ) key entry, w.cache.calls[j]? = some (.deleting key) →
    w.cache.cacheEntries.get? key = some entry →
      ∃ origin, (j, origin) ∈ w.origins ∧ origin.AimedAt j entry
  selected : ∀ (i : ℕ) key reader read entry,
    w.cache.calls[i]? = some (.selected key reader (some read)) →
      w.cache.cacheEntries.get? key = some entry → entry.insert = read.insert

theorem apart_new (now : ℤ) : Apart (new now) where
  deleting _ _ _ h := by cases h
  selected _ _ _ _ _ h := by cases h

section Cache

variable {w : SqlTtlCache} {i j : ℕ} {key : JsString}

/-- While there is a row under a key, it is the one that was there. -/
theorem row_stays {t : SqlTtlCache} (h : w.step a = some t) {row row' : CacheEntry}
    (hrow : w.cacheEntries.get? key = some row) (hrow' : t.cacheEntries.get? key = some row') :
    row' = row := by
  have hold : w.cacheEntries.get? key = some row' := by
    cases SqlTtlCache.tabled h with
    | kept hkept => exact hkept ▸ hrow'
    | inserted hcall hfree hinserted hset =>
      rw [hset, OrderedMap.get?_set] at hrow'
      split_ifs at hrow' with hkey
      · cases hfree.symm.trans (hkey ▸ hrow)
      · exact hrow'
    | deleted hcall hdelete =>
      rw [hdelete, OrderedMap.get?_delete] at hrow'
      split_ifs at hrow'
      exact hrow'
    | cleaned hcall hfilter =>
      rw [hfilter, OrderedMap.get?_filter] at hrow'
      exact hrow'.1
  exact Option.some.inj (hold.symm.trans hrow)

theorem deleting_begin {call : CacheCall} (hcall : call ≠ .deleting key)
    (hj : (w.begin call).calls[j]? = some (.deleting key)) : w.calls[j]? = some (.deleting key) :=
  (SqlTtlCache.getElem?_begin hj).resolve_right fun heq => hcall heq.symm

theorem deleting_setCall {call : CacheCall} (hcall : call ≠ .deleting key)
    (hj : (w.setCall i call).calls[j]? = some (.deleting key)) :
    w.calls[j]? = some (.deleting key) := by
  rw [SqlTtlCache.setCall, List.getElem?_set] at hj
  split_ifs at hj
  · exact absurd (Option.some.inj hj) hcall
  · exact hj

theorem deleting_execute {t : SqlTtlCache} {call : CacheCall} (h : w.execute i call = some t)
    (hj : t.calls[j]? = some (.deleting key)) : w.calls[j]? = some (.deleting key) := by
  cases call with
  | inserting =>
    simp only [SqlTtlCache.execute] at h
    split_ifs at h <;> obtain rfl := Option.some.inj h <;>
      exact deleting_setCall (by simp) hj
  | selecting | deleting | cleaning =>
    obtain rfl := Option.some.inj h
    exact deleting_setCall (by simp) hj
  | _ => cases h

/-- A `get` that goes on begins a deletion as the last call, if any. -/
theorem deleting_resume {key' : JsString} {reader : CacheReader} {result : Option CacheEntry}
    (hj : (w.resume i key' reader result).calls[j]? = some (.deleting key)) :
    w.calls[j]? = some (.deleting key) ∨ j = w.calls.length ∧ key' = key ∧ result ≠ none ∧
      w.calls.length < (w.resume i key' reader result).calls.length := by
  have hdelete : ∀ {call : CacheCall}, call ≠ .deleting key →
      ((w.setCall i call).delete key').calls[j]? = some (.deleting key) →
        w.calls[j]? = some (.deleting key) ∨ j = w.calls.length ∧ key' = key := by
    intro call hcall hj
    rcases Numbered.getElem?_append_singleton hj with hold | ⟨hlast, hkey⟩
    · exact Or.inl (deleting_setCall hcall hold)
    · refine Or.inr ⟨?_, CacheCall.deleting.inj hkey⟩
      simpa [SqlTtlCache.setCall] using hlast
  unfold SqlTtlCache.resume at hj ⊢
  cases result with
  | none => exact Or.inl (deleting_setCall (by simp) hj)
  | some read =>
    dsimp only at hj ⊢
    split_ifs at hj ⊢
    · refine (hdelete (by simp) hj).imp_right fun hnew => ⟨hnew.1, hnew.2, by simp, ?_⟩
      simp [SqlTtlCache.delete, SqlTtlCache.begin, SqlTtlCache.setCall]
    · cases hparse : Json.parse read.value with
      | none =>
        rw [hparse] at hj
        exact Or.inl (deleting_setCall (by simp) hj)
      | some value =>
        rw [hparse] at hj
        cases reader with
        | cache => exact Or.inl (deleting_setCall (by simp) hj)
        | connect =>
          refine (hdelete (by simp) hj).imp_right fun hnew => ⟨hnew.1, hnew.2, by simp, ?_⟩
          simp [SqlTtlCache.delete, SqlTtlCache.begin, SqlTtlCache.setCall]

end Cache

/-- A deletion was there before, or it is begun for the row that is there, or for the one that a
`get` has read. -/
theorem deleting_of_step (h : w.step a = some t) {j : ℕ} {key : JsString}
    (hj : t.cache.calls[j]? = some (.deleting key)) :
    w.cache.calls[j]? = some (.deleting key) ∨
      ((j, .caller (w.cache.cacheEntries.get? key)) ∈ t.origins ∧
        t.cache.cacheEntries = w.cache.cacheEntries) ∨
      ∃ i reader read, w.cache.calls[i]? = some (.selected key reader (some read)) ∧
        (j, .get i read) ∈ t.origins := by
  obtain ⟨cache, hcache, rfl⟩ := Option.map_eq_some_iff.mp h
  dsimp only at hj
  cases a with
  | clock =>
    obtain rfl := Option.some.inj hcache
    exact Or.inl hj
  | delete key' =>
    obtain rfl := Option.some.inj hcache
    rcases Numbered.getElem?_append_singleton hj with hold | ⟨rfl, hkey⟩
    · exact Or.inl hold
    · obtain rfl := CacheCall.deleting.inj hkey
      refine Or.inr (Or.inl ⟨List.mem_append_right _ ?_, rfl⟩)
      simp [begun, origin?, SqlTtlCache.delete, SqlTtlCache.begin]
  | insert | get | cleanUpExpiredEntries | setWeb5ConnectRequest | getWeb5ConnectRequest |
      getWeb5ConnectResponse =>
    obtain rfl := Option.some.inj hcache
    exact Or.inl (deleting_begin (by simp) hj)
  | setWeb5ConnectResponse =>
    obtain rfl := Option.some.inj hcache
    unfold SqlTtlCache.setWeb5ConnectResponse at hj
    split at hj <;> exact Or.inl (deleting_begin (by simp) hj)
  | execute i succeeds =>
    obtain ⟨call, hi, hcache⟩ := Option.bind_eq_some_iff.mp hcache
    obtain ⟨executed, hexecuted, hcache⟩ := Option.bind_eq_some_iff.mp hcache
    obtain rfl := Option.some.inj hcache
    cases succeeds with
    | false => exact Or.inl (deleting_setCall (by simp) hj)
    | true => exact Or.inl (deleting_execute hexecuted hj)
  | resume i =>
    simp only [SqlTtlCache.step] at hcache
    split at hcache
    · rename_i key' reader result hi
      obtain rfl := Option.some.inj hcache
      rcases deleting_resume hj with hold | ⟨rfl, rfl, hread, hbegun⟩
      · exact Or.inl hold
      · obtain ⟨read, rfl⟩ := Option.ne_none_iff_exists'.mp hread
        refine Or.inr (Or.inr ⟨i, reader, read, hi, List.mem_append_right _ ?_⟩)
        simp [begun, origin?, hbegun, hi]
    · cases hcache

/-- A row that is there after a step was there before, or it is inserted apart. -/
theorem row_of_apart (hguard : w.InsertsApart a) (h : w.step a = some t) {key : JsString}
    {entry : CacheEntry} (hrow : t.cache.cacheEntries.get? key = some entry) :
    w.cache.cacheEntries.get? key = some entry ∨
      ∀ call ∈ w.cache.calls, deletesLater? call ≠ some key := by
  cases SqlTtlCache.tabled (cache_of_step h) with
  | kept hkept => exact Or.inl (hkept ▸ hrow)
  | inserted hcall hfree hinserted hset =>
    rw [hset, OrderedMap.get?_set] at hrow
    split_ifs at hrow with hkey
    · subst hkey
      refine Or.inr (hguard key ?_)
      simp [inserts?, hcall, OrderedMap.has_eq_false.mpr hfree]
    · exact Or.inl hrow
  | deleted hcall hdelete =>
    rw [hdelete, OrderedMap.get?_delete] at hrow
    split_ifs at hrow
    exact Or.inl hrow
  | cleaned hcall hfilter =>
    rw [hfilter, OrderedMap.get?_filter] at hrow
    exact Or.inl hrow.1

theorem Apart.step (hw : w.Apart) (hguard : w.InsertsApart a) (h : w.step a = some t) :
    t.Apart := by
  have horigins : ∀ {j origin}, (j, origin) ∈ w.origins → (j, origin) ∈ t.origins := by
    obtain ⟨cache, -, rfl⟩ := Option.map_eq_some_iff.mp h
    exact fun hmem => List.mem_append_left _ hmem
  have hstays : ∀ {key call}, call ∈ w.cache.calls → deletesLater? call = some key →
      ∀ {entry}, t.cache.cacheEntries.get? key = some entry →
        w.cache.cacheEntries.get? key = some entry := by
    intro key call hcall hlater entry hrow
    exact (row_of_apart hguard h hrow).resolve_right fun hapart => hapart call hcall hlater
  refine ⟨fun j key entry hj hrow => ?_, fun i key reader read entry hi hrow => ?_⟩
  · rcases deleting_of_step h hj with hold | ⟨hcaller, hsame⟩ | ⟨i, reader, read, hi, hget⟩
    · obtain ⟨origin, hmem, haimed⟩ :=
        hw.deleting j key entry hold (hstays (List.mem_of_getElem? hold) rfl hrow)
      exact ⟨origin, horigins hmem, haimed⟩
    · rw [← hsame, hrow] at hcaller
      exact ⟨_, hcaller, rfl⟩
    · refine ⟨_, hget, hw.selected i key reader read entry hi ?_⟩
      exact hstays (List.mem_of_getElem? hi) rfl hrow
  · rcases (SqlTtlCache.stepped (cache_of_step h)).calls i _ hi with hold | hread
    · exact hw.selected i key reader read entry hold
        (hstays (List.mem_of_getElem? hold) rfl hrow)
    · rw [row_stays (cache_of_step h) hread.symm hrow]

theorem Apart.deletesAimed (hw : w.Apart) : w.DeletesAimed a := by
  unfold DeletesAimed
  split
  · intro key entry hcall hrow _
    exact hw.deleting _ key entry hcall hrow
  · trivial

/-- In every run in which no row is inserted while a deletion of its key is under way, a row that
has not expired is removed only by a deletion that is meant for it. -/
theorem keepsRows_of_insertsApart (now : ℤ) (as : List CacheAction)
    (h : Along step (fun w a _ => w.InsertsApart a) (new now) as) :
    Along step KeepsRows (new now) as := by
  refine (keepsRows_iff_deletesAimed now as).mpr ?_
  exact along_of_invariant (fun _ _ _ hw hguard hstep =>
    ⟨hw.step hguard hstep, hw.deletesAimed⟩) (apart_new now) h

/-! ## Two requests for one response, and a new response -/

/-- A wallet's response under the state `s`, by the call `i`. -/
def respond (i : ℕ) (response : String) : List CacheAction :=
  [.setWeb5ConnectResponse (.string (js "s")) (.string (js response)), .execute i true]

/-- Both requests read the first response, the deletion of one of them is executed, and a
second response is stored under the state. -/
def readTwice : List CacheAction :=
  respond 0 "first" ++ [.getWeb5ConnectResponse (js "s"), .getWeb5ConnectResponse (js "s"),
    .execute 1 true, .execute 2 true, .resume 1, .resume 2, .execute 3 true] ++ respond 5 "second"

/-- Both deletions are over when the second response is stored. -/
def readApart : List CacheAction :=
  respond 0 "first" ++ [.getWeb5ConnectResponse (js "s"), .getWeb5ConnectResponse (js "s"),
    .execute 1 true, .execute 2 true, .resume 1, .resume 2, .execute 3 true, .execute 4 true] ++
    respond 5 "second"

/-- Then the first response is removed by the deletion of a request that has returned it. -/
theorem keepsRows_readApart : (∃ w, run step (new 0) readApart = some w ∧
      w.cache.cacheEntries.get? (js "response:s") = some ⟨js "\"second\"", 600000, 5⟩) ∧
    Along step KeepsRows (new 0) readApart :=
  ⟨exists_of_run (by decide +kernel), keepsRows_of_insertsApart 0 readApart (by decide +kernel)⟩

/-- The deletion of the other request removes the second response. -/
theorem not_keepsRows : ¬∀ as, Along step KeepsRows (new 0) as := by
  intro h
  obtain ⟨w, hrun, hnow, hrow, horigins, hdeletes⟩ : ∃ w, run step (new 0) readTwice = some w ∧
      w.cache.now = 0 ∧
      w.cache.cacheEntries.get? (js "response:s") = some ⟨js "\"second\"", 600000, 5⟩ ∧
      w.origins = [(3, .get 1 ⟨js "\"first\"", 600000, 0⟩),
        (4, .get 2 ⟨js "\"first\"", 600000, 0⟩)] ∧
      (w.step (.execute 4 true)).any (fun t => decide
        (t.cache.cacheEntries.get? (js "response:s") = none)) = true :=
    exists_of_run (by decide +kernel)
  obtain ⟨t, hstep, hremoved⟩ := (Option.any_eq_true _ _).mp hdeletes
  have hkeeps := Along.at (h (readTwice ++ [.execute 4 true])) hrun hstep
  obtain ⟨j, origin, ha, -, horigin, haimed, -⟩ := hkeeps _ _ hrow (by simp [hnow])
    (by simp [of_decide_eq_true hremoved])
  obtain rfl := (CacheAction.execute.inj ha).1
  obtain rfl : origin = .get 2 ⟨js "\"first\"", 600000, 0⟩ := by simpa [horigins] using horigin
  cases haimed

end CacheRun

end DwnServer
