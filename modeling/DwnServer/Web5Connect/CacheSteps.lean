import DwnServer.Web5Connect.SqlTtlCache
import DwnServer.Library.Numbered

/-!
# Steps of the cache

What a step can do to the calls and to the table, said once. A call that waits for nothing
stays as it is, and the table changes only when an insert, a deletion or a cleanup is executed.
-/
namespace DwnServer

/-- The call waits for a query, or has not yet gone on from its query. -/
def CacheCall.Waits : CacheCall → Prop
  | .inserting .. | .selecting .. | .selected .. | .deleting _ | .cleaning _ => True
  | _ => False

namespace SqlTtlCache

/-- A call as a step can begin or advance it: a cleanup goes by the clock, a `get` goes on
with what its query has found, and returns the value of a row it has read. -/
def Yields (w : SqlTtlCache) : CacheCall → Prop
  | .cleaning now => now = w.now
  | .selected key _ result => result = w.cacheEntries.get? key
  | .returned reader _ insert =>
    ∃ (i : ℕ) (key : JsString) (entry : CacheEntry),
      w.calls[i]? = some (.selected key reader (some entry)) ∧ entry.insert = insert
  | _ => True

/-- A step moves the clock, or begins a call, or brings one forward that waits; a deletion that
nobody awaits may begin with it. -/
inductive Steps (w t : SqlTtlCache) (a : CacheAction) : Prop
  | clock (elapsed : ℕ) (h : t = { w with now := w.now + elapsed })
  | begins (call : CacheCall) (hcall : w.Yields call) (h : t = w.begin call)
  | advances {i : ℕ} {old : CacheCall} (call : CacheCall) {cacheEntries : CacheTable}
      (ha : (∃ succeeds, a = .execute i succeeds) ∨ a = .resume i)
      (hi : w.calls[i]? = some old) (hold : old.Waits) (hcall : w.Yields call)
      (h : t = { w.setCall i call with cacheEntries })
  | deletes {i : ℕ} {old : CacheCall} (call : CacheCall) {cacheEntries : CacheTable}
      {key : JsString} (ha : (∃ succeeds, a = .execute i succeeds) ∨ a = .resume i)
      (hi : w.calls[i]? = some old) (hold : old.Waits) (hcall : w.Yields call)
      (h : t = { w.setCall i call with cacheEntries }.delete key)

/-- What a step does to the clock and to the calls. -/
structure Stepped (w t : SqlTtlCache) : Prop where
  clock : w.now ≤ t.now
  settled : ∀ (i : ℕ) call, w.calls[i]? = some call → ¬call.Waits → t.calls[i]? = some call
  calls : ∀ (i : ℕ) call, t.calls[i]? = some call → w.calls[i]? = some call ∨ w.Yields call

/-- What a step does to the table. -/
inductive Tabled (w t : SqlTtlCache) : CacheAction → Prop
  | kept {a : CacheAction} (h : t.cacheEntries = w.cacheEntries) : Tabled w t a
  | inserted {i : ℕ} {key value : JsString} {expiry : ℤ}
      (hcall : w.calls[i]? = some (.inserting key value expiry))
      (hfree : w.cacheEntries.get? key = none) (hinserted : t.calls[i]? = some .inserted)
      (h : t.cacheEntries = w.cacheEntries.set key ⟨value, expiry, i⟩) :
      Tabled w t (.execute i true)
  | deleted {i : ℕ} {key : JsString} (hcall : w.calls[i]? = some (.deleting key))
      (h : t.cacheEntries = w.cacheEntries.delete key) : Tabled w t (.execute i true)
  | cleaned {i : ℕ} {now : ℤ} (hcall : w.calls[i]? = some (.cleaning now))
      (h : t.cacheEntries = w.cacheEntries.filter fun _ entry => ¬entry.expiry < now) :
      Tabled w t (.execute i true)

variable {w t : SqlTtlCache} {a : CacheAction}

/-! ## Calls -/

theorem getElem?_begin {call : CacheCall} {i : ℕ} {call' : CacheCall}
    (h : (w.begin call).calls[i]? = some call') : w.calls[i]? = some call' ∨ call' = call :=
  (Numbered.getElem?_append_singleton h).imp_right fun hnew => hnew.2.symm

theorem getElem?_begin_of_some {call call' : CacheCall} {i : ℕ} (h : w.calls[i]? = some call') :
    (w.begin call).calls[i]? = some call' := by
  obtain ⟨hlt, -⟩ := List.getElem?_eq_some_iff.mp h
  exact (List.getElem?_append_left hlt).trans h

theorem Stepped.begin {call : CacheCall} (hcall : w.Yields call) : w.Stepped (w.begin call) where
  clock := le_rfl
  settled _ _ hi _ := getElem?_begin_of_some hi
  calls i call' hi := by
    rcases getElem?_begin hi with hold | rfl
    · exact Or.inl hold
    · exact Or.inr hcall

theorem Stepped.setCall {i : ℕ} {old call : CacheCall} {cacheEntries : CacheTable}
    (hi : w.calls[i]? = some old) (hold : old.Waits) (hcall : w.Yields call) :
    w.Stepped { w.setCall i call with cacheEntries } where
  clock := le_rfl
  settled j call' hj hsettled := by
    have hne : i ≠ j := by
      rintro rfl
      exact hsettled (Option.some.inj (hi.symm.trans hj) ▸ hold)
    exact (List.getElem?_set_ne hne).trans hj
  calls j call' hj := by
    simp only [SqlTtlCache.setCall, List.getElem?_set] at hj
    split_ifs at hj
    · exact Or.inr (Option.some.inj hj ▸ hcall)
    · exact Or.inl hj

theorem Stepped.delete (h : w.Stepped t) (key : JsString) : w.Stepped (t.delete key) where
  clock := h.clock
  settled i call hi hsettled := getElem?_begin_of_some (h.settled i call hi hsettled)
  calls i call hi := by
    rcases getElem?_begin hi with hold | rfl
    · exact h.calls i call hold
    · exact Or.inr trivial

theorem waits_of_execute {i : ℕ} {call : CacheCall} (h : w.execute i call = some t) :
    call.Waits := by
  cases call <;> trivial

theorem steps_resume {i : ℕ} {key : JsString} {reader : CacheReader} {result : Option CacheEntry}
    (hi : w.calls[i]? = some (.selected key reader result)) :
    w.Steps (w.resume i key reader result) (.resume i) := by
  unfold SqlTtlCache.resume
  cases result with
  | none => exact .advances .missed (Or.inr rfl) hi trivial trivial rfl
  | some entry =>
    dsimp only
    split_ifs
    · exact .deletes .missed (Or.inr rfl) hi trivial trivial rfl
    cases Json.parse entry.value with
    | none => exact .advances .failed (Or.inr rfl) hi trivial trivial rfl
    | some value =>
      have hreturned : w.Yields (.returned reader value entry.insert) := ⟨i, key, entry, hi, rfl⟩
      cases reader with
      | cache => exact .advances _ (Or.inr rfl) hi trivial hreturned rfl
      | connect => exact .deletes _ (Or.inr rfl) hi trivial hreturned rfl

theorem steps_execute {i : ℕ} {call : CacheCall} (hi : w.calls[i]? = some call)
    (h : w.execute i call = some t) : w.Steps t (.execute i true) := by
  have ha : (∃ succeeds, CacheAction.execute i true = .execute i succeeds) ∨
    CacheAction.execute i true = .resume i := Or.inl ⟨true, rfl⟩
  cases call with
  | inserting key value expiry =>
    simp only [execute] at h
    split_ifs at h
    · exact .advances .failed ha hi trivial trivial (Option.some.inj h).symm
    · exact .advances .inserted ha hi trivial trivial (Option.some.inj h).symm
  | selecting key reader =>
    exact .advances (.selected key reader _) ha hi trivial rfl (Option.some.inj h).symm
  | deleting => exact .advances .deleted ha hi trivial trivial (Option.some.inj h).symm
  | cleaning => exact .advances .cleaned ha hi trivial trivial (Option.some.inj h).symm
  | _ => cases h

theorem steps_begin {call : CacheCall} (hcall : w.Yields call) : w.Steps (w.begin call) a :=
  .begins call hcall rfl

theorem steps (h : w.step a = some t) : w.Steps t a := by
  cases a with
  | clock elapsed => exact .clock elapsed (Option.some.inj h).symm
  | cleanUpExpiredEntries =>
    obtain rfl := Option.some.inj h
    exact steps_begin rfl
  | insert | get | delete | setWeb5ConnectRequest | getWeb5ConnectRequest |
      getWeb5ConnectResponse =>
    obtain rfl := Option.some.inj h
    exact steps_begin trivial
  | setWeb5ConnectResponse state response =>
    obtain rfl := Option.some.inj h
    unfold SqlTtlCache.setWeb5ConnectResponse
    split <;> exact steps_begin trivial
  | execute i succeeds =>
    obtain ⟨call, hi, h⟩ := Option.bind_eq_some_iff.mp h
    obtain ⟨executed, hexecuted, h⟩ := Option.bind_eq_some_iff.mp h
    obtain rfl := Option.some.inj h
    cases succeeds with
    | false =>
      exact .advances .failed (Or.inl ⟨false, rfl⟩) hi (waits_of_execute hexecuted) trivial rfl
    | true => exact steps_execute hi hexecuted
  | resume i =>
    simp only [step] at h
    split at h
    · rename_i key reader result hi
      obtain rfl := Option.some.inj h
      exact steps_resume hi
    · cases h

theorem stepped (h : w.step a = some t) : w.Stepped t := by
  cases steps h with
  | clock elapsed h =>
    subst h
    exact ⟨by dsimp only; omega, fun _ _ hi _ => hi, fun _ _ => Or.inl⟩
  | begins call hcall h => exact h ▸ .begin hcall
  | advances call ha hi hold hcall h => exact h ▸ .setCall hi hold hcall
  | deletes call ha hi hold hcall h => exact h ▸ (Stepped.setCall hi hold hcall).delete _

/-- Only its own queries, and its own going on, change a call. -/
theorem call_of_step (h : w.step a = some t) {j : ℕ} {call : CacheCall}
    (hj : w.calls[j]? = some call) (hexecute : ∀ succeeds, a ≠ .execute j succeeds)
    (hresume : a ≠ .resume j) : t.calls[j]? = some call := by
  have hother : ∀ {i}, (∃ succeeds, a = .execute i succeeds) ∨ a = .resume i → i ≠ j := by
    rintro i (⟨succeeds, rfl⟩ | rfl) rfl
    · exact hexecute succeeds rfl
    · exact hresume rfl
  cases steps h with
  | clock elapsed h => exact h ▸ hj
  | begins call hcall h => exact h ▸ getElem?_begin_of_some hj
  | advances call ha hi hold hcall h => exact h ▸ (List.getElem?_set_ne (hother ha)).trans hj
  | deletes call ha hi hold hcall h =>
    exact h ▸ getElem?_begin_of_some ((List.getElem?_set_ne (hother ha)).trans hj)

/-- An insert waits, has failed, or has just put its row into the table. -/
theorem inserting_step (h : w.step a = some t) {i : ℕ} {key value : JsString} {expiry : ℤ}
    (hi : w.calls[i]? = some (.inserting key value expiry)) :
    t.calls[i]? = some (.inserting key value expiry) ∨ t.calls[i]? = some .failed ∨
      t.calls[i]? = some .inserted ∧ t.cacheEntries.get? key = some ⟨value, expiry, i⟩ := by
  obtain ⟨hlt, -⟩ := List.getElem?_eq_some_iff.mp hi
  by_cases hresume : a = .resume i
  · subst hresume
    simp [step, hi] at h
  by_cases hexecute : ∃ succeeds, a = .execute i succeeds
  · obtain ⟨succeeds, rfl⟩ := hexecute
    obtain ⟨old, hold, h⟩ := Option.bind_eq_some_iff.mp h
    obtain rfl := Option.some.inj (hold.symm.trans hi)
    obtain ⟨executed, hexecuted, h⟩ := Option.bind_eq_some_iff.mp h
    obtain rfl := Option.some.inj h
    cases succeeds with
    | false => exact Or.inr (Or.inl (List.getElem?_set_self hlt))
    | true =>
      simp only [execute] at hexecuted
      split_ifs at hexecuted <;> obtain rfl := Option.some.inj hexecuted
      · exact Or.inr (Or.inl (List.getElem?_set_self hlt))
      · exact Or.inr (Or.inr ⟨List.getElem?_set_self hlt, by simp⟩)
  · exact Or.inl (call_of_step h hi (fun succeeds heq => hexecute ⟨succeeds, heq⟩) hresume)

/-! ## The table -/

theorem cacheEntries_resume (i : ℕ) (key : JsString) (reader : CacheReader)
    (result : Option CacheEntry) :
    (w.resume i key reader result).cacheEntries = w.cacheEntries := by
  unfold SqlTtlCache.resume
  cases result with
  | none => rfl
  | some entry =>
    dsimp only
    split_ifs
    · rfl
    · cases Json.parse entry.value <;> cases reader <;> rfl

theorem cacheEntries_of_deleting {i : ℕ} {key : JsString} (hi : w.calls[i]? = some (.deleting key))
    (h : w.step (.execute i true) = some t) : t.cacheEntries = w.cacheEntries.delete key := by
  simp only [step, hi, execute] at h
  obtain rfl := Option.some.inj h
  rfl

theorem tabled_execute {i : ℕ} {call : CacheCall} (hi : w.calls[i]? = some call)
    (h : w.execute i call = some t) : w.Tabled t (.execute i true) := by
  cases call with
  | inserting key value expiry =>
    simp only [execute] at h
    split_ifs at h with hhas
    · obtain rfl := Option.some.inj h
      exact .kept rfl
    · obtain rfl := Option.some.inj h
      obtain ⟨hlt, -⟩ := List.getElem?_eq_some_iff.mp hi
      exact .inserted hi (OrderedMap.has_eq_false.mp (Bool.eq_false_iff.mpr hhas))
        (List.getElem?_set_self hlt) rfl
  | selecting key reader =>
    obtain rfl := Option.some.inj h
    exact .kept rfl
  | deleting key =>
    obtain rfl := Option.some.inj h
    exact .deleted hi rfl
  | cleaning now =>
    obtain rfl := Option.some.inj h
    exact .cleaned hi rfl
  | _ => cases h

theorem tabled (h : w.step a = some t) : w.Tabled t a := by
  cases a with
  | setWeb5ConnectResponse state response =>
    obtain rfl := Option.some.inj h
    unfold SqlTtlCache.setWeb5ConnectResponse
    split <;> exact .kept rfl
  | execute i succeeds =>
    obtain ⟨call, hi, h⟩ := Option.bind_eq_some_iff.mp h
    obtain ⟨executed, hexecuted, h⟩ := Option.bind_eq_some_iff.mp h
    obtain rfl := Option.some.inj h
    cases succeeds with
    | false => exact .kept rfl
    | true => exact tabled_execute hi hexecuted
  | resume i =>
    simp only [step] at h
    split at h
    · obtain rfl := Option.some.inj h
      exact .kept (cacheEntries_resume _ _ _ _)
    · cases h
  | _ =>
    obtain rfl := Option.some.inj h
    exact .kept rfl

end SqlTtlCache

end DwnServer
