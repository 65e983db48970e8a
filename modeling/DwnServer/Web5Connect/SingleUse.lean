import DwnServer.Web5Connect.SqlTtlCache

/-!
# Single use of request ids and states

The connect server deletes what it gets, by a query of its own that comes after the one it
reads with. Another `get` may read the same row in between, and then both return it.
-/
namespace DwnServer

open Transition

/-- The row that a call of the connect server has read and returns, or may still return. -/
def CacheCall.reads? : CacheCall → Option ℕ
  | .selected _ .connect (some entry) => some entry.insert
  | .returned .connect _ insert => some insert
  | _ => none

namespace SqlTtlCache

/-- What one insert stored is returned by at most one call of the connect server. -/
def SingleUse (w : SqlTtlCache) : Prop :=
  ∀ (i j : ℕ) (value value' : Json) (insert : ℕ),
    w.calls[i]? = some (.returned .connect value insert) →
      w.calls[j]? = some (.returned .connect value' insert) → i = j

/-- The row that a step reads for a call of the connect server. -/
def rowRead (w : SqlTtlCache) : CacheAction → Option ℕ
  | .execute i true =>
    match w.calls[i]? with
    | some (.selecting key .connect) => (w.cacheEntries.get? key).map (·.insert)
    | _ => none
  | _ => none

/-- A step reads no row that another call has read and not found expired. -/
def FreshRead (w : SqlTtlCache) (a : CacheAction) : Prop :=
  ∀ insert ∈ w.rowRead a, ∀ call ∈ w.calls, call.reads? ≠ some insert

instance (w : SqlTtlCache) (a : CacheAction) : Decidable (w.FreshRead a) :=
  inferInstanceAs (Decidable (∀ insert ∈ w.rowRead a, ∀ call ∈ w.calls, call.reads? ≠ some insert))

def readBy (w : SqlTtlCache) (i : ℕ) : Option ℕ := w.calls[i]?.bind CacheCall.reads?

/-- Each row has one reader. -/
def OneReader (w : SqlTtlCache) : Prop :=
  ∀ (i j insert : ℕ), w.readBy i = some insert → w.readBy j = some insert → i = j

variable {w t : SqlTtlCache} {a : CacheAction}

theorem OneReader.singleUse (hw : w.OneReader) : w.SingleUse := by
  intro i j value value' insert hi hj
  exact hw i j insert (by rw [readBy, hi]; rfl) (by rw [readBy, hj]; rfl)

/-! ## Who reads a row after a step -/

@[simp] theorem readBy_begin {call : CacheCall} (h : call.reads? = none) (j : ℕ) :
    (w.begin call).readBy j = w.readBy j := by
  rw [readBy, readBy, SqlTtlCache.begin, List.getElem?_append]
  split_ifs with hlt
  · rfl
  · rw [List.getElem?_eq_none (not_lt.mp hlt)]
    rcases hindex : j - w.calls.length with _ | n <;> simp [h]

@[simp] theorem readBy_delete (key : JsString) (j : ℕ) : (w.delete key).readBy j = w.readBy j :=
  readBy_begin rfl j

/-- Changing the stage of a call that is there changes what this call reads. -/
theorem readBy_setCall {i : ℕ} {old : CacheCall} (hi : w.calls[i]? = some old) (call : CacheCall)
    (j : ℕ) : (w.setCall i call).readBy j = if i = j then call.reads? else w.readBy j := by
  obtain ⟨hlt, -⟩ := List.getElem?_eq_some_iff.mp hi
  rw [readBy, setCall, List.getElem?_set]
  split_ifs <;> rfl

theorem readBy_settled {i : ℕ} {old call : CacheCall} (hi : w.calls[i]? = some old)
    (h : call.reads? = none) (j : ℕ) :
    (w.setCall i call).readBy j = w.readBy j ∨ (w.setCall i call).readBy j = none := by
  rw [readBy_setCall hi, h]
  split_ifs
  · exact Or.inr rfl
  · exact Or.inl rfl

theorem readBy_execute {i : ℕ} {call : CacheCall} (hi : w.calls[i]? = some call)
    (h : w.execute i call = some t) (j : ℕ) :
    (t.readBy j = w.readBy j ∨ t.readBy j = none) ∨
      t.readBy j = w.rowRead (.execute i true) ∧ i = j := by
  cases call with
  | inserting key value expiry =>
    simp only [execute] at h
    split_ifs at h <;> obtain rfl := Option.some.inj h <;> exact Or.inl (readBy_settled hi rfl j)
  | deleting key =>
    obtain rfl := Option.some.inj h
    exact Or.inl (readBy_settled hi rfl j)
  | cleaning now =>
    obtain rfl := Option.some.inj h
    exact Or.inl (readBy_settled hi rfl j)
  | selecting key reader =>
    obtain rfl := Option.some.inj h
    rw [readBy_setCall hi]
    split_ifs with hij
    · cases reader with
      | cache => exact Or.inl (Or.inr rfl)
      | connect =>
        refine Or.inr ⟨?_, hij⟩
        simp only [rowRead, hi]
        cases w.cacheEntries.get? key <;> rfl
    · exact Or.inl (Or.inl rfl)
  | _ => cases h

/-- A call that goes on to return a row has read it before. -/
theorem readBy_resume {i : ℕ} {key : JsString} {reader : CacheReader} {result : Option CacheEntry}
    (hi : w.calls[i]? = some (.selected key reader result)) (j : ℕ) :
    (w.resume i key reader result).readBy j = w.readBy j ∨
      (w.resume i key reader result).readBy j = none := by
  unfold SqlTtlCache.resume
  cases result with
  | none => exact readBy_settled hi rfl j
  | some entry =>
    dsimp only
    split_ifs
    · rw [readBy_delete]
      exact readBy_settled hi rfl j
    cases Json.parse entry.value with
    | none => exact readBy_settled hi rfl j
    | some value =>
      cases reader with
      | cache => exact readBy_settled hi rfl j
      | connect =>
        refine Or.inl ?_
        rw [readBy_delete, readBy_setCall hi]
        split_ifs with hij
        · subst hij
          rw [readBy, hi]
          rfl
        · rfl

/-- A call reads after a step what it read before, or nothing, or the row that the step
reads for it. -/
theorem readBy_step (h : w.step a = some t) (j : ℕ) :
    (t.readBy j = w.readBy j ∨ t.readBy j = none) ∨
      t.readBy j = w.rowRead a ∧ a = .execute j true := by
  cases a with
  | clock elapsed =>
    obtain rfl := Option.some.inj h
    exact Or.inl (Or.inl rfl)
  | insert | get | delete | cleanUpExpiredEntries | setWeb5ConnectRequest | getWeb5ConnectRequest |
      getWeb5ConnectResponse =>
    obtain rfl := Option.some.inj h
    exact Or.inl (Or.inl (readBy_begin rfl j))
  | setWeb5ConnectResponse state response =>
    obtain rfl := Option.some.inj h
    simp only [setWeb5ConnectResponse]
    split <;> exact Or.inl (Or.inl (readBy_begin rfl j))
  | execute i succeeds =>
    obtain ⟨call, hi, h⟩ := Option.bind_eq_some_iff.mp h
    obtain ⟨executed, hexecuted, h⟩ := Option.bind_eq_some_iff.mp h
    obtain rfl := Option.some.inj h
    cases succeeds with
    | false => exact Or.inl (readBy_settled hi rfl j)
    | true =>
      rcases readBy_execute hi hexecuted j with hkept | ⟨hread, rfl⟩
      · exact Or.inl hkept
      · exact Or.inr ⟨hread, rfl⟩
  | resume i =>
    simp only [step] at h
    split at h
    · rename_i key reader result hi
      obtain rfl := Option.some.inj h
      exact Or.inl (readBy_resume hi j)
    · cases h

theorem FreshRead.readBy_ne (h : w.FreshRead a) {insert : ℕ} (hread : w.rowRead a = some insert)
    (i : ℕ) : w.readBy i ≠ some insert := by
  intro hi
  obtain ⟨call, hcall, hreads⟩ := Option.bind_eq_some_iff.mp hi
  exact h insert hread call (List.mem_of_getElem? hcall) hreads

/-- A fresh read adds the first reader of its row. -/
theorem OneReader.step (hw : w.OneReader) (hguard : w.FreshRead a) (h : w.step a = some t) :
    t.OneReader := by
  intro i j insert hi hj
  rcases readBy_step h i with (hi' | hi') | ⟨hi', rfl⟩ <;>
    rcases readBy_step h j with (hj' | hj') | ⟨hj', ha⟩
  · exact hw i j insert (hi'.symm.trans hi) (hj'.symm.trans hj)
  · cases hj'.symm.trans hj
  · exact absurd (hi'.symm.trans hi) (hguard.readBy_ne (hj'.symm.trans hj) i)
  · cases hi'.symm.trans hi
  · cases hi'.symm.trans hi
  · cases hi'.symm.trans hi
  · exact absurd (hj'.symm.trans hj) (hguard.readBy_ne (hi'.symm.trans hi) j)
  · cases hj'.symm.trans hj
  · exact (CacheAction.execute.inj ha).1

/-- In a run that reads no row twice, every object is returned at most once. -/
theorem singleUse_of_freshReads {now : ℤ} {cacheEntries : CacheTable} {as : List CacheAction}
    (h : Along step (fun w a _ => w.FreshRead a) (new now cacheEntries) as) :
    Throughout step SingleUse (new now cacheEntries) as :=
  throughout_of_along (fun _ => OneReader.singleUse) (fun _ _ _ hw hguard => hw.step hguard)
    (fun i _ _ hi => by simp [readBy, new] at hi) h

/-! ## Two requests for one response -/

/-- A wallet's response under the state `s`, in the table. -/
def respond : List CacheAction :=
  [.setWeb5ConnectResponse (.string (js "s")) (.string (js "token")), .execute 0 true]

/-- A second get after the first one's deletion finds nothing. -/
theorem singleUse_run : Throughout step SingleUse (new 0 .empty)
    (respond ++ [.getWeb5ConnectResponse (js "s"), .execute 1 true, .resume 1, .execute 2 true,
      .getWeb5ConnectResponse (js "s"), .execute 3 true, .resume 3]) :=
  singleUse_of_freshReads (by decide +kernel)

/-- Both gets read the response before either has deleted it. -/
theorem not_singleUse : ¬∀ as, Throughout step SingleUse (new 0 .empty) as := by
  intro h
  obtain ⟨t, hrun, hboth⟩ : ∃ t, run step (new 0 .empty)
      (respond ++ [.getWeb5ConnectResponse (js "s"), .getWeb5ConnectResponse (js "s"),
        .execute 1 true, .execute 2 true, .resume 1, .resume 2]) = some t ∧
      t.calls[1]? = some (.returned .connect (.string (js "token")) 0) ∧
        t.calls[2]? = some (.returned .connect (.string (js "token")) 0) :=
    exists_of_run (by decide +kernel)
  have hsame := throughout_iff.mp (h _) _ t List.prefix_rfl hrun 1 2 _ _ 0 hboth.1 hboth.2
  cases hsame

end SqlTtlCache

end DwnServer
