import DwnServer.Web5Connect.CacheSteps
import Mathlib.Data.List.ReduceOption

/-!
# Cleanups and expired rows

An operation that is awaited has the cache to itself, but for the deletions that earlier calls
of `get` have begun and nobody awaits. What the cache is for is a table without expired rows:
there a cleanup does nothing. The code's table follows it as long as no insert meets a row that
has expired, and no deletion of an expired row comes late.
-/
namespace DwnServer

open Transition

/-- An awaited operation, time that passes between two, the execution of a deletion that a
`get` has begun, or a cleanup. -/
inductive CacheOperation where
  | clock (elapsed : ℕ)
  | insert (key : JsString) (value : Json) (ttl : ℤ)
  | get (key : JsString)
  | delete (key : JsString)
  | settle (key : JsString)
  | cleanUpExpiredEntries
  deriving DecidableEq

/-- The operation has a caller. -/
def CacheOperation.isAwaited : CacheOperation → Bool
  | .insert .. | .get _ | .delete _ => true
  | .clock _ | .settle _ | .cleanUpExpiredEntries => false

inductive CacheOutcome where
  | inserted
  | value (value : Json)
  | undefined
  | deleted
  | threw
  deriving DecidableEq

def CacheCall.outcome? : CacheCall → Option CacheOutcome
  | .inserted => some .inserted
  | .returned _ value _ => some (.value value)
  | .missed => some .undefined
  | .deleted => some .deleted
  | .failed => some .threw
  | _ => none

namespace SqlTtlCache

/-! ## Operations of the code -/

/-- The steps of an operation; its call is the next one. -/
def script (w : SqlTtlCache) : CacheOperation → List CacheAction
  | .clock elapsed => [.clock elapsed]
  | .insert key value ttl => [.insert key value ttl, .execute w.calls.length true]
  | .get key => [.get key, .execute w.calls.length true, .resume w.calls.length]
  | .delete key => [.delete key, .execute w.calls.length true]
  | .settle key => (w.calls.findIdx? (· = .deleting key)).toList.map (.execute · true)
  | .cleanUpExpiredEntries => [.cleanUpExpiredEntries, .execute w.calls.length true]

def perform (w : SqlTtlCache) (op : CacheOperation) : Option SqlTtlCache :=
  run step w (w.script op)

/-- What the caller of an operation gets. -/
def outcome? (w : SqlTtlCache) (op : CacheOperation) : Option CacheOutcome :=
  if op.isAwaited then
    (w.perform op).bind fun t => t.calls[w.calls.length]?.bind CacheCall.outcome?
  else none

def observed (w : SqlTtlCache) (ops : List CacheOperation) : List CacheOutcome :=
  (trace perform outcome? w ops).reduceOption

variable {w t : SqlTtlCache} (key : JsString)

theorem perform_insert (value : Json) (ttl : ℤ) :
    w.perform (.insert key value ttl) = some
      (if w.cacheEntries.has key then w.begin .failed
        else { w.begin .inserted with
          cacheEntries := w.cacheEntries.set key
            ⟨value.stringify, w.now + ttl * 1000, w.calls.length⟩ }) := by
  by_cases htaken : w.cacheEntries.has key <;>
    simp [perform, script, step, insert, begin, execute, setCall, htaken]

theorem perform_get :
    w.perform (.get key) = some (match w.cacheEntries.get? key with
      | none => w.begin .missed
      | some entry =>
        if w.now ≥ entry.expiry then (w.begin .missed).delete key
        else match Json.parse entry.value with
          | none => w.begin .failed
          | some value => w.begin (.returned .cache value entry.insert)) := by
  cases hrow : w.cacheEntries.get? key with
  | none => simp [perform, script, step, get, begin, execute, setCall, resume, hrow]
  | some entry =>
    cases hparse : Json.parse entry.value <;> by_cases hexpired : entry.expiry ≤ w.now <;>
      simp [perform, script, step, get, begin, execute, setCall, resume, delete, hrow, hparse,
        hexpired]

theorem perform_delete : w.perform (.delete key) =
    some { w.begin .deleted with cacheEntries := w.cacheEntries.delete key } := by
  simp [perform, script, step, delete, begin, execute, setCall]

theorem perform_cleanUpExpiredEntries : w.perform .cleanUpExpiredEntries =
    some { w.begin .cleaned with
      cacheEntries := w.cacheEntries.filter fun _ entry => ¬entry.expiry < w.now } := by
  simp [perform, script, step, cleanUpExpiredEntries, begin, execute, setCall]

theorem perform_settle :
    (.deleting key ∉ w.calls ∧ w.perform (.settle key) = some w) ∨
      .deleting key ∈ w.calls ∧ ∃ i, w.perform (.settle key) =
        some { w.setCall i .deleted with cacheEntries := w.cacheEntries.delete key } := by
  cases hfind : w.calls.findIdx? (· = .deleting key) with
  | none =>
    refine Or.inl ⟨fun hmem => ?_, by simp [perform, script, hfind]⟩
    simpa using List.findIdx?_eq_none_iff.mp hfind _ hmem
  | some i =>
    obtain ⟨hlt, hi, -⟩ := List.findIdx?_eq_some_iff_getElem.mp hfind
    have hcall : w.calls[i]? = some (.deleting key) := by
      rw [List.getElem?_eq_getElem hlt]
      simpa using hi
    refine Or.inr ⟨List.mem_of_getElem? hcall, i, ?_⟩
    simp [perform, script, hfind, step, hcall, execute]

end SqlTtlCache

/-! ## The cache without expired rows -/

structure LiveRow where
  value : JsString
  expiry : ℤ

/-- What the cache is for: rows until they expire. -/
structure LiveCache where
  now : ℤ
  rows : JsString → Option LiveRow

namespace LiveCache

/-- The rows that have not expired at a time. -/
def unexpired (now : ℤ) (row : Option LiveRow) : Option LiveRow :=
  row.filter fun row => now < row.expiry

def next (c : LiveCache) : CacheOperation → LiveCache
  | .clock elapsed =>
    { now := c.now + elapsed, rows := fun key => unexpired (c.now + elapsed) (c.rows key) }
  | .insert key value ttl =>
    if (c.rows key).isSome then c
    else { c with
      rows := Function.update c.rows key
        (unexpired c.now (some ⟨value.stringify, c.now + ttl * 1000⟩)) }
  | .delete key => { c with rows := Function.update c.rows key none }
  | .get _ | .settle _ | .cleanUpExpiredEntries => c

def outcome? (c : LiveCache) : CacheOperation → Option CacheOutcome
  | .insert key _ _ => some (if (c.rows key).isSome then .threw else .inserted)
  | .get key =>
    some <| match c.rows key with
      | none => .undefined
      | some row => (Json.parse row.value).elim .threw .value
  | .delete _ => some .deleted
  | .clock _ | .settle _ | .cleanUpExpiredEntries => none

def observed (c : LiveCache) (ops : List CacheOperation) : List CacheOutcome :=
  (trace (fun c op => some (c.next op)) outcome? c ops).reduceOption

/-- The operations apart from the cleanups. -/
def withoutCleanups (ops : List CacheOperation) : List CacheOperation :=
  ops.filter (· ≠ .cleanUpExpiredEntries)

/-- Without expired rows, cleanups make no difference. -/
theorem observed_withoutCleanups (c : LiveCache) (ops : List CacheOperation) :
    c.observed (withoutCleanups ops) = c.observed ops := by
  induction ops generalizing c with
  | nil => rfl
  | cons op ops ih =>
    by_cases hop : op = .cleanUpExpiredEntries
    · subst hop
      exact ih c
    · have hkept : withoutCleanups (op :: ops) = op :: withoutCleanups ops :=
        List.filter_cons_of_pos (by simpa using hop)
      have hrest := ih (c.next op)
      unfold observed at hrest ⊢
      rw [hkept, trace, trace, Option.elim_some, Option.elim_some]
      cases c.outcome? op with
      | none => exact hrest
      | some outcome => simp only [List.reduceOption_cons_of_some, hrest]

end LiveCache

namespace SqlTtlCache

/-! ## The code's cache in the eyes of the other -/

def live (w : SqlTtlCache) : LiveCache where
  now := w.now
  rows key := LiveCache.unexpired w.now
    ((w.cacheEntries.get? key).map fun row => ⟨row.value, row.expiry⟩)

/-- The operation has the effect and the outcome that it has when expired rows are absent. -/
structure IgnoresExpired (w : SqlTtlCache) (op : CacheOperation) (t : SqlTtlCache) : Prop where
  live : t.live = w.live.next op
  outcome : w.outcome? op = w.live.outcome? op

/-- No insert meets a row of its key that has expired, and no deletion that a `get` has begun
meets one that has not. -/
def Clear (w : SqlTtlCache) : CacheOperation → Prop
  | .insert key _ _ => ∀ row, w.cacheEntries.get? key = some row → w.now < row.expiry
  | .settle key => .deleting key ∈ w.calls →
    ∀ row, w.cacheEntries.get? key = some row → row.expiry ≤ w.now
  | _ => True

variable {w t : SqlTtlCache} {op : CacheOperation} {key : JsString}

theorem exists_perform (w : SqlTtlCache) (op : CacheOperation) : ∃ t, w.perform op = some t := by
  cases op with
  | clock elapsed => exact ⟨_, rfl⟩
  | insert key value ttl => exact ⟨_, perform_insert key value ttl⟩
  | get key => exact ⟨_, perform_get key⟩
  | delete key => exact ⟨_, perform_delete key⟩
  | cleanUpExpiredEntries => exact ⟨_, perform_cleanUpExpiredEntries⟩
  | settle key =>
    obtain ⟨-, h⟩ | ⟨-, i, h⟩ := w.perform_settle key
    · exact ⟨_, h⟩
    · exact ⟨_, h⟩

theorem live_row_eq_none : w.live.rows key = none ↔
    ∀ row, w.cacheEntries.get? key = some row → row.expiry ≤ w.now := by
  cases hrow : w.cacheEntries.get? key <;>
    simp [live, LiveCache.unexpired, hrow, Option.filter_eq_none_iff]

theorem live_row_of_lt {row : CacheEntry}
    (hrow : w.cacheEntries.get? key = some row) (hnow : w.now < row.expiry) :
    w.live.rows key = some ⟨row.value, row.expiry⟩ := by
  simp [live, LiveCache.unexpired, hrow, hnow]

theorem live_delete (key : JsString) (calls : List CacheCall) :
    live ⟨w.now, w.cacheEntries.delete key, calls⟩ =
      { w.live with rows := Function.update w.live.rows key none } := by
  simp only [live, LiveCache.mk.injEq, true_and]
  funext key'
  rw [OrderedMap.get?_delete, Function.update_apply]
  split_ifs <;> rfl

theorem outcome?_eq {call : CacheCall} {calls : List CacheCall} (hop : op.isAwaited = true)
    (h : w.perform op = some t) (hcalls : t.calls = w.calls ++ call :: calls) :
    w.outcome? op = call.outcome? := by
  simp [outcome?, hop, h, hcalls]

theorem ignoresExpired_clock (elapsed : ℕ) (h : w.perform (.clock elapsed) = some t) :
    w.IgnoresExpired (.clock elapsed) t := by
  obtain rfl := Option.some.inj h
  refine ⟨?_, rfl⟩
  simp only [live, LiveCache.next, LiveCache.mk.injEq, true_and]
  funext key
  cases w.cacheEntries.get? key with
  | none => rfl
  | some row =>
    simp only [LiveCache.unexpired, Option.map_some, Option.filter_some]
    grind

theorem ignoresExpired_insert {value : Json} {ttl : ℤ}
    (h : w.perform (.insert key value ttl) = some t) :
    w.IgnoresExpired (.insert key value ttl) t ↔ w.Clear (.insert key value ttl) := by
  have hperform := h.symm.trans (perform_insert key value ttl)
  obtain rfl := Option.some.inj hperform
  cases hrow : w.cacheEntries.get? key with
  | none =>
    -- the insert succeeds, and what it stores is there until it expires
    have htaken : w.cacheEntries.has key = false := OrderedMap.has_eq_false.mpr hrow
    have hlive : w.live.rows key = none := live_row_eq_none.mpr (by simp [hrow])
    simp only [htaken] at h ⊢
    refine iff_of_true ⟨?_, ?_⟩ fun row hsome => by cases hrow.symm.trans hsome
    · simp only [LiveCache.next, hlive, Option.isSome_none, Bool.false_eq_true, if_false]
      simp only [live, begin, LiveCache.mk.injEq, true_and]
      funext key'
      rw [OrderedMap.get?_set, Function.update_apply]
      split_ifs <;> rfl
    · rw [outcome?_eq rfl h rfl]
      simp [LiveCache.outcome?, hlive, CacheCall.outcome?]
  | some row =>
    have htaken : w.cacheEntries.has key = true := OrderedMap.has_iff.mpr ⟨row, hrow⟩
    simp only [htaken] at h ⊢
    have houtcome := outcome?_eq rfl h rfl
    by_cases hnow : w.now < row.expiry
    · have hlive := live_row_of_lt hrow hnow
      refine iff_of_true ⟨?_, ?_⟩ fun row' hsome => ?_
      · rw [LiveCache.next, hlive]
        rfl
      · rw [houtcome]
        simp [LiveCache.outcome?, hlive, CacheCall.outcome?]
      · obtain rfl := Option.some.inj (hrow.symm.trans hsome)
        exact hnow
    · -- the row has expired: the insert fails, and would not if the row were absent
      have hlive : w.live.rows key = none := live_row_eq_none.mpr (by simpa [hrow] using hnow)
      refine iff_of_false (fun hignores => ?_) fun hclear => hnow (hclear row hrow)
      have houtcome' := houtcome.symm.trans hignores.outcome
      simp [LiveCache.outcome?, hlive, CacheCall.outcome?] at houtcome'

theorem ignoresExpired_get (h : w.perform (.get key) = some t) : w.IgnoresExpired (.get key) t := by
  have hperform := h.symm.trans (perform_get key)
  obtain rfl := Option.some.inj hperform
  cases hrow : w.cacheEntries.get? key with
  | none =>
    have hlive : w.live.rows key = none := live_row_eq_none.mpr (by simp [hrow])
    simp only [hrow] at h ⊢
    refine ⟨rfl, ?_⟩
    rw [outcome?_eq rfl h rfl]
    simp [LiveCache.outcome?, hlive, CacheCall.outcome?]
  | some row =>
    by_cases hnow : w.now < row.expiry
    · have hlive := live_row_of_lt hrow hnow
      simp only [hrow, ge_iff_le, not_le.mpr hnow, if_false] at h ⊢
      cases hparse : Json.parse row.value <;> simp only [hparse] at h ⊢ <;>
        refine ⟨rfl, (outcome?_eq rfl h rfl).trans ?_⟩ <;>
        simp [LiveCache.outcome?, hlive, CacheCall.outcome?, hparse]
    · have hlive : w.live.rows key = none := live_row_eq_none.mpr (by simpa [hrow] using hnow)
      simp only [hrow, ge_iff_le, not_lt.mp hnow, if_true] at h ⊢
      have hcalls : ((w.begin .missed).delete key).calls = w.calls ++ [.missed, .deleting key] := by
        simp [delete, begin]
      refine ⟨rfl, (outcome?_eq rfl h hcalls).trans ?_⟩
      simp [LiveCache.outcome?, hlive, CacheCall.outcome?]

theorem ignoresExpired_delete (h : w.perform (.delete key) = some t) :
    w.IgnoresExpired (.delete key) t := by
  have hperform := h.symm.trans (perform_delete key)
  obtain rfl := Option.some.inj hperform
  exact ⟨live_delete key _, outcome?_eq rfl h rfl⟩

theorem ignoresExpired_cleanUpExpiredEntries (h : w.perform .cleanUpExpiredEntries = some t) :
    w.IgnoresExpired .cleanUpExpiredEntries t := by
  rw [perform_cleanUpExpiredEntries] at h
  obtain rfl := Option.some.inj h
  refine ⟨?_, rfl⟩
  simp only [live, begin, LiveCache.next, LiveCache.mk.injEq, true_and]
  funext key'
  rw [OrderedMap.get?_filter_eq]
  cases w.cacheEntries.get? key' with
  | none => rfl
  | some row =>
    simp only [LiveCache.unexpired, Option.map_some, Option.filter_some]
    grind

theorem ignoresExpired_settle (h : w.perform (.settle key) = some t) :
    w.IgnoresExpired (.settle key) t ↔ w.Clear (.settle key) := by
  rcases w.perform_settle key with ⟨hnone, hperform⟩ | ⟨hpending, i, hperform⟩
  · obtain rfl := Option.some.inj (hperform.symm.trans h)
    exact iff_of_true ⟨rfl, rfl⟩ fun hpending => absurd hpending hnone
  · obtain rfl := Option.some.inj (hperform.symm.trans h)
    have hlive := live_delete (w := w) key (w.setCall i .deleted).calls
    constructor
    · intro hignores _
      have hrow := congrFun (congrArg LiveCache.rows (hlive.symm.trans hignores.live)) key
      exact live_row_eq_none.mp (hrow.symm.trans (Function.update_self ..))
    · intro hclear
      refine ⟨hlive.trans ?_, rfl⟩
      have hrow := live_row_eq_none.mpr (hclear hpending)
      have hsame := Function.update_eq_self key w.live.rows
      rw [hrow] at hsame
      rw [hsame]
      rfl

/-! ## Runs -/

/-- An operation ignores expired rows exactly if it meets none that is in its way. -/
theorem ignoresExpired_iff (h : w.perform op = some t) : w.IgnoresExpired op t ↔ w.Clear op := by
  cases op with
  | clock elapsed => exact iff_of_true (ignoresExpired_clock elapsed h) trivial
  | insert key value ttl => exact ignoresExpired_insert h
  | get key => exact iff_of_true (ignoresExpired_get h) trivial
  | delete key => exact iff_of_true (ignoresExpired_delete h) trivial
  | settle key => exact ignoresExpired_settle h
  | cleanUpExpiredEntries => exact iff_of_true (ignoresExpired_cleanUpExpiredEntries h) trivial

theorem ignoresExpired_along {ops : List CacheOperation} :
    Along perform IgnoresExpired w ops ↔ Along perform (fun w op _ => w.Clear op) w ops := by
  refine along_congr (I := fun _ => True) (fun _ _ _ _ _ => trivial) ?_ trivial
  intro w op t _ h
  exact ignoresExpired_iff h

/-- A run that ignores expired rows has the outcomes of the cache without them, and that has
them without the cleanups. -/
theorem observed_eq {ops : List CacheOperation} (h : Along perform IgnoresExpired w ops) :
    w.observed ops = w.live.observed (LiveCache.withoutCleanups ops) := by
  rw [LiveCache.observed_withoutCleanups, observed, LiveCache.observed,
    trace_eq_trace exists_perform (h.mono fun _ _ _ hignores => ⟨hignores.live, hignores.outcome⟩)]

/-- Cleanups, wherever they are put in, change no outcome of the operations and expired rows are
as absent ones, exactly if no insert meets an expired row and no late deletion an unexpired one. -/
theorem unobservable_iff (now : ℤ) (cacheEntries : CacheTable) (ops : List CacheOperation) :
    (∀ ops', LiveCache.withoutCleanups ops' = ops →
        (new now cacheEntries).observed ops' = (new now cacheEntries).observed ops ∧
          Along perform IgnoresExpired (new now cacheEntries) ops') ↔
      ∀ ops', LiveCache.withoutCleanups ops' = ops →
        Along perform (fun w op _ => w.Clear op) (new now cacheEntries) ops' := by
  constructor
  · intro h ops' hops
    exact ignoresExpired_along.mp (h ops' hops).2
  · rintro h ops' rfl
    have hops' := ignoresExpired_along.mpr (h ops' rfl)
    have hops := ignoresExpired_along.mpr
      (h (LiveCache.withoutCleanups ops') (by simp [LiveCache.withoutCleanups]))
    refine ⟨?_, hops'⟩
    rw [observed_eq hops', observed_eq hops]
    simp [LiveCache.withoutCleanups]

/-- A key is stored for a second, and stored anew two seconds later. -/
def storedAnew : List CacheOperation :=
  [.insert (js "k") .null 1, .clock 2000, .insert (js "k") .null 1]

/-- The second insert fails, unless a cleanup comes before it. -/
theorem not_unobservable : ¬∀ now ops ops', LiveCache.withoutCleanups ops' = ops →
    (new now .empty).observed ops' = (new now .empty).observed ops := by
  intro h
  have hsame := h 0 storedAnew
    [.insert (js "k") .null 1, .clock 2000, .cleanUpExpiredEntries, .insert (js "k") .null 1]
    (by decide)
  revert hsame
  decide +kernel

end SqlTtlCache

end DwnServer
