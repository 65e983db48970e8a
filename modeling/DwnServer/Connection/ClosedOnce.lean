import DwnServer.Connection.Cleanup

/-!
# Closing a subscription once

`closeSubscription` looks a subscription up, waits for its `close` function and deletes
by id, so the entry stays in the map while the wait lasts. Two close requests may then
call one `close` function, and the later of them deletes whatever has taken the id since.
The connection's own `close` deletes each entry as it calls its `close` function.
-/
namespace DwnServer

open Transition

namespace Connection

/-- No `close` function was called twice; an entry that left the map was removed by the
caller of its own `close` function. -/
def ClosedOnce (w : Connection) : Prop :=
  w.closeCalls.Nodup ∧ ∀ r ∈ w.removals, r.removed = r.closed ∧ r.removed ∈ w.closeCalls

/-- No close is begun, by a close request or by the connection, on an entry whose `close`
function was called before. -/
def ClosesFresh (w : Connection) (a : Action) : Prop :=
  w.registry.ClosesOnce SubscriptionId.key (w.op a)

/-- The subscriptions whose `close` functions an action calls. -/
def closedBy (w : Connection) (a : Action) : List ℕ :=
  w.registry.closedBy SubscriptionId.key (w.op a)

/-- The subscriptions whose `close` functions have failed a close request. -/
def failedCloses (as : List Action) : List ℕ :=
  outputs step (fun w a => w.registry.failed? (w.op a)) new as

variable {w t : Connection} {a : Action} {as : List Action}

theorem closedOnce_iff_once : w.ClosedOnce ↔ w.registry.Once := by
  simp [ClosedOnce, Registry.Once, registry]

/-- What fresh closes preserve. -/
structure Settled (w : Connection) : Prop where
  wellFormed : w.WellFormed
  once : w.registry.Once
  closing : w.registry.ClosingHeld SubscriptionId.key

theorem settled_new : new.Settled where
  wellFormed := wellFormed_new
  once := by simp [Registry.Once, registry, new]
  closing := by simp [Registry.ClosingHeld, registry, new]

theorem Settled.step (hw : w.Settled) (hguard : w.ClosesFresh a) (h : w.step a = some t) :
    t.Settled := by
  have hop := step_registry hw.wellFormed.openers h
  have hwell := hw.wellFormed.registry
  exact ⟨hw.wellFormed.step h, hw.once.step hwell hw.closing hguard hop,
    hw.closing.step hwell hguard hop⟩

/-- Every subscription of a run is closed once, and removed by who closed it, exactly if no
step of the run begins a close on an entry that is already being closed. -/
theorem closedOnce_iff_closesFresh (as : List Action) :
    Throughout step ClosedOnce new as ↔ Along step (fun w a _ => w.ClosesFresh a) new as :=
  throughout_iff_along (fun _ hw => closedOnce_iff_once.mpr hw.once)
    (fun _ _ _ hw hguard => hw.step hguard)
    (fun _ _ _ hw h ht => (closedOnce_iff_once.mp ht).closesOnce
      (step_registry hw.wellFormed.openers h)) settled_new

/-- In a run of fresh closes, what an action closes is fresh exactly if no close request is waiting
for its `close` function and none has been failed by it. -/
theorem closesFresh_iff_unclaimed (hfresh : Along step (fun w a _ => w.ClosesFresh a) new as)
    (h : run step new as = some w) : w.ClosesFresh a ↔ ∀ s ∈ w.closedBy a,
      (∀ (i : ℕ) (id : SubscriptionId), w.requests[i]?.bind Stage.closing? ≠ some (id, s)) ∧
        s ∉ failedCloses as := by
  have hnew : run step new [] = some new ∧ new.Settled ∧
      new.registry.Accounted (failedCloses []) := by
    refine ⟨rfl, settled_new, ?_⟩
    constructor <;> simp [registry, new, SocketConnection.new, failedCloses, outputs]
  obtain ⟨-, hsettled, haccounted⟩ : run step new as = some w ∧ w.Settled ∧
      w.registry.Accounted (failedCloses as) := by
    refine run_history_of_along (I := fun past u => run step new past = some u ∧ u.Settled ∧
      u.registry.Accounted (failedCloses past)) ?_ hfresh hnew h
    rintro past u b v ⟨hu, hsettled, haccounted⟩ hguard hstep
    refine ⟨by simp [run_append, hu, hstep], hsettled.step hguard hstep, ?_⟩
    rw [failedCloses, outputs_append_singleton hu]
    exact haccounted.step hsettled.wellFormed.registry hsettled.closing
      (step_registry hsettled.wellFormed.openers hstep)
  exact haccounted.closesOnce_iff hsettled.wellFormed.registry

/-! ## Two close requests for one subscription -/

/-- A close request with id 2 for subscription id 7. -/
def closeFrame : JsString := js <|
  "\x7b\"jsonrpc\":\"2.0\",\"id\":2,\"method\":\"rpc.subscribe.close\",\"params\":\x7b\x7d," ++
  "\"subscription\":\x7b\"id\":7\x7d\x7d"

/-- The second close request calls the `close` function again and, when it resumes, deletes
the entry of a subscription that took the id in between and stays open. -/
theorem not_closedOnce : ¬∀ as, Throughout step ClosedOnce new as := by
  intro h
  obtain ⟨t, hrun, r, hr, hnot⟩ : ∃ t, run step new
      [.message subscribeFrame host, .handle 0 host, .dwnSettles 0 opens host,
        .message closeFrame host, .message closeFrame host, .handle 1 host, .handle 2 host,
        .closeSettles 1 (.ok ()) host,
        .message subscribeFrame host, .handle 3 host, .dwnSettles 3 opens host,
        .closeSettles 2 (.ok ()) host] = some t ∧
      ∃ r ∈ t.removals, r.removed ∉ t.closeCalls := by
    apply exists_of_run
    simp only [subscribeFrame, closeFrame, js_append]
    decide +kernel
  exact hnot ((throughout_iff.mp (h _) _ t List.prefix_rfl hrun).2 r hr).2

end Connection

end DwnServer
