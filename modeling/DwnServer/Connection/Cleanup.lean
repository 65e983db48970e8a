import DwnServer.Connection.Subscriptions

/-!
# Cleanup when the connection closes

`addSubscription` keeps a reference to every subscription so that `close` can close it.
That holds as long as nothing goes on behind the back of the map: a subscription that
the DWN returns after `close` began, or under an id another one already has, is never
closed, and neither is one whose entry the end of an older close request deletes.
-/
namespace DwnServer

open Transition

namespace Connection

/-- Once a call of `close` has settled and no handler is running, the `close` function of
every subscription opened through the connection has been called. -/
def CleanedUp (w : Connection) : Prop :=
  (∃ c ∈ w.closes, c.settlement ≠ .pending) → (∀ stage ∈ w.requests, stage.isFinished = true) →
    ∀ o ∈ w.opened, o.2 ∈ w.closeCalls

/-- When the DWN returns a subscription, `close` was not called and its id is free; when a
close request deletes an entry, the `close` function of that entry was called. -/
def Orderly (w : Connection) (a : Action) : Prop :=
  w.registry.OpensBeforeShut (w.op a) ∧ w.registry.OpensFree SubscriptionId.key (w.op a) ∧
    w.registry.RemovesClosed SubscriptionId.key (w.op a)

instance (w : Connection) (a : Action) : Decidable (w.Orderly a) :=
  inferInstanceAs (Decidable (_ ∧ _ ∧ _))

/-- What orderly steps preserve. -/
structure Tidy (w : Connection) : Prop where
  wellFormed : w.WellFormed
  held : w.registry.Held SubscriptionId.key
  released : w.registry.Released

theorem tidy_new : new.Tidy where
  wellFormed := wellFormed_new
  held := by simp [Registry.Held, Registry.Live, registry, new]
  released := by simp [Registry.Released, registry, new]

variable {w t : Connection} {a : Action}

theorem Tidy.step (hw : w.Tidy) (hguard : w.Orderly a) (h : w.step a = some t) : t.Tidy := by
  have hop := step_registry hw.wellFormed.openers h
  obtain ⟨hshut, hfree, hremove⟩ := hguard
  exact ⟨hw.wellFormed.step h, hw.held.step hfree hremove hop,
    hw.released.step hw.held hshut hop⟩

theorem Tidy.cleanedUp (hw : w.Tidy) : w.CleanedUp := by
  rintro ⟨c, hc, -⟩ - ⟨id, s⟩ ho
  have hshut : w.registry.shut = true := by
    cases hcloses : w.closes with
    | nil => simp [hcloses] at hc
    | cons => simp [registry, hcloses]
  exact hw.released hshut id s ho

/-- In a run of orderly steps, every closed connection is cleaned up. -/
theorem cleanedUp_of_orderly {as : List Action}
    (h : Along step (fun w a _ => w.Orderly a) new as) : Throughout step CleanedUp new as :=
  throughout_of_along (fun _ => Tidy.cleanedUp) (fun _ _ _ hw hguard => hw.step hguard) tidy_new h

/-! ## A subscription returned after the connection closed -/

def host : Host := ⟨js "8c5e4d3a", js "Unexpected token"⟩

/-- A subscribe request with id 1 and subscription id 7. -/
def subscribeFrame : JsString := js <|
  "\x7b\"jsonrpc\":\"2.0\",\"id\":1,\"method\":\"rpc.subscribe.dwn.processMessage\"," ++
  "\"params\":\x7b\"target\":\"did:a\",\"message\":\x7b\"descriptor\":" ++
  "\x7b\"interface\":\"Records\",\"method\":\"Subscribe\"\x7d\x7d\x7d," ++
  "\"subscription\":\x7b\"id\":7\x7d\x7d"

/-- The DWN accepts a Subscribe message. -/
def opens : DwnOutcome := .ok ⟨.ofInt 200, js "OK", false, true, []⟩

/-- A subscription that is opened and then closed with its connection. -/
theorem cleanedUp_run : Throughout step CleanedUp new
    [.message subscribeFrame host, .handle 0 host, .dwnSettles 0 opens host, .respond 0,
      .socketClose, .closeAllSettles 0 true] := by
  apply cleanedUp_of_orderly
  simp only [subscribeFrame, js_append]
  decide +kernel

/-- The client disconnects while the DWN is opening its subscription. -/
theorem not_cleanedUp : ¬∀ as, Throughout step CleanedUp new as := by
  intro h
  obtain ⟨t, hrun, hclosed, hfinished, ho⟩ : ∃ t, run step new
      [.message subscribeFrame host, .handle 0 host, .socketClose, .closeAllSettles 0 true,
        .dwnSettles 0 opens host, .respond 0] = some t ∧
      (∃ c ∈ t.closes, c.settlement ≠ .pending) ∧
      (∀ stage ∈ t.requests, stage.isFinished = true) ∧ ∃ o ∈ t.opened, o.2 ∉ t.closeCalls := by
    apply exists_of_run
    simp only [subscribeFrame, js_append]
    decide +kernel
  obtain ⟨o, ho, hnot⟩ := ho
  exact hnot (throughout_iff.mp (h _) _ t List.prefix_rfl hrun hclosed hfinished o ho)

end Connection

end DwnServer
