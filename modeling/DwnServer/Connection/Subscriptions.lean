import DwnServer.Connection.Requests
import DwnServer.Library.Registry

/-!
# A connection's subscriptions are a registry

What a `SocketConnection` does to the subscriptions of the DWN, seen through the abstract
registry: resources are subscriptions, ids are the client's subscription ids, and the
workers are the requests that close one. `step_registry` is the simulation: every action
is one operation of the registry, `op` says which.
-/
namespace DwnServer

open Registry (Op)

namespace Connection

def registry (w : Connection) : Registry SubscriptionId SubscriptionKey ℕ ℕ where
  held := w.state.subscriptions
  opened := w.opened
  closed := w.closeCalls
  closing i := w.requests[i]?.bind Stage.closing?
  removals := w.removals.map fun r => (r.removed, r.closed)
  shut := !w.closes.isEmpty

/-- What an action does to the subscriptions. -/
def op (w : Connection) : Action → Op SubscriptionId ℕ ℕ
  | .handle i host =>
    match w.requests[i]? with
    | some (.contextBuilt request context) =>
      match (w.route i request context host).closing? with
      | some (id, _) => .beginClose i id
      | none => .idle
    | _ => .idle
  | .dwnSettles i outcome _ =>
    match w.requests[i]? with
    | some (.processing _ context _ _) =>
      match openedSubscription context outcome with
      | some id => .opens id i
      | none => .idle
    | _ => .idle
  | .closeSettles i outcome _ => .endClose i outcome.isOk
  | .heartbeat => if w.state.isAlive then .idle else .closeAll
  | .socketClose | .socketError | .close => .closeAll
  | _ => .idle

/-- A request that opened a subscription has its handler behind it. -/
def OpenersReturned (w : Connection) : Prop := ∀ o ∈ w.opened, w.Returned o.2

variable {w t : Connection}

/-! ## The fields the registry sees -/

theorem beginClose_registry :
    Registry.step SubscriptionId.key w.registry .closeAll = some w.beginClose.registry := by
  simp [Registry.step, registry, beginClose, SocketConnection.close_eq, Function.comp_def]

theorem closing_receive {stage : Stage} (h : stage.closing? = none) :
    (w.receive stage).registry.closing = w.registry.closing := by
  funext j
  simp only [registry, receive, List.getElem?_append, List.getElem?_singleton]
  split_ifs with hj hnew
  · rfl
  · simp [h, List.getElem?_eq_none (not_lt.mp hj)]
  · simp [List.getElem?_eq_none (not_lt.mp hj)]

theorem closing_setStage {i : ℕ} {old : Stage} (hi : w.requests[i]? = some old) (stage : Stage) :
    (w.setStage i stage).registry.closing =
      Function.update w.registry.closing i stage.closing? := by
  funext j
  have hlen : i < w.requests.length := (List.getElem?_eq_some_iff.mp hi).1
  by_cases hj : j = i
  · subst hj
    simp [registry, setStage, hlen]
  · simp [registry, setStage, Function.update_of_ne hj, List.getElem?_set_ne (Ne.symm hj)]

/-- A request that waits for no `close` function before or after leaves the registry as
it is. -/
theorem closing_setStage_idle {i : ℕ} {old stage : Stage} (hi : w.requests[i]? = some old)
    (hold : old.closing? = none) (hstage : stage.closing? = none) :
    (w.setStage i stage).registry.closing = w.registry.closing := by
  rw [closing_setStage hi, hstage]
  exact Function.update_eq_self_iff.mpr (by simp [registry, hi, hold])

theorem route_closing {i : ℕ} {request : Json} {context : RequestContext} {host : Host}
    {id : SubscriptionId} {subscription : ℕ}
    (h : (w.route i request context host).closing? = some (id, subscription)) :
    w.state.subscriptions.get? id.key = some subscription := by
  simp only [route] at h
  split at h <;> try cases h
  · split at h <;> cases h
  · split at h <;> cases h
    exact SocketConnection.closeSubscription_eq_ok.mp (handleSubscriptionsClose_close ‹_›)

/-! ## The simulation -/

theorem handle_registry {i : ℕ} {request : Json} {context : RequestContext} {host : Host}
    (hi : w.requests[i]? = some (.contextBuilt request context)) :
    Registry.step SubscriptionId.key w.registry (w.op (.handle i host)) =
      some (w.handle i request context host).registry := by
  simp only [op, hi, handle]
  have hidle : w.registry.closing i = none := by simp [registry, hi, Stage.closing?]
  cases hroute : (w.route i request context host).closing? with
  | none =>
    have hclosing := closing_setStage_idle hi rfl hroute
    simp only [Registry.step, Option.toList_none, List.map_nil, List.append_nil]
    exact congrArg some (Registry.ext rfl rfl rfl hclosing.symm rfl rfl)
  | some p =>
    obtain ⟨id, subscription⟩ := p
    have hclosing := closing_setStage hi (w.route i request context host)
    rw [hroute] at hclosing
    exact Registry.step_beginClose.mpr ⟨hidle, subscription, route_closing hroute,
      Registry.ext rfl rfl rfl hclosing.symm rfl rfl⟩

theorem dwnSettles_registry {i : ℕ} {request : Json} {context : RequestContext}
    {requestId : Json} {call : DwnCall} {outcome : DwnOutcome} {host : Host}
    (hw : w.OpenersReturned)
    (hi : w.requests[i]? = some (.processing request context requestId call)) :
    Registry.step SubscriptionId.key w.registry (w.op (.dwnSettles i outcome host)) =
      some (w.dwnSettles i request context requestId outcome host).registry := by
  have hheld := finishProcessMessage_subscriptions host requestId context w.state i outcome
  have hclosing : (w.setStage i (.handled request
      (finishProcessMessage host requestId context (some w.state) i outcome).1)).registry.closing =
      w.registry.closing := closing_setStage_idle hi rfl rfl
  simp only [op, hi, dwnSettles]
  cases hopened : openedSubscription context outcome with
  | none =>
    rw [hopened] at hheld
    exact congrArg some (Registry.ext hheld.symm (by simp [registry, setStage]) rfl
      hclosing.symm rfl rfl)
  | some id =>
    rw [hopened] at hheld
    have hfresh : i ∉ w.opened.map Prod.snd := by
      intro hmem
      obtain ⟨o, ho, rfl⟩ := List.mem_map.mp hmem
      obtain ⟨stage, hstage, hreturned⟩ := hw o ho
      rw [hi] at hstage
      cases Option.some.inj hstage
      cases hreturned
    exact Registry.step_opens.mpr ⟨hfresh, Registry.ext hheld.symm rfl rfl hclosing.symm rfl rfl⟩

theorem closeSettles_registry {i : ℕ} {request requestId : Json} {id : SubscriptionId}
    {subscription : ℕ} {outcome : Except JsString Unit} {host : Host}
    (hi : w.requests[i]? = some (.closing request requestId id subscription)) :
    Registry.step SubscriptionId.key w.registry (w.op (.closeSettles i outcome host)) =
      some (w.closeSettles i request requestId id subscription outcome host).registry := by
  have hheld := finishSubscriptionsClose_subscriptions host requestId id w.state outcome
  refine Registry.step_endClose.mpr ⟨id, subscription, by simp [registry, hi, Stage.closing?],
    Registry.ext hheld.symm rfl rfl ?_ ?_ rfl⟩
  · exact ((closing_setStage hi _).trans (by rw [Stage.closing?_ofResponse])).symm
  · simp [registry, closeSettles, Function.comp_def]

/-- Every action on a connection whose openers have returned is one operation of its
registry. -/
theorem step_registry {a : Action} (hw : w.OpenersReturned) (h : w.step a = some t) :
    Registry.step SubscriptionId.key w.registry (w.op a) = some t.registry := by
  cases a with
  | message data host =>
    obtain ⟨-, rfl⟩ := step_message.mp h
    refine congrArg some ?_
    rcases w.message_cases data host with ⟨text, hmessage⟩ | hmessage | ⟨_, _, -, hmessage⟩ <;>
      rw [hmessage] <;> exact Registry.ext rfl rfl rfl (closing_receive rfl).symm rfl rfl
  | handle i host =>
    obtain ⟨request, context, hi, rfl⟩ := step_handle.mp h
    exact handle_registry hi
  | dwnSettles i outcome host =>
    obtain ⟨request, context, requestId, call, hi, -, rfl⟩ := step_dwnSettles.mp h
    exact dwnSettles_registry hw hi
  | closeSettles i outcome host =>
    obtain ⟨request, requestId, id, subscription, hi, rfl⟩ := step_closeSettles.mp h
    exact closeSettles_registry hi
  | respond i =>
    obtain ⟨request, response, hi, rfl⟩ := step_respond.mp h
    refine congrArg some ?_
    unfold respond
    split <;> exact Registry.ext rfl rfl rfl (closing_setStage_idle hi rfl rfl).symm rfl rfl
  | event subscription e =>
    obtain ⟨id, -, -, rfl⟩ := step_event h
    rfl
  | heartbeat =>
    obtain ⟨-, rfl⟩ := step_heartbeat.mp h
    cases halive : w.state.isAlive with
    | true => simp [op, halive, heartbeat, Registry.step, registry]
    | false =>
      have hclose : w.heartbeat.registry = w.beginClose.registry := by
        simp [heartbeat, halive, registry]
      rw [hclose, op, halive]
      exact beginClose_registry
  | pong =>
    obtain ⟨-, rfl⟩ := step_pong.mp h
    rfl
  | socketClose =>
    obtain ⟨-, rfl⟩ := step_socketClose.mp h
    exact beginClose_registry
  | socketError =>
    obtain ⟨-, rfl⟩ := step_socketError.mp h
    exact beginClose_registry
  | close =>
    cases h
    exact beginClose_registry
  | closeAllSettles call resolved =>
    obtain ⟨closed, hcall, -, -, rfl⟩ := step_closeAllSettles.mp h
    have hshut : ∀ c : CloseCall, w.closes.isEmpty = (w.closes.set call c).isEmpty := by
      intro c
      cases hcloses : w.closes with
      | nil => rfl
      | cons => cases call <;> rfl
    refine congrArg some ?_
    unfold closeAllSettles
    split <;> exact Registry.ext rfl rfl rfl rfl rfl (congrArg not (hshut _))

/-! ## Reachable connections -/

theorem OpenersReturned.step {a : Action} (hw : w.OpenersReturned) (h : w.step a = some t) :
    t.OpenersReturned := by
  intro o ho
  cases progress h with
  | received _ _ _ _ opened => exact (hw o (opened ▸ ho)).step h
  | kept _ _ opened => exact (hw o (opened ▸ ho)).step h
  | advanced i old new id frames _ current _ requests _ _ returned opened =>
    rw [opened] at ho
    rcases List.mem_append.mp ho with hold | hnew
    · exact (hw o hold).step h
    · obtain ⟨id', hid, rfl⟩ := List.mem_map.mp hnew
      have hsome : id.isSome = true := by simp [Option.mem_toList.mp hid]
      exact ⟨new, by rw [requests, getElem?_advance current, if_pos rfl], returned (Or.inr hsome)⟩

/-- What every reachable connection satisfies. -/
structure WellFormed (w : Connection) : Prop where
  sound : w.Sound
  openers : w.OpenersReturned
  registry : w.registry.WellFormed SubscriptionId.key

theorem wellFormed_new : new.WellFormed where
  sound := by constructor <;> simp [new]
  openers := by simp [OpenersReturned, new]
  registry := by constructor <;> simp [Connection.registry, new, SocketConnection.new]

theorem WellFormed.step {a : Action} (hw : w.WellFormed) (h : w.step a = some t) : t.WellFormed :=
  ⟨hw.sound.step h, hw.openers.step h, hw.registry.step (step_registry hw.openers h)⟩

end Connection

end DwnServer
