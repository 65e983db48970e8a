import DwnServer.Client.Subscriptions

/-!
# What settles the requests of a socket

A request whose promise is not settled has its listener and its timer, in whatever way the calls of
the client and the frames follow one another. As long as frames bear no other id than the one of
their own call, a request is resolved by its own response, and by every such response that comes.
-/
namespace DwnServer

open Transition

namespace JsonRpcSocket

/-- A request that is not settled waits. -/
def Attended (w : JsonRpcSocket) : Prop :=
  ∀ n r, w.requests[n]? = some r → r.settlement = none → w.Waits n r.request

variable {w t : JsonRpcSocket} {a : ClientAction} {n : ℕ} {r : ClientRequest}

theorem Listed.fresh (hw : w.Listed) : Fresh w.requests.length w :=
  ⟨hw.requests, fun i r hi hr => absurd (List.getElem?_eq_some_iff.mp hr).1 (by omega)⟩

/-- A settled request, with as many listeners as it has. -/
theorem settledTo_of_settlement (hr : w.requests[n]? = some r) {settlement : RequestSettlement}
    (hsettled : r.settlement = some settlement) :
    SettledTo (w.listeners.count (.handleResponse n)) w n r.request settlement := by
  obtain ⟨request, _, timer⟩ := r
  obtain rfl := hsettled
  exact ⟨⟨timer, hr⟩, le_rfl⟩

theorem SettledTo.settlement_eq {k : ℕ} {request : JsonRpcRequest} {settlement : RequestSettlement}
    (hw : SettledTo k w n request settlement) (hr : w.requests[n]? = some r) :
    r.settlement = some settlement := by
  obtain ⟨⟨timer, hn⟩, -⟩ := hw
  obtain rfl := Option.some.inj (hn.symm.trans hr)
  rfl

theorem Waits.settlement_eq {request : JsonRpcRequest} (hw : w.Waits n request)
    (hr : w.requests[n]? = some r) : r.settlement = none ∧ r.request = request := by
  obtain rfl := Option.some.inj (hw.1.symm.trans hr)
  exact ⟨rfl, rfl⟩

/-- A request after a step: it is new, or it was there, settled or waiting. -/
theorem request_step (hw : w.Attended) (hlisted : w.Listed) (h : w.step a = some t)
    (hr : t.requests[n]? = some r) (hsent : r.settlement ≠ some .threw) :
    (w.requests.length ≤ n ∧ t.Waits n r.request) ∨
      (∃ r₀ settlement, w.requests[n]? = some r₀ ∧ r₀.settlement = some settlement ∧
        r.settlement = some settlement) ∨
      ∃ request, w.Waits n request := by
  by_cases hn : w.requests.length ≤ n
  · exact Or.inl ⟨hn, (hlisted.fresh.step h).waits n r hn hr hsent⟩
  · refine Or.inr ?_
    obtain ⟨r₀, hr₀⟩ : ∃ r₀, w.requests[n]? = some r₀ :=
      ⟨_, List.getElem?_eq_getElem (not_le.mp hn)⟩
    cases hsettled : r₀.settlement with
    | none => exact Or.inr ⟨_, hw n r₀ hr₀ hsettled⟩
    | some settlement =>
      exact Or.inl ⟨r₀, settlement, hr₀, hsettled,
        ((settledTo_of_settlement hr₀ hsettled).step h).settlement_eq hr⟩

theorem Attended.step (hw : w.Attended) (hlisted : w.Listed)
    (hguard : w.Truthful a ∧ w.Unambiguous a) (h : w.step a = some t) : t.Attended := by
  intro n r hr hnone
  rcases request_step hw hlisted h hr (by simp [hnone]) with
    ⟨-, hwaits⟩ | ⟨_, settlement, -, -, hsettled⟩ | ⟨request, hwaits⟩
  · exact hwaits
  · simp [hnone] at hsettled
  · rcases hwaits.step_or hlisted (identifies_of_unambiguous hguard _) h with
      hwaits | hdone | ⟨_, _, _, _, -, -, hdone⟩
    · obtain ⟨-, rfl⟩ := hwaits.settlement_eq hr
      exact hwaits
    · simp [hdone.settlement_eq hr] at hnone
    · simp [hdone.settlement_eq hr] at hnone

/-- The socket refuses a request at once or not at all. -/
theorem threw_step (hw : w.Attended) (hlisted : w.Listed) (hguard : w.Truthful a ∧ w.Unambiguous a)
    (h : w.step a = some t) (hr : t.requests[n]? = some r) (hn : n < w.requests.length)
    (hthrew : r.settlement = some .threw) :
    ∃ r₀, w.requests[n]? = some r₀ ∧ r₀.settlement = some .threw := by
  have hr₀ := List.getElem?_eq_getElem hn
  refine ⟨_, hr₀, ?_⟩
  cases hsettled : (w.requests[n]).settlement with
  | some settlement =>
    have hsame := ((settledTo_of_settlement hr₀ hsettled).step h).settlement_eq hr
    rw [← hsame, hthrew]
  | none =>
    rcases (hw n _ hr₀ hsettled).step_or hlisted (identifies_of_unambiguous hguard _) h with
      hwaits | hdone | ⟨_, _, _, _, -, -, hdone⟩
    · have hnone := (hwaits.settlement_eq hr).1
      simp [hthrew] at hnone
    · have htimedOut := hdone.settlement_eq hr
      simp [hthrew] at htimedOut
    · have hresolved := hdone.settlement_eq hr
      simp [hthrew] at hresolved

/-- A request is resolved by its own response. -/
theorem resolved_step (hw : w.Attended) (hlisted : w.Listed)
    (hguard : w.Truthful a ∧ w.Unambiguous a) (h : w.step a = some t)
    (hr : t.requests[n]? = some r) {response : Json}
    (hresolved : r.settlement = some (.resolved response)) :
    (∃ r₀, w.requests[n]? = some r₀ ∧ r₀.settlement = some (.resolved response)) ∨
      ∃ data throws sending, a = .message data (.response n) throws sending ∧
        frameOf data = some response := by
  rcases request_step hw hlisted h hr (by simp [hresolved]) with
    ⟨-, hwaits⟩ | ⟨r₀, settlement, hr₀, hsettled, hsame⟩ | ⟨request, hwaits⟩
  · have hnone := (hwaits.settlement_eq hr).1
    simp [hresolved] at hnone
  · exact Or.inl ⟨r₀, hr₀, hsettled.trans (hsame.symm.trans hresolved)⟩
  · rcases hwaits.step_or hlisted (identifies_of_unambiguous hguard _) h with
      hwaits | hdone | ⟨data, throws, sending, frame, ha, hframe, hdone⟩
    · have hnone := (hwaits.settlement_eq hr).1
      simp [hresolved] at hnone
    · have htimedOut := hdone.settlement_eq hr
      simp [hresolved] at htimedOut
    · have hframe' := hdone.settlement_eq hr
      rw [hresolved] at hframe'
      obtain rfl := RequestSettlement.resolved.inj (Option.some.inj hframe')
      exact Or.inr ⟨data, throws, sending, ha, hframe⟩

/-- A request is settled when its response has come. -/
theorem settled_step {data : JsString} {throws : ℕ → Bool} {sending : ℕ → Sending} {frame : Json}
    (hw : w.Attended) (hlisted : w.Listed)
    (hguard : w.Truthful (.message data (.response n) throws sending) ∧
      w.Unambiguous (.message data (.response n) throws sending))
    (h : w.step (.message data (.response n) throws sending) = some t)
    (hframe : frameOf data = some frame) (hr : t.requests[n]? = some r) :
    r.settlement ≠ none := by
  intro hnone
  rcases request_step hw hlisted h hr (by simp [hnone]) with
    ⟨hn, hwaits⟩ | ⟨_, settlement, -, -, hsettled⟩ | ⟨request, hwaits⟩
  · have hbears := (hguard.1 frame hframe).1 _ rfl
    simp [bears, listenerId, List.getElem?_eq_none hn] at hbears
  · simp [hnone] at hsettled
  · have hmem : .handleResponse n ∈ w.listeners :=
      List.count_pos_iff.mp (by rw [hwaits.2]; exact Nat.one_pos)
    rcases step_message hlisted hguard.1 hguard.2 h with ⟨-, hgone⟩ |
      ⟨frame', listener, hframe', horigin, -, rfl⟩
    · exact hgone frame hframe _ rfl hmem
    · obtain rfl := Option.some.inj horigin
      have hbears := (hguard.1 frame' hframe').1 _ rfl
      have hmatches : (frame'.own (js "id")).strictEquals request.id = true := by
        simpa [bears, listenerId, hwaits.1] using hbears
      have hdone : (hear frame' sending w (.handleResponse n)).Done n request (.resolved frame') :=
        hwaits.handleResponse hmatches
      simp [hdone.settlement_eq hr] at hnone

end JsonRpcSocket

end DwnServer
