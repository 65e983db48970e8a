import DwnServer.Connection.ConnectionManager
import DwnServer.Session.Relay

/-!
# The clients of a server

Each client has a connection of its own, which the connection manager keeps. What happens to all of
them at once is `closeAll`, which calls `close` of every connection in the map. So a client and its
connection do what they would do without the others, whatever ids those use.
-/
namespace DwnServer

open Transition

/-- A client, what it has sent, and how many frames it has got. -/
structure ClientSide where
  client : JsonRpcSocket
  outgoing : List Outgoing
  delivered : ℕ

/-- Client `i` has the connection with that number. -/
structure Clients where
  manager : ConnectionManager
  sides : List ClientSide

inductive ClientsAction where
  | connect
  | session (i : ℕ) (a : SessionAction)
  | closeAll
  | closeAllSettles (call : ℕ)

/-- What client `i` has of an action at a server of `n` clients, when it is there alone. -/
def ClientsAction.alone? (i n : ℕ) : ClientsAction → Option ClientsAction
  | .connect => if n = i then some .connect else none
  | .session j a => if j = i then some (.session 0 a) else none
  | .closeAll => some .closeAll
  | .closeAllSettles _ => none

namespace Session

def side (s : Session) : ClientSide := ⟨s.client, s.outgoing, s.delivered⟩

/-- What an action does at the server. -/
def serverAction? (s : Session) : SessionAction → Option Action
  | .receive host => s.outgoing[s.server.requests.length]?.map fun o => .message o.text host
  | .server a => some a
  | _ => none

end Session

namespace Clients

def new : Clients := ⟨.new, []⟩

def session (w : Clients) (i : ℕ) : Option Session :=
  w.sides[i]?.bind fun c => w.manager.all[i]?.map fun server =>
    ⟨c.client, server, c.outgoing, c.delivered⟩

def manage (w : Clients) (a : ManagerAction) : Option Clients :=
  (w.manager.step a).map fun manager => { w with manager }

def step (w : Clients) : ClientsAction → Option Clients
  | .connect => some ⟨w.manager.connect, w.sides ++ [Session.new.side]⟩
  | .session i a =>
    (w.session i).bind fun s => (s.step a).bind fun t =>
      match s.serverAction? a with
      | some b => w.manage (.connection i b)
      | none => some { w with sides := w.sides.set i t.side }
  | .closeAll => w.manage .closeAll
  | .closeAllSettles j => w.manage (.closeAllSettles j)

/-- The run of client `i` without the other clients. `closeAll` stays: it is not theirs. -/
def alone (i : ℕ) (as : List ClientsAction) : List ClientsAction :=
  outputs step (fun w a => a.alone? i w.sides.length) new as

variable {w t v : Clients} {a : ClientsAction} {as : List ClientsAction} {i : ℕ} {s : Session}

theorem session_eq_some : w.session i = some s ↔
    w.sides[i]? = some s.side ∧ w.manager.all[i]? = some s.server := by
  constructor
  · intro h
    obtain ⟨c, hc, h⟩ := Option.bind_eq_some_iff.mp h
    obtain ⟨server, hserver, rfl⟩ := Option.map_eq_some_iff.mp h
    exact ⟨hc, hserver⟩
  · rintro ⟨hside, hserver⟩
    rw [session, hside, hserver]
    rfl

theorem manage_eq_some {b : ManagerAction} : w.manage b = some t ↔
    ∃ manager, w.manager.step b = some manager ∧ { w with manager } = t :=
  Option.map_eq_some_iff

/-! ## Steps -/

/-- An action at the server leaves the client alone, and any other leaves the server alone. -/
theorem serverAction?_step {b : SessionAction} {u : Session} (h : s.step b = some u) :
    (∃ c, s.serverAction? b = some c ∧ s.server.step c = some u.server ∧ u.side = s.side) ∨
      s.serverAction? b = none ∧ u.server = s.server := by
  cases Session.stepped_of_step h with
  | client | deliver => exact Or.inr ⟨rfl, rfl⟩
  | receive host o server hnext hstep =>
    exact Or.inl ⟨.message o.text host, by simp [Session.serverAction?, hnext], hstep, rfl⟩
  | server c server _ hstep => exact Or.inl ⟨c, rfl, hstep, rfl⟩

/-- A step of the session of a client. -/
theorem step_session {j : ℕ} {b : SessionAction} (h : w.step (.session j b) = some t) :
    ∃ s u, w.session j = some s ∧ s.step b = some u ∧ t.session j = some u ∧
      (∀ i, i ≠ j → t.session i = w.session i) ∧
      t.manager.connections = w.manager.connections.filter
        fun i => ¬(i = j ∧ s.server.onCloseCalls < u.server.onCloseCalls) := by
  obtain ⟨s, hs, h⟩ := Option.bind_eq_some_iff.mp h
  obtain ⟨u, hu, h⟩ := Option.bind_eq_some_iff.mp h
  obtain ⟨hside, hserver⟩ := session_eq_some.mp hs
  refine ⟨s, u, hs, hu, ?_⟩
  rcases serverAction?_step hu with ⟨c, hc, hstep, hsame⟩ | ⟨hnone, hsame⟩
  · rw [hc] at h
    obtain ⟨manager, hmanager, rfl⟩ := manage_eq_some.mp h
    obtain ⟨d, d', hd, hd', hall, -, hheld⟩ := ConnectionManager.step_connection hmanager
    obtain rfl := Option.some.inj (hserver.symm.trans hd)
    obtain rfl := Option.some.inj (hstep.symm.trans hd')
    refine ⟨session_eq_some.mpr ⟨hsame ▸ hside, ?_⟩, fun i hi => ?_, hheld⟩
    · rw [hall, List.getElem?_set_self (List.getElem?_eq_some_iff.mp hd).1]
    · simp only [session, hall, List.getElem?_set_ne (Ne.symm hi)]
  · rw [hnone] at h
    obtain rfl := Option.some.inj h
    refine ⟨session_eq_some.mpr ⟨?_, hsame ▸ hserver⟩, fun i hi => ?_, by simp [hsame]⟩
    · exact List.getElem?_set_self (List.getElem?_eq_some_iff.mp hside).1
    · simp only [session, List.getElem?_set_ne (Ne.symm hi)]

/-- Whether a client's session can take a step is up to that session. -/
theorem exists_step_session {j : ℕ} {b : SessionAction} {u : Session} (hs : w.session j = some s)
    (hu : s.step b = some u) : ∃ t, w.step (.session j b) = some t := by
  obtain ⟨hside, hserver⟩ := session_eq_some.mp hs
  rw [step, hs, Option.bind_some, hu, Option.bind_some]
  rcases serverAction?_step hu with ⟨c, hc, hstep, -⟩ | ⟨hnone, -⟩
  · simp [hc, manage, ConnectionManager.step, hserver, hstep]
  · simp [hnone]

theorem session_closeAll (h : w.step .closeAll = some t) (i : ℕ) :
    t.session i = (w.session i).map fun s =>
      if i ∈ w.manager.connections then { s with server := s.server.beginClose } else s := by
  obtain ⟨manager, hmanager, rfl⟩ := manage_eq_some.mp h
  obtain rfl := Option.some.inj hmanager
  simp only [session, ConnectionManager.closeAll, List.getElem?_mapIdx]
  cases w.sides[i]? with
  | none => rfl
  | some c =>
    cases w.manager.all[i]? with
    | none => rfl
    | some server => by_cases hheld : i ∈ w.manager.connections <;> simp [hheld]

theorem session_closeAllSettles {j : ℕ} (h : w.step (.closeAllSettles j) = some t) :
    (∀ i, t.session i = w.session i) ∧ t.manager.connections = w.manager.connections := by
  obtain ⟨manager, hmanager, rfl⟩ := manage_eq_some.mp h
  obtain ⟨call, -, -, -, rfl⟩ := ConnectionManager.step_closeAllSettles.mp hmanager
  exact ⟨fun _ => rfl, rfl⟩

/-- As many connections as clients. -/
def Paired (w : Clients) : Prop := w.manager.all.length = w.sides.length

theorem paired_new : new.Paired := rfl

theorem Paired.session_eq_none (hw : w.Paired) :
    w.session i = none ↔ w.sides.length ≤ i := by
  constructor
  · intro h
    by_contra hlt
    have hside := List.getElem?_eq_getElem (not_le.mp hlt)
    have hserver := List.getElem?_eq_getElem (hw.symm ▸ not_le.mp hlt : i < w.manager.all.length)
    simp [session, hside, hserver] at h
  · intro hle
    simp [session, List.getElem?_eq_none_iff.mpr hle]

theorem Paired.session_connect (hw : w.Paired) (h : w.step .connect = some t) (i : ℕ) :
    t.session i = if i = w.sides.length then some .new else w.session i := by
  obtain rfl := Option.some.inj h
  unfold Paired at hw
  simp only [session, ConnectionManager.connect]
  rcases lt_trichotomy i w.sides.length with hlt | rfl | hgt
  · rw [if_neg hlt.ne, List.getElem?_append_left hlt, List.getElem?_append_left (hw ▸ hlt)]
  · rw [if_pos rfl, List.getElem?_concat_length, ← hw, List.getElem?_concat_length]
    rfl
  · rw [if_neg hgt.ne', List.getElem?_eq_none (by simp; omega), List.getElem?_eq_none hgt.le]
    rfl

theorem Paired.step (hw : w.Paired) (h : w.step a = some t) : t.Paired := by
  cases a with
  | connect =>
    obtain rfl := Option.some.inj h
    simpa [Paired, ConnectionManager.connect] using hw
  | session j b =>
    obtain ⟨s, hs, h⟩ := Option.bind_eq_some_iff.mp h
    obtain ⟨u, hu, h⟩ := Option.bind_eq_some_iff.mp h
    split at h
    · obtain ⟨manager, hmanager, rfl⟩ := manage_eq_some.mp h
      obtain ⟨_, _, -, -, hall, -, -⟩ := ConnectionManager.step_connection hmanager
      simpa [Paired, hall] using hw
    · obtain rfl := Option.some.inj h
      simpa [Paired] using hw
  | closeAll =>
    obtain ⟨manager, hmanager, rfl⟩ := manage_eq_some.mp h
    obtain rfl := Option.some.inj hmanager
    simpa [Paired, ConnectionManager.closeAll] using hw
  | closeAllSettles j =>
    obtain ⟨manager, hmanager, rfl⟩ := manage_eq_some.mp h
    obtain ⟨call, -, -, -, rfl⟩ := ConnectionManager.step_closeAllSettles.mp hmanager
    exact hw

/-! ## The session of a client is a session -/

/-- As many connections as clients, and each client's session is one of a run of its own. -/
structure Sessions (w : Clients) : Prop where
  paired : w.Paired
  runs : ∀ i s, w.session i = some s → ∃ bs, run Session.step .new bs = some s

theorem Sessions.step (hw : w.Sessions) (h : w.step a = some t) : t.Sessions where
  paired := hw.paired.step h
  runs i u hu := by
    cases a with
    | connect =>
      rw [hw.paired.session_connect h] at hu
      split_ifs at hu with hi
      · obtain rfl := Option.some.inj hu
        exact ⟨[], rfl⟩
      · exact hw.runs i u hu
    | session j b =>
      obtain ⟨s, v, hs, hv, ht, hothers, -⟩ := step_session h
      by_cases hi : i = j
      · subst hi
        obtain rfl := Option.some.inj (ht.symm.trans hu)
        obtain ⟨bs, hbs⟩ := hw.runs i s hs
        exact ⟨bs ++ [b], by simp [run_append, hbs, hv]⟩
      · exact hw.runs i u (hothers i hi ▸ hu)
    | closeAll =>
      rw [session_closeAll h] at hu
      obtain ⟨s, hs, rfl⟩ := Option.map_eq_some_iff.mp hu
      obtain ⟨bs, hbs⟩ := hw.runs i s hs
      split_ifs
      · exact ⟨bs ++ [.server .close], by rw [run_append, hbs]; rfl⟩
      · exact ⟨bs, hbs⟩
    | closeAllSettles j => exact hw.runs i u ((session_closeAllSettles h).1 i ▸ hu)

theorem sessions_run (h : run step new as = some w) : w.Sessions :=
  run_invariant (fun _ _ _ hw hstep => hw.step hstep)
    ⟨paired_new, fun i s hs => by simp [session, new] at hs⟩ h

/-! ## A client alone -/

/-- The only client of `v` is where client `i` of `w` is. -/
structure Alone (i : ℕ) (w v : Clients) : Prop where
  paired : w.Paired
  pairedAlone : v.Paired
  session : v.session 0 = w.session i
  held : 0 ∈ v.manager.connections ↔ i ∈ w.manager.connections

theorem alone_new (i : ℕ) : Alone i new new :=
  ⟨paired_new, paired_new, rfl, by simp [new, ConnectionManager.new]⟩

theorem Alone.connect (hv : Alone i w v) (h : w.step .connect = some t) :
    ∃ u, run step v (ClientsAction.alone? i w.sides.length .connect).toList = some u ∧
      Alone i t u := by
  have hconnections : t.manager.connections = w.manager.connections ++ [w.sides.length] := by
    obtain rfl := Option.some.inj h
    exact congrArg (w.manager.connections ++ [·]) hv.paired
  unfold ClientsAction.alone?
  by_cases hi : w.sides.length = i
  · obtain ⟨u, hu⟩ : ∃ u, v.step .connect = some u := ⟨_, rfl⟩
    have hfirst : v.sides.length = 0 := by
      have hnone := hv.session.trans (hv.paired.session_eq_none.mpr hi.le)
      exact Nat.le_zero.mp (hv.pairedAlone.session_eq_none.mp hnone)
    refine ⟨u, by simp [hi, hu], hv.paired.step h, hv.pairedAlone.step hu, ?_, ?_⟩
    · rw [hv.pairedAlone.session_connect hu, hv.paired.session_connect h, if_pos hfirst.symm,
        if_pos hi.symm]
    · obtain rfl := Option.some.inj hu
      simp [hconnections, ConnectionManager.connect, hv.pairedAlone.trans hfirst, hi]
  · refine ⟨v, by simp [hi], hv.paired.step h, hv.pairedAlone, ?_, ?_⟩
    · rw [hv.session, hv.paired.session_connect h, if_neg (Ne.symm hi)]
    · simp [hconnections, hv.held, Ne.symm hi]

theorem Alone.own {b : SessionAction} (hv : Alone i w v) (h : w.step (.session i b) = some t) :
    ∃ u, v.step (.session 0 b) = some u ∧ Alone i t u := by
  obtain ⟨s, s', hs, hs', ht, -, hheld⟩ := step_session h
  have hsame := hv.session.trans hs
  obtain ⟨u, hu⟩ := exists_step_session hsame hs'
  obtain ⟨x, x', hx, hx', hu', -, hheld'⟩ := step_session hu
  obtain rfl := Option.some.inj (hsame.symm.trans hx)
  obtain rfl := Option.some.inj (hs'.symm.trans hx')
  refine ⟨u, hu, hv.paired.step h, hv.pairedAlone.step hu, hu'.trans ht.symm, ?_⟩
  simp [hheld, hheld', hv.held]

/-- What another client and its connection do, this one has nothing of. -/
theorem Alone.other {j : ℕ} {b : SessionAction} (hv : Alone i w v) (hj : i ≠ j)
    (h : w.step (.session j b) = some t) : Alone i t v := by
  obtain ⟨s, s', -, -, -, hothers, hheld⟩ := step_session h
  refine ⟨hv.paired.step h, hv.pairedAlone, hv.session.trans (hothers i hj).symm, ?_⟩
  simp [hheld, hv.held, hj]

theorem Alone.closeAll (hv : Alone i w v) (h : w.step .closeAll = some t) :
    ∃ u, v.step .closeAll = some u ∧ Alone i t u := by
  obtain ⟨u, hu⟩ : ∃ u, v.step .closeAll = some u := ⟨_, rfl⟩
  refine ⟨u, hu, hv.paired.step h, hv.pairedAlone.step hu, ?_, ?_⟩
  · rw [session_closeAll hu, session_closeAll h, hv.session]
    simp only [hv.held]
  · obtain rfl := Option.some.inj h
    obtain rfl := Option.some.inj hu
    exact hv.held

theorem Alone.step (hv : Alone i w v) (h : w.step a = some t) :
    ∃ u, run step v (a.alone? i w.sides.length).toList = some u ∧ Alone i t u := by
  cases a with
  | connect => exact hv.connect h
  | session j b =>
    by_cases hj : j = i
    · subst hj
      obtain ⟨u, hu, halone⟩ := hv.own h
      exact ⟨u, by simp [ClientsAction.alone?, hu], halone⟩
    · exact ⟨v, by simp [ClientsAction.alone?, hj], hv.other (Ne.symm hj) h⟩
  | closeAll =>
    obtain ⟨u, hu, halone⟩ := hv.closeAll h
    exact ⟨u, by simp [ClientsAction.alone?, hu], halone⟩
  | closeAllSettles j =>
    obtain ⟨hsession, hconnections⟩ := session_closeAllSettles h
    refine ⟨v, rfl, hv.paired.step h, hv.pairedAlone, hv.session.trans (hsession i).symm, ?_⟩
    rw [hconnections, hv.held]

theorem alone_run (h : run step new as = some w) (i : ℕ) :
    ∃ v, run step new (alone i as) = some v ∧ Alone i w v :=
  run_outputs (fun _ _ _ _ hv hstep => hv.step hstep) (alone_new i) h

/-- A client and its connection come to where they would be if that client were the server's only
one, whatever the others and their connections do and whatever ids they use. So as long as a client
tells its own ids apart, its promises and its listeners get what its own connection sent for its
own calls. -/
theorem clients_separate (h : run step new as = some w) (hi : w.session i = some s) :
    (∃ v, run step new (alone i as) = some v ∧ v.session 0 = some s ∧
      (0 ∈ v.manager.connections ↔ i ∈ w.manager.connections)) ∧
    (s.client.TellsApart →
      (∀ n r response, s.client.requests[n]? = some r →
        r.settlement = some (.resolved response) → ∃ k m, s.SentAs k n ∧
          .response k m ∈ s.arrivedFrames ∧ Connection.MadeFor r.request.received m ∧
          response = m.reparsed) ∧
      ∀ (k : ℕ) (sub : ClientSubscription), s.client.subscriptions[k]? = some sub →
        sub.delivered <+: s.eventsIn sub.request s.arrivedFrames) := by
  obtain ⟨v, hv, halone⟩ := alone_run h i
  refine ⟨⟨v, hv, halone.session.trans hi, halone.held⟩, ?_⟩
  obtain ⟨bs, hbs⟩ := (sessions_run h).runs i s hi
  refine fun hids => ⟨fun n r response hr hresolved => ?_, fun k sub hk => ?_⟩
  · exact (Session.requests_answered hbs hids hr).1 response hresolved
  · exact (Session.events_heard hbs hids hk).1

/-- Two clients subscribe with the same ids, and `closeAll` is called when the first has closed its
subscription. -/
def bothSubscribed : List ClientsAction :=
  [.connect, .connect, .session 1 (.client (.subscribe Session.toSubscribe [] true)),
    .session 1 (.receive Connection.host)] ++
    Session.subscribedAndClosed.map (.session 0) ++ [.closeAll]

theorem clients_separate_subscribed : ∃ w s r response, run step new bothSubscribed = some w ∧
    w.session 0 = some s ∧ s.client.requests[1]? = some r ∧
      r.settlement = some (.resolved response) ∧ ∃ k m, s.SentAs k 1 ∧
        .response k m ∈ s.arrivedFrames ∧ Connection.MadeFor r.request.received m ∧
        response = m.reparsed := by
  obtain ⟨w, hrun, hsession⟩ : ∃ w, run step new bothSubscribed = some w ∧
      ((w.session 0).any fun (s : Session) => decide s.client.TellsApart &&
        s.client.requests[1]?.any fun (r : ClientRequest) =>
          r.settlement.any (·.succeeded)) = true := by
    apply exists_of_run
    decide +kernel
  obtain ⟨s, hs, hsession⟩ := (Option.any_eq_true _ _).mp hsession
  obtain ⟨hids, hsettled⟩ := Bool.and_eq_true_iff.mp hsession
  obtain ⟨r, hr, hsettled⟩ := (Option.any_eq_true _ _).mp hsettled
  obtain ⟨response, hresolved, -⟩ := response_of_succeeded hsettled
  exact ⟨w, s, r, response, hrun, hs, hr, hresolved,
    ((clients_separate hrun hs).2 (of_decide_eq_true hids)).1 1 r response hr hresolved⟩

end Clients

end DwnServer
