import DwnServer.Connection.Cleanup

/-!
# The connections of a server and their end

`InMemoryConnectionManager` keeps each connection under its socket until the connection calls
its `onClose` handler. That call is the last step of `SocketConnection.close`, which first waits
for the `close` function of every subscription: when one of them rejects, `close` rejects too,
the socket is not closed and the connection stays in the map. `closeAll` rejects with the first
of the connections.
-/
namespace DwnServer

open Transition

/-- A call of `closeAll`: the calls of `close` it waits for, each by the number of its connection
and its place there. -/
structure CloseAllCall where
  waits : List (ℕ × ℕ)
  settlement : Settlement

/-- All connections there ever were, and the map of the manager. A socket has the number of its
connection, so `connections` holds the keys of the map, in order. -/
structure ConnectionManager where
  all : List Connection
  connections : List ℕ
  closeAlls : List CloseAllCall

inductive ManagerAction where
  | connect
  | closeAll
  | connection (i : ℕ) (a : Action)
  | closeAllSettles (call : ℕ)

namespace ConnectionManager

def new : ConnectionManager := ⟨[], [], []⟩

def connect (w : ConnectionManager) : ConnectionManager :=
  { w with all := w.all ++ [.new], connections := w.connections ++ [w.all.length] }

/-- The number of the next call of the connection's `close`. -/
def nextClose (w : ConnectionManager) (i : ℕ) : ℕ := w.all[i]?.elim 0 fun c => c.closes.length

/-- `closeAll` up to `Promise.all`. -/
def closeAll (w : ConnectionManager) : ConnectionManager :=
  { w with
    all := w.all.mapIdx fun i c => if i ∈ w.connections then c.beginClose else c
    closeAlls := w.closeAlls ++ [⟨w.connections.map fun i => (i, w.nextClose i), .pending⟩] }

/-- The `onClose` handler of connection `i`. -/
def onClose (w : ConnectionManager) (i : ℕ) : ConnectionManager :=
  { w with connections := w.connections.filter fun j => j ≠ i }

/-- The promise of a call of `close`. -/
def closeSettlement (w : ConnectionManager) (call : ℕ × ℕ) : Settlement :=
  (w.all[call.1]?.bind fun c => c.closes[call.2]?).elim .pending CloseCall.settlement

/-- `Promise.all` of the calls of `close`. -/
def settlementOf (w : ConnectionManager) (call : CloseAllCall) : Settlement :=
  if ∃ p ∈ call.waits, w.closeSettlement p = .rejected then .rejected
  else if ∀ p ∈ call.waits, w.closeSettlement p = .resolved then .resolved
  else .pending

def step (w : ConnectionManager) : ManagerAction → Option ConnectionManager
  | .connect => some w.connect
  | .closeAll => some w.closeAll
  | .connection i a =>
    match w.all[i]? with
    | some c => (c.step a).map fun c' =>
      let t := { w with all := w.all.set i c' }
      if c.onCloseCalls < c'.onCloseCalls then t.onClose i else t
    | none => none
  | .closeAllSettles j =>
    match w.closeAlls[j]? with
    | some call =>
      if call.settlement = .pending ∧ w.settlementOf call ≠ .pending then
        some { w with
          closeAlls := w.closeAlls.set j { call with settlement := w.settlementOf call } }
      else none
    | none => none

def SocketClosed (w : ConnectionManager) (i : ℕ) : Prop := ∃ c ∈ w.all[i]?, c.socketClosed = true

/-- The socket was closed, and it is not in the map. -/
def HasLeft (w : ConnectionManager) (i : ℕ) : Prop := w.SocketClosed i ∧ i ∉ w.connections

/-- Connections of which a `close` has settled have left, and so have all that were there at a
call of `closeAll` that has settled. -/
structure SettledLeft (w : ConnectionManager) : Prop where
  close : ∀ i c, w.all[i]? = some c → (∃ call ∈ c.closes, call.settlement ≠ .pending) → w.HasLeft i
  closeAll : ∀ call ∈ w.closeAlls, call.settlement ≠ .pending → ∀ p ∈ call.waits, w.HasLeft p.1

/-- A `close` rejects when another call has closed the socket before, and `closeAll` rejects when
the sockets of all its connections are closed. -/
def RejectsLate (w : ConnectionManager) : ManagerAction → Prop
  | .connection i (.closeAllSettles _ false) => w.SocketClosed i
  | .closeAllSettles j => ∀ call ∈ w.closeAlls[j]?,
    (∃ p ∈ call.waits, w.closeSettlement p = .rejected) → ∀ p ∈ call.waits, w.SocketClosed p.1
  | _ => True

end ConnectionManager

/-! ## What a step does to the end of a connection -/

/-- A step begins a call of `close`, settles one, or does neither. -/
inductive Connection.Closing (c : Connection) (a : Action) (t : Connection) : Prop where
  | kept (closes : t.closes = c.closes) (socketClosed : t.socketClosed = c.socketClosed)
      (onCloseCalls : t.onCloseCalls = c.onCloseCalls)
  | begins (subscriptions : List ℕ) (closes : t.closes = c.closes ++ [⟨subscriptions, .pending⟩])
      (socketClosed : t.socketClosed = c.socketClosed)
      (onCloseCalls : t.onCloseCalls = c.onCloseCalls)
  | resolves (k : ℕ) (closed : CloseCall)
      (closes : t.closes = c.closes.set k { closed with settlement := .resolved })
      (socketClosed : t.socketClosed = true) (onCloseCalls : t.onCloseCalls = c.onCloseCalls + 1)
  | rejects (k : ℕ) (closed : CloseCall) (acts : a = .closeAllSettles k false)
      (closes : t.closes = c.closes.set k { closed with settlement := .rejected })
      (socketClosed : t.socketClosed = c.socketClosed)
      (onCloseCalls : t.onCloseCalls = c.onCloseCalls)

theorem Connection.closing {c t : Connection} {a : Action} (h : c.step a = some t) :
    c.Closing a t := by
  cases a with
  | message data host =>
    obtain ⟨-, rfl⟩ := step_message.mp h
    rcases message_cases c data host with ⟨text, hm⟩ | hm | ⟨request, context, -, hm⟩ <;>
      exact hm ▸ .kept rfl rfl rfl
  | handle i host =>
    obtain ⟨request, context, -, rfl⟩ := step_handle.mp h
    exact .kept rfl rfl rfl
  | dwnSettles i outcome host =>
    obtain ⟨request, context, requestId, call, -, -, rfl⟩ := step_dwnSettles.mp h
    exact .kept rfl rfl rfl
  | closeSettles i outcome host =>
    obtain ⟨request, requestId, id, subscription, -, rfl⟩ := step_closeSettles.mp h
    exact .kept rfl rfl rfl
  | respond i =>
    obtain ⟨request, response, -, rfl⟩ := step_respond.mp h
    unfold respond
    split <;> exact .kept rfl rfl rfl
  | event s e =>
    obtain ⟨id, -, -, rfl⟩ := step_event h
    exact .kept rfl rfl rfl
  | heartbeat =>
    obtain ⟨-, rfl⟩ := step_heartbeat.mp h
    unfold heartbeat
    split_ifs
    · exact .kept rfl rfl rfl
    · exact .begins _ rfl rfl rfl
  | pong =>
    obtain ⟨-, rfl⟩ := step_pong.mp h
    exact .kept rfl rfl rfl
  | socketClose =>
    obtain ⟨-, rfl⟩ := step_socketClose.mp h
    exact .begins _ rfl rfl rfl
  | socketError =>
    obtain ⟨-, rfl⟩ := step_socketError.mp h
    exact .begins _ rfl rfl rfl
  | close =>
    obtain rfl := Option.some.inj h
    exact .begins _ rfl rfl rfl
  | closeAllSettles k resolved =>
    obtain ⟨closed, -, -, -, rfl⟩ := step_closeAllSettles.mp h
    cases resolved with
    | true => exact .resolves k closed rfl rfl rfl
    | false => exact .rejects k closed rfl rfl rfl rfl

/-- The connection is in the map until its socket is closed, and its socket is closed before a
call of `close` settles. -/
structure Connection.Ended (c : Connection) (held : Prop) : Prop where
  held : held ↔ c.socketClosed = false
  settled : ∀ call ∈ c.closes, call.settlement ≠ .pending → c.socketClosed = true

section Closing

variable {c t : Connection} {a : Action} {held : Prop}

theorem Connection.Closing.socketClosed_mono (h : c.Closing a t) (hc : c.socketClosed = true) :
    t.socketClosed = true := by
  cases h with
  | kept _ hsocket _ | begins _ _ hsocket _ => rw [hsocket, hc]
  | resolves _ _ _ hsocket _ => exact hsocket
  | rejects _ _ _ _ hsocket _ => rw [hsocket, hc]

/-- Unless one is rejected now, no call of `close` is rejected that was not before. -/
theorem Connection.Closing.noneRejected (h : c.Closing a t) (ha : ∀ k, a ≠ .closeAllSettles k false)
    (hc : ∀ call ∈ c.closes, call.settlement ≠ .rejected) :
    ∀ call ∈ t.closes, call.settlement ≠ .rejected := by
  intro call hcall
  cases h with
  | kept hcloses _ _ => exact hc call (hcloses ▸ hcall)
  | begins subscriptions hcloses _ _ =>
    rcases List.mem_append.mp (hcloses ▸ hcall) with hold | hnew
    · exact hc call hold
    · rw [List.mem_singleton.mp hnew]
      nofun
  | resolves k closed hcloses _ _ =>
    rcases List.mem_or_eq_of_mem_set (hcloses ▸ hcall) with hold | rfl
    · exact hc call hold
    · nofun
  | rejects k closed hacts _ _ _ => exact absurd hacts (ha k)

theorem Connection.Ended.step (hc : c.Ended held) (h : c.Closing a t)
    (hlate : ∀ k, a = .closeAllSettles k false → c.socketClosed = true) :
    t.Ended (held ∧ ¬c.onCloseCalls < t.onCloseCalls) := by
  cases h with
  | kept hcloses hsocket hcalls =>
    exact ⟨by simp [hsocket, hcalls, hc.held], by rw [hcloses, hsocket]; exact hc.settled⟩
  | begins subscriptions hcloses hsocket hcalls =>
    refine ⟨by simp [hsocket, hcalls, hc.held], fun call hcall hsettled => ?_⟩
    rw [hcloses] at hcall
    rw [hsocket]
    rcases List.mem_append.mp hcall with hold | hnew
    · exact hc.settled call hold hsettled
    · rw [List.mem_singleton.mp hnew] at hsettled
      exact absurd rfl hsettled
  | resolves k closed hcloses hsocket hcalls =>
    exact ⟨by simp [hsocket, hcalls], fun _ _ _ => hsocket⟩
  | rejects k closed hacts hcloses hsocket hcalls =>
    refine ⟨by simp [hsocket, hcalls, hc.held], fun _ _ _ => ?_⟩
    rw [hsocket]
    exact hlate k hacts

end Closing

namespace ConnectionManager

variable {w t : ConnectionManager}

/-- What holds as long as everything rejects late. -/
structure Orderly (w : ConnectionManager) : Prop where
  known : ∀ i ∈ w.connections, i < w.all.length
  each : ∀ (i : ℕ) (c : Connection), w.all[i]? = some c → c.Ended (i ∈ w.connections)
  closeAll : ∀ call ∈ w.closeAlls, call.settlement ≠ .pending → ∀ p ∈ call.waits,
    w.SocketClosed p.1

theorem orderly_new : new.Orderly := ⟨nofun, nofun, nofun⟩

theorem Orderly.hasLeft (hw : w.Orderly) {i : ℕ} (hi : w.SocketClosed i) : w.HasLeft i := by
  obtain ⟨c, hc, hsocket⟩ := hi
  refine ⟨⟨c, hc, hsocket⟩, fun hheld => ?_⟩
  have hopen := (hw.each i c hc).held.mp hheld
  exact absurd (hsocket.symm.trans hopen) nofun

theorem Orderly.settledLeft (hw : w.Orderly) : w.SettledLeft where
  close := fun i c hc ⟨call, hcall, hsettled⟩ =>
    hw.hasLeft ⟨c, hc, (hw.each i c hc).settled call hcall hsettled⟩
  closeAll := fun call hcall hsettled p hp => hw.hasLeft (hw.closeAll call hcall hsettled p hp)

/-! ## One step -/

theorem step_connection {i : ℕ} {a : Action} (h : w.step (.connection i a) = some t) :
    ∃ c c', w.all[i]? = some c ∧ c.step a = some c' ∧ t.all = w.all.set i c' ∧
      t.closeAlls = w.closeAlls ∧
      t.connections = w.connections.filter
        fun j => ¬(j = i ∧ c.onCloseCalls < c'.onCloseCalls) := by
  simp only [step] at h
  split at h
  · rename_i c hc
    obtain ⟨c', hstep, rfl⟩ := Option.map_eq_some_iff.mp h
    refine ⟨c, c', hc, hstep, ?_⟩
    by_cases hcalls : c.onCloseCalls < c'.onCloseCalls
    · rw [if_pos hcalls]
      exact ⟨rfl, rfl, by simp [onClose, hcalls]⟩
    · rw [if_neg hcalls]
      exact ⟨rfl, rfl, by simp [hcalls]⟩
  · cases h

theorem step_closeAllSettles {j : ℕ} : w.step (.closeAllSettles j) = some t ↔
    ∃ call, w.closeAlls[j]? = some call ∧ call.settlement = .pending ∧
      w.settlementOf call ≠ .pending ∧
      { w with closeAlls := w.closeAlls.set j { call with settlement := w.settlementOf call } } =
        t := by
  simp only [step]
  split <;> simp_all [and_assoc]

/-- A connection stays as it is, or takes a step of its own. -/
theorem step_all {a : ManagerAction} {i : ℕ} {c : Connection} (hc : w.all[i]? = some c)
    (h : w.step a = some t) :
    ∃ c', t.all[i]? = some c' ∧ (c' = c ∨ ∃ a', c.step a' = some c') := by
  have hlt := (List.getElem?_eq_some_iff.mp hc).1
  cases a with
  | connect =>
    obtain rfl := Option.some.inj h
    exact ⟨c, (List.getElem?_append_left hlt).trans hc, Or.inl rfl⟩
  | closeAll =>
    obtain rfl := Option.some.inj h
    refine ⟨if i ∈ w.connections then c.beginClose else c, ?_, ?_⟩
    · rw [closeAll, List.getElem?_mapIdx, hc]
      rfl
    · split_ifs
      · exact Or.inr ⟨.close, rfl⟩
      · exact Or.inl rfl
  | connection j a =>
    obtain ⟨d, d', hd, hstep, hall, -, -⟩ := step_connection h
    rw [hall]
    by_cases hj : i = j
    · subst hj
      obtain rfl := Option.some.inj (hc.symm.trans hd)
      exact ⟨d', List.getElem?_set_self hlt, Or.inr ⟨a, hstep⟩⟩
    · exact ⟨c, (List.getElem?_set_ne (Ne.symm hj)).trans hc, Or.inl rfl⟩
  | closeAllSettles j =>
    obtain ⟨call, -, -, -, rfl⟩ := step_closeAllSettles.mp h
    exact ⟨c, hc, Or.inl rfl⟩

/-- Sockets stay closed. -/
theorem SocketClosed.step {a : ManagerAction} {i : ℕ} (hi : w.SocketClosed i)
    (h : w.step a = some t) : t.SocketClosed i := by
  obtain ⟨c, hc, hsocket⟩ := hi
  obtain ⟨c', hc', rfl | ⟨a', hstep⟩⟩ := step_all hc h
  · exact ⟨c', hc', hsocket⟩
  · exact ⟨c', hc', (Connection.closing hstep).socketClosed_mono hsocket⟩

/-- In a run of the manager, a connection takes a run of its own. -/
theorem exists_run_of_run {as : List ManagerAction} {i : ℕ} {c : Connection}
    (hc : w.all[i]? = some c) (h : run step w as = some t) :
    ∃ as' c', t.all[i]? = some c' ∧ run Connection.step c as' = some c' := by
  induction as generalizing w c with
  | nil => exact ⟨[], c, Option.some.inj h ▸ hc, rfl⟩
  | cons a as ih =>
    obtain ⟨u, hu, hrest⟩ := Option.bind_eq_some_iff.mp h
    obtain ⟨d, hd, rfl | ⟨a', hstep⟩⟩ := step_all hc hu
    · exact ih hd hrest
    · obtain ⟨as', c', hc', hrun⟩ := ih hd hrest
      exact ⟨a' :: as', c', hc', by simp [hstep, hrun]⟩

/-- Every connection of the manager has come to where it is by a run of its own. -/
def Reachable (w : ConnectionManager) : Prop :=
  ∀ (i : ℕ) (c : Connection), w.all[i]? = some c → ∃ as, run Connection.step .new as = some c

theorem Reachable.step {a : ManagerAction} (hw : w.Reachable) (h : w.step a = some t) :
    t.Reachable := by
  intro i c' hc'
  have hgoes : ∀ c, w.all[i]? = some c → ∃ as, run Connection.step .new as = some c' := by
    intro c hc
    obtain ⟨as, has⟩ := hw i c hc
    obtain ⟨d, hd, rfl | ⟨a', hstep⟩⟩ := step_all hc h
    · exact ⟨as, Option.some.inj (hd.symm.trans hc') ▸ has⟩
    · refine ⟨as ++ [a'], ?_⟩
      rw [run_append, has, Option.bind_some, run_cons, hstep]
      exact hd.symm.trans hc'
  cases a with
  | connect =>
    obtain rfl := Option.some.inj h
    rcases Numbered.getElem?_append_singleton hc' with hold | ⟨-, rfl⟩
    · exact hgoes c' hold
    · exact ⟨[], rfl⟩
  | closeAll =>
    obtain rfl := Option.some.inj h
    rw [closeAll, List.getElem?_mapIdx] at hc'
    obtain ⟨c, hc, -⟩ := Option.map_eq_some_iff.mp hc'
    exact hgoes c hc
  | connection j a =>
    obtain ⟨d, d', hd, hstep, hall, -, -⟩ := step_connection h
    obtain ⟨hlt, -⟩ := List.getElem?_eq_some_iff.mp (hall ▸ hc')
    rw [List.length_set] at hlt
    exact hgoes _ (List.getElem?_eq_getElem hlt)
  | closeAllSettles j =>
    obtain ⟨call, -, -, -, rfl⟩ := step_closeAllSettles.mp h
    exact hgoes c' hc'

theorem reachable_of_run {as : List ManagerAction} (h : run step new as = some w) :
    w.Reachable := by
  have hnew : new.Reachable := fun i c hc => by simp [new] at hc
  exact run_invariant (fun _ _ _ hs hstep => Reachable.step hs hstep) hnew h

/-- When all calls of `close` are resolved, the sockets are closed. -/
theorem Orderly.of_resolved (hw : w.Orderly) {call : CloseAllCall} {p : ℕ × ℕ} (hp : p ∈ call.waits)
    (hpending : w.settlementOf call ≠ .pending)
    (hnone : ¬∃ p ∈ call.waits, w.closeSettlement p = .rejected) : w.SocketClosed p.1 := by
  have hresolved : w.closeSettlement p = .resolved := by
    unfold settlementOf at hpending
    rw [if_neg hnone] at hpending
    split_ifs at hpending with hall
    · exact hall p hp
    · exact absurd rfl hpending
  unfold closeSettlement at hresolved
  cases hc : w.all[p.1]? with
  | none => simp [hc] at hresolved
  | some c =>
    cases hcall : c.closes[p.2]? with
    | none => simp [hc, hcall] at hresolved
    | some closed =>
      have hsettled : closed.settlement = .resolved := by simpa [hc, hcall] using hresolved
      exact ⟨c, hc, (hw.each p.1 c hc).settled closed (List.mem_of_getElem? hcall)
        (by rw [hsettled]; nofun)⟩

theorem Orderly.step {a : ManagerAction} (hw : w.Orderly) (hlate : w.RejectsLate a)
    (h : w.step a = some t) : t.Orderly := by
  have hkeeps : ∀ i, w.SocketClosed i → t.SocketClosed i := fun i hi => hi.step h
  cases a with
  | connect =>
    obtain rfl := Option.some.inj h
    refine ⟨fun i hi => ?_, fun i c hc => ?_, fun call hcall hsettled p hp =>
      hkeeps _ (hw.closeAll call hcall hsettled p hp)⟩
    · simp only [connect, List.length_append, List.length_singleton]
      rcases List.mem_append.mp hi with hold | hnew
      · exact Nat.lt_succ_of_lt (hw.known i hold)
      · rw [List.mem_singleton.mp hnew]
        exact Nat.lt_succ_self _
    · rcases Numbered.getElem?_append_singleton hc with hold | ⟨rfl, rfl⟩
      · have hne : i ≠ w.all.length := ((List.getElem?_eq_some_iff.mp hold).1).ne
        have hend := hw.each i c hold
        exact ⟨by simp [connect, hne, hend.held], hend.settled⟩
      · exact ⟨by simp [connect, Connection.new], List.forall_mem_nil _⟩
  | closeAll =>
    obtain rfl := Option.some.inj h
    refine ⟨fun i hi => ?_, fun i c hc => ?_, fun call hcall hsettled p hp => ?_⟩
    · rw [ConnectionManager.closeAll, List.length_mapIdx]
      exact hw.known i hi
    · rw [ConnectionManager.closeAll, List.getElem?_mapIdx] at hc
      obtain ⟨d, hd, rfl⟩ := Option.map_eq_some_iff.mp hc
      have hend := hw.each i d hd
      split_ifs with hheld
      · have hbegins : d.step .close = some d.beginClose := rfl
        have hstep := hend.step (Connection.closing hbegins) (by simp)
        exact ⟨(and_iff_left (lt_irrefl d.onCloseCalls)).symm.trans hstep.held, hstep.settled⟩
      · exact hend
    · rcases List.mem_append.mp hcall with hold | hnew
      · exact hkeeps _ (Orderly.closeAll hw call hold hsettled p hp)
      · rw [List.mem_singleton.mp hnew] at hsettled
        exact absurd rfl hsettled
  | connection i a =>
    obtain ⟨c, c', hc, hstep, hall, hcloseAlls, hconnections⟩ := step_connection h
    refine ⟨fun j hj => ?_, fun j d hd => ?_, fun call hcall hsettled p hp => ?_⟩
    · rw [hconnections] at hj
      rw [hall, List.length_set]
      exact hw.known j (List.mem_filter.mp hj).1
    · rw [hall] at hd
      have hend := (hw.each i c hc).step (Connection.closing hstep) (fun k hk => by
        obtain ⟨c₂, hc₂, hsocket⟩ : w.SocketClosed i := by
          rw [hk] at hlate
          exact hlate
        obtain rfl := Option.some.inj (hc.symm.trans hc₂)
        exact hsocket)
      by_cases hj : j = i
      · subst hj
        rw [List.getElem?_set_self (List.getElem?_eq_some_iff.mp hc).1] at hd
        obtain rfl := Option.some.inj hd
        simpa [hconnections] using hend
      · rw [List.getElem?_set_ne (Ne.symm hj)] at hd
        simpa [hconnections, hj] using hw.each j d hd
    · rw [hcloseAlls] at hcall
      exact hkeeps _ (hw.closeAll call hcall hsettled p hp)
  | closeAllSettles j =>
    obtain ⟨call, hj, hcall, hsettles, rfl⟩ := step_closeAllSettles.mp h
    refine ⟨hw.known, hw.each, fun call' hcall' hsettled p hp => ?_⟩
    rcases List.mem_or_eq_of_mem_set hcall' with hold | rfl
    · exact hw.closeAll call' hold hsettled p hp
    · by_cases hrejected : ∃ p ∈ call.waits, w.closeSettlement p = .rejected
      · exact hlate call hj hrejected p hp
      · exact hw.of_resolved hp hsettles hrejected

/-- A call of `close` rejects only when its socket was closed before, if a connection of which it
has settled has left. -/
theorem SettledLeft.rejectsLate {a : ManagerAction} (ht : t.SettledLeft) (h : w.step a = some t) :
    w.RejectsLate a := by
  cases a with
  | connect | closeAll => trivial
  | connection i a =>
    obtain ⟨c, c', hc, hstep, hall, -, -⟩ := step_connection h
    have hc' : t.all[i]? = some c' := by
      rw [hall]
      exact List.getElem?_set_self (List.getElem?_eq_some_iff.mp hc).1
    cases a with
    | closeAllSettles k resolved =>
      cases resolved with
      | true => trivial
      | false =>
        obtain ⟨closed, hk, -, -, rfl⟩ := Connection.step_closeAllSettles.mp hstep
        have hrejected : ({ closed with settlement := .rejected } : CloseCall) ∈
            c.closes.set k { closed with settlement := .rejected } :=
          List.mem_set (List.getElem?_eq_some_iff.mp hk).1 _
        obtain ⟨⟨d, hd, hclosed⟩, -⟩ := ht.close i _ hc' ⟨_, hrejected, nofun⟩
        obtain rfl := Option.some.inj (hc'.symm.trans hd)
        exact ⟨c, hc, hclosed⟩
    | _ => trivial
  | closeAllSettles j =>
    obtain ⟨call, hj, hcall, hsettles, rfl⟩ := step_closeAllSettles.mp h
    intro call' hcall' hrejected p hp
    obtain rfl := Option.some.inj (hj.symm.trans hcall')
    have hmem : ({ call with settlement := w.settlementOf call } : CloseAllCall) ∈
        w.closeAlls.set j { call with settlement := w.settlementOf call } :=
      List.mem_set (List.getElem?_eq_some_iff.mp hj).1 _
    exact (ht.closeAll _ hmem hsettles p hp).1

/-- Every connection whose `close` has settled has left, and every connection that was there when
`closeAll` was called has left by the time it settles, exactly in the runs in which a `close`
rejects only after another one has closed its socket, and `closeAll` only after all sockets are
closed. -/
theorem settledLeft_iff (as : List ManagerAction) :
    Throughout step SettledLeft new as ↔ Along step (fun w a _ => w.RejectsLate a) new as :=
  throughout_iff_along (fun _ hw => hw.settledLeft) (fun _ _ _ hw hlate h => hw.step hlate h)
    (fun _ _ _ _ h ht => ht.rejectsLate h) orderly_new

/-! ## When no subscription's `close` function rejects -/

/-- Not the end of a call of `close` that a `close` function of a subscription has rejected. -/
def Resolves : ManagerAction → Prop
  | .connection _ (.closeAllSettles _ false) => False
  | _ => True

def NoneRejected (w : ConnectionManager) : Prop :=
  ∀ (i : ℕ) (c : Connection), w.all[i]? = some c → ∀ call ∈ c.closes, call.settlement ≠ .rejected

theorem NoneRejected.rejectsLate {a : ManagerAction} (hw : w.NoneRejected) (ha : Resolves a) :
    w.RejectsLate a := by
  cases a with
  | connect | closeAll => trivial
  | connection i a =>
    cases a with
    | closeAllSettles k resolved =>
      cases resolved with
      | true => trivial
      | false => exact ha.elim
    | _ => trivial
  | closeAllSettles j =>
    rintro call - ⟨p, -, hp⟩
    unfold closeSettlement at hp
    cases hc : w.all[p.1]? with
    | none => simp [hc] at hp
    | some c =>
      cases hclosed : c.closes[p.2]? with
      | none => simp [hc, hclosed] at hp
      | some closed =>
        have hrejected : closed.settlement = .rejected := by simpa [hc, hclosed] using hp
        exact absurd hrejected (hw p.1 c hc closed (List.mem_of_getElem? hclosed))

theorem NoneRejected.step {a : ManagerAction} (hw : w.NoneRejected) (ha : Resolves a)
    (h : w.step a = some t) : t.NoneRejected := by
  cases a with
  | connect =>
    obtain rfl := Option.some.inj h
    intro i c hc
    rcases Numbered.getElem?_append_singleton hc with hold | ⟨-, rfl⟩
    · exact hw i c hold
    · exact List.forall_mem_nil _
  | closeAll =>
    obtain rfl := Option.some.inj h
    intro i c hc
    rw [closeAll, List.getElem?_mapIdx] at hc
    obtain ⟨d, hd, rfl⟩ := Option.map_eq_some_iff.mp hc
    split_ifs
    · exact (Connection.closing (a := .close) rfl).noneRejected (by simp) (hw i d hd)
    · exact hw i d hd
  | connection j b =>
    obtain ⟨c, c', hc, hstep, hall, -, -⟩ := step_connection h
    intro i d hd
    rw [hall] at hd
    by_cases hi : i = j
    · subst hi
      obtain rfl := Option.some.inj
        ((List.getElem?_set_self (List.getElem?_eq_some_iff.mp hc).1).symm.trans hd)
      refine (Connection.closing hstep).noneRejected ?_ (hw i c hc)
      rintro k rfl
      exact ha
    · exact hw i d ((List.getElem?_set_ne (Ne.symm hi)).symm.trans hd)
  | closeAllSettles j =>
    obtain ⟨call, -, -, -, rfl⟩ := step_closeAllSettles.mp h
    exact hw

/-- Whatever settles has left in every run in which no subscription's `close` function rejects. -/
theorem settledLeft_of_resolves {as : List ManagerAction}
    (h : Along step (fun _ a _ => Resolves a) new as) : Throughout step SettledLeft new as :=
  throughout_of_along (I := fun w => w.Orderly ∧ w.NoneRejected) (fun _ hw => hw.1.settledLeft)
    (fun _ _ _ ⟨horderly, hw⟩ ha hstep =>
      ⟨horderly.step (hw.rejectsLate ha) hstep, hw.step ha hstep⟩)
    ⟨orderly_new, fun i c hc => by simp [new] at hc⟩ h

/-- A subscription of a connection does not close: `closeAll` has settled, and the connection is
still there with an open socket. -/
theorem not_settledLeft : ¬∀ as, Throughout step SettledLeft new as := by
  intro h
  obtain ⟨t, hrun, call, hcall, hsettled, p, hp, hheld⟩ : ∃ t, run step new
      [.connect, .connection 0 (.message Connection.subscribeFrame Connection.host),
        .connection 0 (.handle 0 Connection.host),
        .connection 0 (.dwnSettles 0 Connection.opens Connection.host), .connection 0 (.respond 0),
        .closeAll, .connection 0 (.closeAllSettles 0 false), .closeAllSettles 0] = some t ∧
      ∃ call ∈ t.closeAlls, call.settlement ≠ .pending ∧ ∃ p ∈ call.waits, p.1 ∈ t.connections := by
    apply exists_of_run
    simp only [Connection.subscribeFrame, js_append]
    decide +kernel
  have hsettledLeft := throughout_iff.mp (h _) _ t List.prefix_rfl hrun
  exact (hsettledLeft.closeAll call hcall hsettled p hp).2 hheld

end ConnectionManager

end DwnServer
