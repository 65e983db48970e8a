import DwnServer.Library.Numbered
import DwnServer.Library.OrderedMap
import DwnServer.Library.Transition

/-!
# `HttpServerShutdownHandler`

The handler keeps the sockets of an HTTP server, each with a mark whether it is idle: a request
clears the mark and every response that finishes sets it. Several requests may be outstanding on
one socket, and then the mark is set while others are still to be answered. `stop` destroys the
sockets that are marked, and from then on every response that finishes destroys its socket.

Node accepts no connection on a server that is closing, and calls back when all sockets have
closed.
-/
namespace DwnServer

open Transition

/-- A socket with what its `close` listener has captured and the mark of the handler. A socket that
has closed, for whatever reason, is destroyed. -/
structure TcpSocket where
  tcpSocketId : ℕ
  idle : Bool
  destroyed : Bool
  closed : Bool
  deriving DecidableEq

/-- The response to a request that was received on a socket. -/
structure ServerResponse where
  socket : ℕ
  finished : Bool
  deriving DecidableEq

structure HttpServerShutdownHandler where
  tcpSockets : OrderedMap ℕ ℕ
  tcpSocketId : ℕ
  stopping : Bool
  deriving DecidableEq

/-- A call of `destroy` by the handler on a socket that was not destroyed before; `busy` is whether
some request on it was not answered. -/
structure Destroy where
  socket : ℕ
  busy : Bool
  deriving DecidableEq

inductive StopCall where
  | notCalled
  | waiting
  | calledBack
  deriving DecidableEq

/-- The handler, its server, and what became of the sockets. Sockets and responses are numbered by
their place. -/
structure ShutdownRun where
  handler : HttpServerShutdownHandler
  sockets : List TcpSocket
  responses : List ServerResponse
  stop : StopCall
  destroys : List Destroy
  deriving DecidableEq

inductive ShutdownAction where
  | connection
  | request (socket : ℕ)
  | finish (response : ℕ)
  | close (socket : ℕ)
  | stop
  | serverCloses
  deriving DecidableEq

namespace ShutdownRun

def new : ShutdownRun := ⟨⟨.empty, 1, false⟩, [], [], .notCalled, []⟩

/-- A request on the socket is not yet answered. -/
def isBusy (w : ShutdownRun) (s : ℕ) : Bool :=
  w.responses.any fun r => r.socket = s && !r.finished

def isIdle (w : ShutdownRun) (s : ℕ) : Bool := w.sockets[s]?.any (·.idle)

def isDestroyed (w : ShutdownRun) (s : ℕ) : Bool := w.sockets[s]?.any (·.destroyed)

def isClosed (w : ShutdownRun) (s : ℕ) : Bool := w.sockets[s]?.any (·.closed)

/-- `socket.destroy()`, which does nothing the second time. -/
def destroy (w : ShutdownRun) (s : ℕ) : ShutdownRun :=
  if w.isDestroyed s then w
  else { w with
    sockets := w.sockets.modify s fun x => { x with destroyed := true }
    destroys := w.destroys ++ [⟨s, w.isBusy s⟩] }

/-- The loop of `stop` over the sockets. -/
def destroyIdle (w : ShutdownRun) (sockets : List ℕ) : ShutdownRun :=
  sockets.foldl (fun w s => if w.isIdle s then w.destroy s else w) w

/-- The `connection` listener. -/
def connection (w : ShutdownRun) : ShutdownRun :=
  { w with
    handler := { w.handler with
      tcpSockets := w.handler.tcpSockets.set w.handler.tcpSocketId w.sockets.length
      tcpSocketId := w.handler.tcpSocketId + 1 }
    sockets := w.sockets ++ [⟨w.handler.tcpSocketId, true, false, false⟩] }

def setIdle (w : ShutdownRun) (s : ℕ) (idle : Bool) : ShutdownRun :=
  { w with sockets := w.sockets.modify s fun x => { x with idle } }

/-- The `request` listener. -/
def request (w : ShutdownRun) (s : ℕ) : ShutdownRun :=
  setIdle { w with responses := w.responses ++ [⟨s, false⟩] } s false

/-- The response is sent, and its socket marked as idle. -/
def answer (w : ShutdownRun) (r : ℕ) (response : ServerResponse) : ShutdownRun :=
  setIdle { w with responses := w.responses.set r { response with finished := true } }
    response.socket true

/-- The `finish` listener of a response. -/
def finish (w : ShutdownRun) (r : ℕ) (response : ServerResponse) : ShutdownRun :=
  let w := w.answer r response
  if w.handler.stopping then w.destroy response.socket else w

/-- The `close` listener of a socket. -/
def close (w : ShutdownRun) (s : ℕ) (socket : TcpSocket) : ShutdownRun :=
  { w with
    sockets := w.sockets.set s { socket with destroyed := true, closed := true }
    handler := { w.handler with
      tcpSockets := w.handler.tcpSockets.delete socket.tcpSocketId } }

def step (w : ShutdownRun) : ShutdownAction → Option ShutdownRun
  | .connection => if w.stop = .notCalled then some w.connection else none
  | .request s => if w.sockets[s]?.any (!·.destroyed) then some (w.request s) else none
  | .finish r =>
    match w.responses[r]? with
    | some response => if response.finished then none else some (w.finish r response)
    | none => none
  | .close s =>
    match w.sockets[s]? with
    | some socket => if socket.closed then none else some (w.close s socket)
    | none => none
  | .stop =>
    if w.stop = .notCalled then
      let w := { w with stop := .waiting, handler := { w.handler with stopping := true } }
      some (w.destroyIdle w.handler.tcpSockets.values)
    else none
  | .serverCloses =>
    if w.stop = .waiting ∧ ∀ socket ∈ w.sockets, socket.closed = true then
      some { w with
        stop := .calledBack
        handler := { w.handler with tcpSocketId := 0, stopping := false } }
    else none

/-- No socket was destroyed while a request on it was unanswered, and once `stop` has been called a
tracked socket on which no request is unanswered is destroyed. -/
structure Graceful (w : ShutdownRun) : Prop where
  spared : ∀ d ∈ w.destroys, d.busy = false
  destroyed : w.stop ≠ .notCalled → ∀ s ∈ w.handler.tcpSockets.values, w.isBusy s = false →
    w.isDestroyed s = true

/-- No response finishes on a socket with another one outstanding once `stop` has been called, and
none has been the last to finish or arrive on such a socket when it is called. -/
def SparesBusy (w : ShutdownRun) : ShutdownAction → Prop
  | .finish r => w.handler.stopping = true → ∀ response ∈ w.responses[r]?,
    w.isDestroyed response.socket = false →
      ∀ r' ≠ r, ∀ other ∈ w.responses[r']?, other.socket = response.socket → other.finished = true
  | .stop => ∀ s ∈ w.handler.tcpSockets.values, w.isIdle s = true → w.isDestroyed s = false →
    w.isBusy s = false
  | _ => True

variable {w t : ShutdownRun} {a : ShutdownAction} {s : ℕ}

/-! ## Destroying sockets -/

theorem any_modify {sockets : List TcpSocket} {f : TcpSocket → TcpSocket} (p : TcpSocket → Bool)
    (s' : ℕ) : (sockets.modify s f)[s']?.any p =
      if s = s' then sockets[s']?.any fun x => p (f x) else sockets[s']?.any p := by
  rw [List.getElem?_modify]
  cases sockets[s']? with
  | none => simp
  | some x => by_cases hs : s = s' <;> simp [hs]

theorem any_append {sockets : List TcpSocket} {x : TcpSocket} (p : TcpSocket → Bool) (s : ℕ) :
    (sockets ++ [x])[s]?.any p = (sockets[s]?.any p || decide (s = sockets.length) && p x) := by
  rcases Nat.lt_trichotomy s sockets.length with hlt | rfl | hgt
  · simp [List.getElem?_append_left hlt, Nat.ne_of_lt hlt]
  · simp
  · have hnone : (sockets ++ [x])[s]? = none := List.getElem?_eq_none (by simp; omega)
    simp [hnone, Nat.le_of_lt hgt, Nat.ne_of_gt hgt]

theorem isBusy_iff : w.isBusy s = true ↔
    ∃ (r : ℕ) (x : ServerResponse),
      w.responses[r]? = some x ∧ x.socket = s ∧ x.finished = false := by
  simp only [isBusy, List.any_eq_true, Bool.and_eq_true, decide_eq_true_eq, Bool.not_eq_true']
  constructor
  · rintro ⟨x, hx, hs⟩
    obtain ⟨r, hr⟩ := List.mem_iff_getElem?.mp hx
    exact ⟨r, x, hr, hs⟩
  · rintro ⟨r, x, hr, hs⟩
    exact ⟨x, List.mem_of_getElem? hr, hs⟩

@[simp] theorem isDestroyed_setIdle (idle : Bool) (s' : ℕ) :
    (w.setIdle s idle).isDestroyed s' = w.isDestroyed s' := by
  simp [isDestroyed, setIdle, any_modify]

@[simp] theorem isClosed_setIdle (idle : Bool) (s' : ℕ) :
    (w.setIdle s idle).isClosed s' = w.isClosed s' := by
  simp [isClosed, setIdle, any_modify]

@[simp] theorem length_sockets_setIdle (idle : Bool) :
    (w.setIdle s idle).sockets.length = w.sockets.length := by
  simp [setIdle]

theorem isIdle_setIdle (idle : Bool) {s' : ℕ} (hs : s' < w.sockets.length) :
    (w.setIdle s idle).isIdle s' = if s = s' then idle else w.isIdle s' := by
  simp only [isIdle, setIdle, any_modify]
  split_ifs
  · simp [List.getElem?_eq_getElem hs]
  · rfl

@[simp] theorem destroy_handler : (w.destroy s).handler = w.handler := by
  unfold destroy; split_ifs <;> rfl

@[simp] theorem destroy_responses : (w.destroy s).responses = w.responses := by
  unfold destroy; split_ifs <;> rfl

@[simp] theorem destroy_stop : (w.destroy s).stop = w.stop := by
  unfold destroy; split_ifs <;> rfl

@[simp] theorem isBusy_destroy (s' : ℕ) : (w.destroy s).isBusy s' = w.isBusy s' := by
  simp [isBusy]

@[simp] theorem length_sockets_destroy : (w.destroy s).sockets.length = w.sockets.length := by
  unfold destroy; split_ifs <;> simp

@[simp] theorem isIdle_destroy (s' : ℕ) : (w.destroy s).isIdle s' = w.isIdle s' := by
  unfold destroy
  split_ifs
  · rfl
  · simp [isIdle, any_modify]

@[simp] theorem isClosed_destroy (s' : ℕ) : (w.destroy s).isClosed s' = w.isClosed s' := by
  unfold destroy
  split_ifs
  · rfl
  · simp [isClosed, any_modify]

theorem isDestroyed_destroy (s' : ℕ) : (w.destroy s).isDestroyed s' = true ↔
    w.isDestroyed s' = true ∨ s = s' ∧ s' < w.sockets.length := by
  unfold destroy
  split_ifs with hs
  · refine (or_iff_left_of_imp ?_).symm
    rintro ⟨rfl, -⟩
    exact hs
  · simp only [isDestroyed, any_modify]
    split_ifs with heq
    · cases hx : w.sockets[s']? with
      | none => simp [List.getElem?_eq_none_iff.mp hx]
      | some x => simp [heq, (List.getElem?_eq_some_iff.mp hx).1]
    · simp [heq]

theorem mem_destroys_destroy {d : Destroy} : d ∈ (w.destroy s).destroys ↔
    d ∈ w.destroys ∨ ¬w.isDestroyed s = true ∧ d = ⟨s, w.isBusy s⟩ := by
  unfold destroy
  split_ifs with hs <;> simp [hs]

/-- What the loop of `stop` leaves as it is, and what it destroys. -/
structure DestroysIdle (w : ShutdownRun) (sockets : List ℕ) (t : ShutdownRun) : Prop where
  handler : t.handler = w.handler
  responses : t.responses = w.responses
  stop : t.stop = w.stop
  length : t.sockets.length = w.sockets.length
  idle : ∀ s, t.isIdle s = w.isIdle s
  closed : ∀ s, t.isClosed s = w.isClosed s
  kept : ∀ s, w.isDestroyed s = true → t.isDestroyed s = true
  destroyed : ∀ s ∈ sockets, s < w.sockets.length → w.isIdle s = true → t.isDestroyed s = true
  destroys : ∀ d, d ∈ t.destroys ↔ d ∈ w.destroys ∨ d.socket ∈ sockets ∧
    w.isIdle d.socket = true ∧ ¬w.isDestroyed d.socket = true ∧ d.busy = w.isBusy d.socket

theorem destroysIdle (w : ShutdownRun) (sockets : List ℕ)
    (hknown : ∀ s ∈ sockets, s < w.sockets.length) :
    w.DestroysIdle sockets (w.destroyIdle sockets) := by
  induction sockets generalizing w with
  | nil =>
    exact ⟨rfl, rfl, rfl, rfl, fun _ => rfl, fun _ => rfl, fun _ h => h,
      fun _ hs => absurd hs List.not_mem_nil, by simp [destroyIdle]⟩
  | cons s sockets ih =>
    obtain ⟨hs, hrest⟩ := List.forall_mem_cons.mp hknown
    cases hidle : w.isIdle s with
    | false =>
      have hstep : w.destroyIdle (s :: sockets) = w.destroyIdle sockets := by
        simp [destroyIdle, hidle]
      have hloop := ih w hrest
      rw [hstep]
      refine { hloop with destroyed := fun s' hs' hlt hidle' => ?_, destroys := fun d => ?_ }
      · rcases List.mem_cons.mp hs' with rfl | hs'
        · cases hidle.symm.trans hidle'
        · exact hloop.destroyed s' hs' hlt hidle'
      · rw [hloop.destroys, List.mem_cons]
        by_cases hd : d.socket = s <;> simp [hd, hidle]
    | true =>
      have hstep : w.destroyIdle (s :: sockets) = (w.destroy s).destroyIdle sockets := by
        simp [destroyIdle, hidle]
      obtain ⟨handler, responses, stop, length, idle, closed, kept, destroyed, destroys⟩ :=
        ih (w.destroy s) (by simpa using hrest)
      simp only [destroy_handler, destroy_responses, destroy_stop, length_sockets_destroy,
        isIdle_destroy, isClosed_destroy, isDestroyed_destroy, isBusy_destroy,
        mem_destroys_destroy] at *
      rw [hstep]
      refine ⟨handler, responses, stop, length, idle, closed, fun s' hs' => kept s' (Or.inl hs'),
        fun s' hs' hlt hidle' => ?_, fun d => ?_⟩
      · rcases List.mem_cons.mp hs' with rfl | hs'
        · exact kept s' (Or.inr ⟨rfl, hlt⟩)
        · exact destroyed s' hs' hlt hidle'
      · rw [destroys, List.mem_cons]
        by_cases hd : d.socket = s
        · obtain ⟨socket, busy⟩ := d
          obtain rfl : socket = s := hd
          simp [hidle, hs, and_comm]
        · have hne : d ≠ ⟨s, w.isBusy s⟩ := fun heq => hd (congrArg Destroy.socket heq)
          simp [hd, Ne.symm hd, hne]

/-! ## One step -/

/-- What holds as long as no busy socket is destroyed. -/
structure Coherent (w : ShutdownRun) : Prop where
  stopping : w.handler.stopping = true ↔ w.stop = .waiting
  tracked : ∀ s ∈ w.handler.tcpSockets.values, s < w.sockets.length
  busy : ∀ s < w.sockets.length, w.isIdle s = false → w.isBusy s = true
  closed : ∀ s, w.isClosed s = true → w.isDestroyed s = true
  calledBack : w.stop = .calledBack → ∀ s < w.sockets.length, w.isDestroyed s = true
  spared : ∀ d ∈ w.destroys, d.busy = false

/-- Between two events, what is marked as idle is destroyed by then. -/
structure Sound (w : ShutdownRun) : Prop extends w.Coherent where
  marked : w.handler.stopping = true → ∀ s ∈ w.handler.tcpSockets.values, w.isIdle s = true →
    w.isDestroyed s = true

theorem sound_new : new.Sound := by
  refine ⟨?_, ?_⟩
  · constructor <;> simp [new, OrderedMap.values, OrderedMap.empty, isClosed]
  · simp [new]

theorem Sound.graceful (hw : w.Sound) : w.Graceful where
  spared := hw.spared
  destroyed hstop s hs hfree := by
    cases hcalled : w.stop with
    | notCalled => exact absurd hcalled hstop
    | waiting =>
      apply hw.marked (hw.stopping.mpr hcalled) s hs
      by_contra hidle
      have hbusy := hw.busy s (hw.tracked s hs) (by simpa using hidle)
      exact Bool.false_ne_true (hfree.symm.trans hbusy)
    | calledBack => exact hw.calledBack hcalled s (hw.tracked s hs)

theorem Sound.connection (hw : w.Sound) (hstop : w.stop = .notCalled) : w.connection.Sound := by
  have hlength : w.connection.sockets.length = w.sockets.length + 1 := by
    simp [ShutdownRun.connection]
  refine ⟨⟨hw.stopping, fun s hs => ?_, fun s hs hidle => ?_, fun s hs => ?_, fun h => ?_,
    hw.spared⟩, fun h => ?_⟩
  · rw [hlength]
    rcases OrderedMap.of_mem_values_set hs with rfl | hold
    · exact Nat.lt_succ_self _
    · exact Nat.lt_succ_of_lt (hw.tracked s hold)
  · rw [isIdle, ShutdownRun.connection, any_append] at hidle
    simp only [Bool.and_true, Bool.or_eq_false_iff, decide_eq_false_iff_not] at hidle
    exact hw.busy s (by omega) hidle.1
  · rw [isClosed, ShutdownRun.connection, any_append, Bool.and_false, Bool.or_false] at hs
    rw [isDestroyed, ShutdownRun.connection, any_append, Bool.and_false, Bool.or_false]
    exact hw.closed s hs
  · cases hstop.symm.trans h
  · cases hstop.symm.trans (hw.stopping.mp h)

theorem isBusy_request (s' : ℕ) :
    (w.request s).isBusy s' = (w.isBusy s' || decide (s = s')) := by
  simp [ShutdownRun.request, setIdle, isBusy]

theorem Coherent.request (hw : w.Coherent) : (w.request s).Coherent where
  stopping := hw.stopping
  tracked s' hs' := by simpa [ShutdownRun.request] using hw.tracked s' hs'
  busy s' hs' hnot := by
    have hlt : s' < w.sockets.length := by simpa [ShutdownRun.request] using hs'
    rw [ShutdownRun.request, isIdle_setIdle _ (by exact hlt)] at hnot
    rw [isBusy_request]
    split_ifs at hnot with heq
    · simp [heq]
    · simp [hw.busy s' hlt hnot]
  closed s' hs' := by
    rw [ShutdownRun.request, isClosed_setIdle] at hs'
    rw [ShutdownRun.request, isDestroyed_setIdle]
    exact hw.closed s' hs'
  calledBack hcalled s' hs' := by
    rw [ShutdownRun.request, length_sockets_setIdle] at hs'
    rw [ShutdownRun.request, isDestroyed_setIdle]
    exact hw.calledBack hcalled s' hs'
  spared := hw.spared

theorem Sound.request (hw : w.Sound) : (w.request s).Sound where
  toCoherent := hw.toCoherent.request
  marked hstopping s' hs' hidle := by
    rw [ShutdownRun.request, isIdle_setIdle _ (by exact hw.tracked s' hs')] at hidle
    rw [ShutdownRun.request, isDestroyed_setIdle]
    split_ifs at hidle
    exact hw.marked hstopping s' hs' hidle

theorem Coherent.answer (hw : w.Coherent) {r : ℕ} {response : ServerResponse}
    (hr : w.responses[r]? = some response) : (w.answer r response).Coherent where
  stopping := hw.stopping
  tracked s hs := by simpa [ShutdownRun.answer] using hw.tracked s hs
  busy s hs hnot := by
    have hlt : s < w.sockets.length := by simpa [ShutdownRun.answer] using hs
    rw [ShutdownRun.answer, isIdle_setIdle _ (by exact hlt)] at hnot
    split_ifs at hnot with heq
    obtain ⟨r', other, hr', rfl, hunfinished⟩ := isBusy_iff.mp (hw.busy s hlt hnot)
    have hne : r ≠ r' := by
      rintro rfl
      exact heq (congrArg ServerResponse.socket (Option.some.inj (hr.symm.trans hr')))
    exact isBusy_iff.mpr ⟨r', other, (List.getElem?_set_ne hne).trans hr', rfl, hunfinished⟩
  closed s hs := by
    rw [ShutdownRun.answer, isClosed_setIdle] at hs
    rw [ShutdownRun.answer, isDestroyed_setIdle]
    exact hw.closed s hs
  calledBack hcalled s hs := by
    rw [ShutdownRun.answer, length_sockets_setIdle] at hs
    rw [ShutdownRun.answer, isDestroyed_setIdle]
    exact hw.calledBack hcalled s hs
  spared := hw.spared

theorem Coherent.destroy (hw : w.Coherent) (hfree : w.isDestroyed s = false → w.isBusy s = false) :
    (w.destroy s).Coherent where
  stopping := by simpa using hw.stopping
  tracked := by simpa using hw.tracked
  busy := by simpa using hw.busy
  closed s' hs' := (isDestroyed_destroy s').mpr (Or.inl (hw.closed s' (by simpa using hs')))
  calledBack hcalled s' hs' :=
    (isDestroyed_destroy s').mpr
      (Or.inl (hw.calledBack (by simpa using hcalled) s' (by simpa using hs')))
  spared d hd := by
    rcases mem_destroys_destroy.mp hd with hold | ⟨hnot, rfl⟩
    · exact hw.spared d hold
    · exact hfree (Bool.eq_false_iff.mpr hnot)

/-- No other response is outstanding on the socket. -/
theorem isBusy_answer {r : ℕ} {response : ServerResponse} (hr : w.responses[r]? = some response)
    (s : ℕ) : (w.answer r response).isBusy s = false ↔
      ∀ r' ≠ r, ∀ other ∈ w.responses[r']?, other.socket = s → other.finished = true := by
  have hlt := (List.getElem?_eq_some_iff.mp hr).1
  rw [← Bool.not_eq_true, isBusy_iff]
  constructor
  · intro hfree r' hne other hother hsocket
    by_contra hunfinished
    exact hfree ⟨r', other, (List.getElem?_set_ne (Ne.symm hne)).trans hother, hsocket,
      by simpa using hunfinished⟩
  · rintro hothers ⟨r', other, hother, hsocket, hunfinished⟩
    by_cases hne : r' = r
    · subst hne
      obtain rfl := Option.some.inj ((List.getElem?_set_self hlt).symm.trans hother)
      cases hunfinished
    · have hfinished := hothers r' hne other
        ((List.getElem?_set_ne (Ne.symm hne)).symm.trans hother) hsocket
      exact Bool.false_ne_true (hunfinished.symm.trans hfinished)

theorem Sound.finish (hw : w.Sound) {r : ℕ} {response : ServerResponse}
    (hr : w.responses[r]? = some response) (hguard : w.SparesBusy (.finish r)) :
    (w.finish r response).Sound := by
  have hanswer := hw.toCoherent.answer hr
  simp only [ShutdownRun.finish]
  split_ifs with hstopping
  · have hfree : (w.answer r response).isDestroyed response.socket = false →
        (w.answer r response).isBusy response.socket = false := by
      intro hnot
      rw [ShutdownRun.answer, isDestroyed_setIdle] at hnot
      exact (isBusy_answer hr _).mpr (hguard hstopping response hr hnot)
    refine ⟨hanswer.destroy hfree, fun _ s hs hidle => ?_⟩
    rw [destroy_handler] at hs
    rw [isIdle_destroy, ShutdownRun.answer, isIdle_setIdle _ (by exact hw.tracked s hs)] at hidle
    rw [isDestroyed_destroy]
    by_cases heq : response.socket = s
    · exact Or.inr ⟨heq, hanswer.tracked s hs⟩
    · rw [if_neg heq] at hidle
      rw [ShutdownRun.answer, isDestroyed_setIdle]
      exact Or.inl (hw.marked hstopping s hs hidle)
  · exact ⟨hanswer, fun h => absurd h hstopping⟩

theorem any_close {socket : TcpSocket} (hs : w.sockets[s]? = some socket) (p : TcpSocket → Bool)
    (s' : ℕ) : (w.close s socket).sockets[s']?.any p =
      if s' = s then p { socket with destroyed := true, closed := true }
      else w.sockets[s']?.any p := by
  have hlt := (List.getElem?_eq_some_iff.mp hs).1
  rw [ShutdownRun.close]
  split_ifs with heq
  · rw [heq, List.getElem?_set_self hlt, Option.any_some]
  · rw [List.getElem?_set_ne (Ne.symm heq)]

theorem isIdle_close {socket : TcpSocket} (hs : w.sockets[s]? = some socket) (s' : ℕ) :
    (w.close s socket).isIdle s' = w.isIdle s' := by
  rw [isIdle, any_close hs]
  split_ifs with heq
  · simp [heq, isIdle, hs]
  · rfl

theorem Sound.close (hw : w.Sound) {socket : TcpSocket} (hs : w.sockets[s]? = some socket) :
    (w.close s socket).Sound := by
  have hlength : (w.close s socket).sockets.length = w.sockets.length := by
    simp [ShutdownRun.close]
  have hdestroyed : ∀ s', w.isDestroyed s' = true → (w.close s socket).isDestroyed s' = true := by
    intro s' hs'
    rw [isDestroyed, any_close hs]
    split_ifs
    · rfl
    · exact hs'
  refine ⟨⟨hw.stopping, fun s' hs' => ?_, fun s' hs' hnot => ?_, fun s' hs' => ?_,
    fun hcalled s' hs' => ?_, hw.spared⟩, fun hstopping s' hs' hidle' => ?_⟩
  · rw [hlength]
    exact hw.tracked s' (OrderedMap.of_mem_values_delete hs')
  · exact hw.busy s' (hlength ▸ hs') (isIdle_close hs s' ▸ hnot)
  · rw [isClosed, any_close hs] at hs'
    rw [isDestroyed, any_close hs]
    split_ifs at hs' ⊢
    · rfl
    · exact hw.closed s' hs'
  · exact hdestroyed s' (hw.calledBack hcalled s' (hlength ▸ hs'))
  · exact hdestroyed s' (hw.marked hstopping s' (OrderedMap.of_mem_values_delete hs')
      (isIdle_close hs s' ▸ hidle'))

/-- `stop` destroys what is marked as idle. -/
theorem Sound.stop (hw : w.Sound) (hguard : w.SparesBusy .stop)
    (hloop : DestroysIdle { w with
        stop := .waiting, handler := { w.handler with stopping := true } }
      w.handler.tcpSockets.values t) : t.Sound where
  stopping := by simp [hloop.handler, hloop.stop]
  tracked s hs := by
    rw [hloop.handler] at hs
    rw [hloop.length]
    exact hw.tracked s hs
  busy s hs hnot := by
    have hbusy : t.isBusy s = w.isBusy s := by simp only [isBusy, hloop.responses]
    rw [hloop.length] at hs
    rw [hloop.idle] at hnot
    rw [hbusy]
    exact hw.busy s hs hnot
  closed s hs := hloop.kept s (hw.closed s (hloop.closed s ▸ hs))
  calledBack hcalled := by cases hloop.stop.symm.trans hcalled
  spared d hd := by
    rcases (hloop.destroys d).mp hd with hold | ⟨hmem, hidle, hnot, hbusy⟩
    · exact hw.spared d hold
    · exact hbusy.trans (hguard d.socket hmem hidle (Bool.eq_false_iff.mpr hnot))
  marked _ s hs hidle := by
    rw [hloop.handler] at hs
    rw [hloop.idle] at hidle
    exact hloop.destroyed s hs (hw.tracked s hs) hidle

theorem Sound.serverCloses (hw : w.Sound) (hclosed : ∀ socket ∈ w.sockets, socket.closed = true) :
    Sound { w with
      stop := .calledBack, handler := { w.handler with tcpSocketId := 0, stopping := false } } where
  stopping := by simp
  tracked := hw.tracked
  busy := hw.busy
  closed := hw.closed
  calledBack _ s hs := by
    apply hw.closed s
    simp [isClosed, List.getElem?_eq_getElem hs, hclosed _ (List.getElem_mem hs)]
  spared := hw.spared
  marked := nofun

theorem Sound.step (hw : w.Sound) (hguard : w.SparesBusy a) (h : w.step a = some t) : t.Sound := by
  cases a with
  | connection =>
    obtain ⟨hstop, h⟩ := Option.ite_none_right_eq_some.mp h
    exact Option.some.inj h ▸ hw.connection hstop
  | request s =>
    obtain ⟨-, h⟩ := Option.ite_none_right_eq_some.mp h
    exact Option.some.inj h ▸ hw.request
  | finish r =>
    simp only [ShutdownRun.step] at h
    split at h
    · rename_i response hr
      obtain ⟨-, h⟩ := Option.ite_none_left_eq_some.mp h
      exact Option.some.inj h ▸ hw.finish hr hguard
    · cases h
  | close s =>
    simp only [ShutdownRun.step] at h
    split at h
    · rename_i socket hs
      obtain ⟨-, h⟩ := Option.ite_none_left_eq_some.mp h
      exact Option.some.inj h ▸ hw.close hs
    · cases h
  | stop =>
    obtain ⟨-, h⟩ := Option.ite_none_right_eq_some.mp h
    exact Option.some.inj h ▸ hw.stop hguard (destroysIdle _ _ hw.tracked)
  | serverCloses =>
    obtain ⟨⟨-, hclosed⟩, h⟩ := Option.ite_none_right_eq_some.mp h
    exact Option.some.inj h ▸ hw.serverCloses hclosed

/-- A step that spares busy sockets meets the condition. -/
theorem Graceful.sparesBusy (ht : t.Graceful) (hw : w.Sound) (h : w.step a = some t) :
    w.SparesBusy a := by
  cases a with
  | connection | request s | close s | serverCloses => trivial
  | finish r =>
    intro hstopping response hr hnot
    simp only [ShutdownRun.step, Option.mem_def.mp hr] at h
    obtain ⟨-, h⟩ := Option.ite_none_left_eq_some.mp h
    have hdestroys : t = (w.answer r response).destroy response.socket :=
      (Option.some.inj h).symm.trans (if_pos hstopping)
    have hnot' : ¬(w.answer r response).isDestroyed response.socket = true := by
      rw [ShutdownRun.answer, isDestroyed_setIdle]
      exact Bool.eq_false_iff.mp hnot
    rw [hdestroys] at ht
    exact (isBusy_answer hr _).mp (ht.spared _ (mem_destroys_destroy.mpr (Or.inr ⟨hnot', rfl⟩)))
  | stop =>
    intro s hs hidle hnot
    obtain ⟨-, h⟩ := Option.ite_none_right_eq_some.mp h
    obtain rfl := Option.some.inj h
    have hloop := destroysIdle { w with
      stop := .waiting, handler := { w.handler with stopping := true } } _ hw.tracked
    exact ht.spared ⟨s, w.isBusy s⟩ ((hloop.destroys _).mpr
      (Or.inr ⟨hs, hidle, Bool.eq_false_iff.mp hnot, rfl⟩))

/-- Busy sockets are spared and the others destroyed once `stop` has been called, exactly in the
runs in which no response finishes on a socket with another one outstanding, be it after `stop`
was called or with no further request on the socket until then. -/
theorem graceful_iff (as : List ShutdownAction) :
    Throughout step Graceful new as ↔ Along step (fun w a _ => w.SparesBusy a) new as :=
  throughout_iff_along (fun _ hw => hw.graceful) (fun _ _ _ hw hguard h => hw.step hguard h)
    (fun _ _ _ hw h ht => ht.sparesBusy hw h) sound_new

/-! ## Clients that do not pipeline -/

/-- A request comes when the one before it on its socket has been answered. -/
def Waits (w : ShutdownRun) : ShutdownAction → Prop
  | .request s => w.isBusy s = false
  | _ => True

/-- At most one request on a socket is unanswered, and none when the socket is marked as idle. -/
structure Sequential (w : ShutdownRun) : Prop where
  known : ∀ x ∈ w.responses, x.socket < w.sockets.length
  idle : ∀ s, w.isIdle s = true → w.isBusy s = false
  single : ∀ (r r' : ℕ) (x x' : ServerResponse), w.responses[r]? = some x →
    w.responses[r']? = some x' → x.finished = false → x'.finished = false →
    x.socket = x'.socket → r = r'

theorem sequential_new : new.Sequential := by
  constructor <;> simp [new, isIdle]

theorem lt_of_isIdle (hs : w.isIdle s = true) : s < w.sockets.length := by
  obtain ⟨x, hx, -⟩ := (Option.any_eq_true _ _).mp hs
  exact (List.getElem?_eq_some_iff.mp hx).1

theorem Sequential.of_same (hw : w.Sequential) (hresponses : t.responses = w.responses)
    (hlength : t.sockets.length = w.sockets.length) (hidle : ∀ s, t.isIdle s = w.isIdle s) :
    t.Sequential where
  known := by simpa only [hresponses, hlength] using hw.known
  idle s hs := by
    simp only [isBusy, hresponses]
    exact hw.idle s (hidle s ▸ hs)
  single := by simpa only [hresponses] using hw.single

theorem Sequential.connection (hw : w.Sequential) : w.connection.Sequential where
  known x hx := by
    simp only [ShutdownRun.connection, List.length_append, List.length_singleton]
    exact Nat.lt_succ_of_lt (hw.known x hx)
  idle s hs := by
    rw [isIdle, ShutdownRun.connection, any_append] at hs
    rcases Bool.or_eq_true_iff.mp hs with hold | hnew
    · exact hw.idle s hold
    · -- no request has come on a socket that was not there
      simp only [Bool.and_true, decide_eq_true_eq] at hnew
      rw [← Bool.not_eq_true, isBusy_iff]
      rintro ⟨r, x, hr, hx, -⟩
      exact Nat.ne_of_lt (hw.known x (List.mem_of_getElem? hr)) (hx.trans hnew)
  single := hw.single

theorem Sequential.request (hw : w.Sequential) (hs : s < w.sockets.length)
    (hfree : w.isBusy s = false) : (w.request s).Sequential where
  known x hx := by
    rw [ShutdownRun.request, length_sockets_setIdle]
    rcases List.mem_append.mp hx with hold | hnew
    · exact hw.known x hold
    · obtain rfl := List.mem_singleton.mp hnew
      exact hs
  idle s' hs' := by
    have hlt : s' < w.sockets.length := by simpa [ShutdownRun.request] using lt_of_isIdle hs'
    rw [ShutdownRun.request, isIdle_setIdle _ (by exact hlt)] at hs'
    split_ifs at hs' with heq
    simpa [isBusy_request, heq] using hw.idle s' hs'
  single r r' x x' hr hr' hx hx' hsame := by
    have hnot : ∀ (k : ℕ) (y : ServerResponse), w.responses[k]? = some y →
        y.finished = false → y.socket ≠ s := by
      intro k y hk hy hsocket
      exact Bool.false_ne_true (hfree.symm.trans (isBusy_iff.mpr ⟨k, y, hk, hsocket, hy⟩))
    rcases Numbered.getElem?_append_singleton hr with hold | ⟨rfl, rfl⟩ <;>
      rcases Numbered.getElem?_append_singleton hr' with hold' | ⟨rfl, rfl⟩
    · exact hw.single r r' x x' hold hold' hx hx' hsame
    · exact absurd hsame (hnot r x hold hx)
    · exact absurd hsame.symm (hnot r' x' hold' hx')
    · rfl

theorem Sequential.answer (hw : w.Sequential) {r : ℕ} {response : ServerResponse}
    (hr : w.responses[r]? = some response) (hopen : response.finished = false) :
    (w.answer r response).Sequential where
  known x hx := by
    rw [ShutdownRun.answer, length_sockets_setIdle]
    rcases List.mem_or_eq_of_mem_set hx with hold | rfl
    · exact hw.known x hold
    · exact hw.known response (List.mem_of_getElem? hr)
  idle s hs := by
    refine (isBusy_answer hr s).mpr fun r' hne other hother hsocket => ?_
    by_contra hunfinished
    have hother' := Bool.eq_false_iff.mpr hunfinished
    have hlt : s < w.sockets.length := by simpa [ShutdownRun.answer] using lt_of_isIdle hs
    rw [ShutdownRun.answer, isIdle_setIdle _ (by exact hlt)] at hs
    split_ifs at hs with heq
    · exact hne (hw.single r' r other response hother hr hother' hopen (hsocket.trans heq.symm))
    · have hbusy := isBusy_iff.mpr ⟨r', other, hother, hsocket, hother'⟩
      exact Bool.false_ne_true ((hw.idle s hs).symm.trans hbusy)
  single k k' x x' hk hk' hx hx' hsame := by
    have hlt := (List.getElem?_eq_some_iff.mp hr).1
    have hold : ∀ (j : ℕ) (y : ServerResponse), (w.answer r response).responses[j]? = some y →
        y.finished = false → w.responses[j]? = some y := by
      intro j y hj hy
      by_cases hne : j = r
      · subst hne
        obtain rfl := Option.some.inj ((List.getElem?_set_self hlt).symm.trans hj)
        cases hy
      · exact (List.getElem?_set_ne (Ne.symm hne)).symm.trans hj
    exact hw.single k k' x x' (hold k x hk hx) (hold k' x' hk' hx') hx hx' hsame

theorem Sequential.step (hw : w.Sequential) (hsound : w.Sound) (hwaits : w.Waits a)
    (h : w.step a = some t) : t.Sequential := by
  cases a with
  | connection =>
    obtain ⟨-, h⟩ := Option.ite_none_right_eq_some.mp h
    exact Option.some.inj h ▸ hw.connection
  | request s =>
    obtain ⟨hs, h⟩ := Option.ite_none_right_eq_some.mp h
    obtain ⟨x, hx, -⟩ := (Option.any_eq_true _ _).mp hs
    exact Option.some.inj h ▸ hw.request (List.getElem?_eq_some_iff.mp hx).1 hwaits
  | finish r =>
    simp only [ShutdownRun.step] at h
    split at h
    · rename_i response hr
      obtain ⟨hopen, h⟩ := Option.ite_none_left_eq_some.mp h
      have hanswer := hw.answer hr (Bool.eq_false_iff.mpr hopen)
      obtain rfl := Option.some.inj h
      simp only [ShutdownRun.finish]
      split_ifs
      · exact hanswer.of_same destroy_responses length_sockets_destroy isIdle_destroy
      · exact hanswer
    · cases h
  | close s =>
    simp only [ShutdownRun.step] at h
    split at h
    · rename_i socket hs
      obtain ⟨-, h⟩ := Option.ite_none_left_eq_some.mp h
      exact Option.some.inj h ▸ hw.of_same rfl (by simp [ShutdownRun.close]) (isIdle_close hs)
    · cases h
  | stop =>
    obtain ⟨-, h⟩ := Option.ite_none_right_eq_some.mp h
    obtain rfl := Option.some.inj h
    have hloop := destroysIdle { w with
      stop := .waiting, handler := { w.handler with stopping := true } } _ hsound.tracked
    exact hw.of_same hloop.responses hloop.length hloop.idle
  | serverCloses =>
    obtain ⟨-, h⟩ := Option.ite_none_right_eq_some.mp h
    exact Option.some.inj h ▸ hw.of_same rfl rfl fun _ => rfl

theorem Sequential.sparesBusy (hw : w.Sequential) (h : w.step a = some t) : w.SparesBusy a := by
  cases a with
  | connection | request s | close s | serverCloses => trivial
  | finish r =>
    intro _ response hr _ r' hne other hother hsocket
    simp only [ShutdownRun.step, Option.mem_def.mp hr] at h
    obtain ⟨hopen, -⟩ := Option.ite_none_left_eq_some.mp h
    by_contra hunfinished
    exact hne (hw.single r' r other response hother hr (Bool.eq_false_iff.mpr hunfinished)
      (Bool.eq_false_iff.mpr hopen) hsocket)
  | stop => exact fun s _ hidle _ => hw.idle s hidle

/-- Every run without pipelined requests is graceful. -/
theorem graceful_of_waits {as : List ShutdownAction}
    (h : Along step (fun w a _ => w.Waits a) new as) : Throughout step Graceful new as :=
  throughout_of_along (I := fun w => w.Sound ∧ w.Sequential) (fun _ hw => hw.1.graceful)
    (fun _ _ _ ⟨hsound, hw⟩ hwaits hstep =>
      ⟨hsound.step (hw.sparesBusy hstep) hstep, hw.step hsound hwaits hstep⟩)
    ⟨sound_new, sequential_new⟩ h

/-- Two requests on one socket, of which the first is answered when `stop` is called. -/
theorem not_graceful : ¬∀ as, Throughout step Graceful new as := by
  intro h
  obtain ⟨t, hrun, d, hd, hbusy⟩ : ∃ t, run step new
      [.connection, .request 0, .request 0, .finish 0, .stop] = some t ∧
      ∃ d ∈ t.destroys, d.busy = true :=
    exists_of_run (by decide)
  have hspared := (throughout_iff.mp (h _) _ t List.prefix_rfl hrun).spared d hd
  exact Bool.false_ne_true (hspared.symm.trans hbusy)

end ShutdownRun

end DwnServer
