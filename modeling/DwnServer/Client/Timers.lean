import DwnServer.Client.Subscriptions
import DwnServer.Library.Numbered

/-!
# The timers of a client

The timer of `connect` calls nothing, so `connect` is settled by the `open` and `error` events of
the socket alone. The timer of a request rejects it, and `subscribe` and the function that it
returns settle after their request.
-/
namespace DwnServer

open Transition

/-- The promises of `connect` and of the function that closes a subscription. -/
inductive ClientSettlement where
  | resolved
  | rejected
  deriving DecidableEq

/-- A call of the function that `subscribe` returns, with the number of its request. -/
structure ClientClose where
  request : ℕ
  outcome : Option ClientSettlement
  deriving DecidableEq

/-- A call of `connect` and what is done with the socket that it resolves to; `connectTimer` is
whether the timer of `connect` has still to fire. -/
structure JsonRpcClient where
  connected : Option ClientSettlement
  connectTimer : Bool
  socket : JsonRpcSocket
  closes : List ClientClose
  deriving DecidableEq

/-- The first three are the events of the `WebSocket`, where `throws` is whether the `onerror` of
the options throws, and `closeSettles` is a call of the closing function after its wait. -/
inductive ClientEvent where
  | opened
  | errored (throws : Bool)
  | closed
  | connectTimeout
  | socket (a : ClientAction)
  | closeSettles (close : ℕ)

/-- What the promise of a request was settled to. -/
def JsonRpcSocket.awaited (w : JsonRpcSocket) (i : ℕ) : Option RequestSettlement :=
  w.requests[i]?.bind (·.settlement)

/-- What the promise of a call of `subscribe` was settled to. -/
def JsonRpcSocket.outcome (w : JsonRpcSocket) (s : ℕ) : Option SubscribeOutcome :=
  w.subscriptions[s]?.bind (·.outcome)

/-- An `await` passes on what it waits for. -/
def RequestSettlement.passedOn : RequestSettlement → ClientSettlement
  | .resolved _ => .resolved
  | .timedOut | .threw => .rejected

namespace JsonRpcClient

open JsonRpcSocket (new)

/-- `valid` is whether `new WebSocket` takes the URL; if it throws there is no timer. -/
def connect (valid : Bool) : JsonRpcClient :=
  if valid then ⟨none, true, new, []⟩ else ⟨some .rejected, false, new, []⟩

def settleConnect (w : JsonRpcClient) (settlement : ClientSettlement) : JsonRpcClient :=
  { w with connected := some (w.connected.getD settlement) }

/-- Calls are made on the socket that `connect` resolves to. -/
def allows (w : JsonRpcClient) : ClientAction → Bool
  | .request .. | .subscribe .. => w.connected = some .resolved
  | _ => true

/-- The calls of a closing function, after one more action. -/
def afterAction (w : JsonRpcClient) : ClientAction → List ClientClose
  | .close _ _ => w.closes ++ [⟨w.socket.requests.length, none⟩]
  | _ => w.closes

def settleClose (w : JsonRpcClient) (k : ℕ) (settlement : ClientSettlement) : JsonRpcClient :=
  { w with closes := w.closes.modify k fun c => { c with outcome := some settlement } }

def step (w : JsonRpcClient) : ClientEvent → Option JsonRpcClient
  | .opened => some (w.settleConnect .resolved)
  -- `onerror` is called before the listener of `connect`
  | .errored throws => if throws then some w else some (w.settleConnect .rejected)
  | .closed => some w
  -- `() => reject` does not call `reject`
  | .connectTimeout => if w.connectTimer then some { w with connectTimer := false } else none
  | .socket a =>
    if w.allows a then
      (w.socket.step a).map fun socket => { w with socket, closes := w.afterAction a }
    else none
  | .closeSettles k =>
    match w.closes[k]? with
    | some ⟨i, none⟩ =>
      (w.socket.awaited i).map fun settlement => w.settleClose k settlement.passedOn
    | _ => none

/-! ## The timers -/

/-- No `subscribe` and no closing function has still to go on after its wait. -/
structure Drained (w : JsonRpcClient) : Prop where
  subscriptions : ∀ sub ∈ w.socket.subscriptions, sub.outcome = none →
    w.socket.awaited sub.request = none
  closes : ∀ close ∈ w.closes, close.outcome = none → w.socket.awaited close.request = none

/-- A `subscribe` or a closing function goes on after its wait. -/
def continues : ClientEvent → Bool
  | .socket (.subscribed _) | .closeSettles _ => true
  | _ => false

/-- A promise whose timer has fired is settled. -/
structure Punctual (w : JsonRpcClient) : Prop where
  connect : w.connectTimer = false → w.connected ≠ none
  requests : ∀ r ∈ w.socket.requests, r.timer = false → r.settlement ≠ none
  subscriptions : w.Drained → ∀ sub ∈ w.socket.subscriptions,
    ∀ r ∈ w.socket.requests[sub.request]?, r.timer = false → sub.outcome ≠ none
  closes : w.Drained → ∀ close ∈ w.closes,
    ∀ r ∈ w.socket.requests[close.request]?, r.timer = false → close.outcome ≠ none

/-- Settled promises stay as they are. -/
structure Settled (w t : JsonRpcClient) : Prop where
  connect : ∀ settlement : ClientSettlement, w.connected = some settlement →
    t.connected = some settlement
  requests : ∀ (i : ℕ) (settlement : RequestSettlement), w.socket.awaited i = some settlement →
    t.socket.awaited i = some settlement
  subscriptions : ∀ (s : ℕ) (outcome : SubscribeOutcome), w.socket.outcome s = some outcome →
    t.socket.outcome s = some outcome
  closes : ∀ (k : ℕ) (close : ClientClose), w.closes[k]? = some close → close.outcome ≠ none →
    t.closes[k]? = some close

/-- The `open` event, or an `error` event that gets past `onerror`. -/
def settlesConnect : ClientEvent → Bool
  | .opened | .errored false => true
  | _ => false

end JsonRpcClient

/-! ## Requests and subscriptions -/

namespace JsonRpcSocket

variable {w t : JsonRpcSocket} {i s : ℕ} {a : ClientAction}

theorem awaited_step {settlement : RequestSettlement} (hw : w.awaited i = some settlement)
    (h : w.step a = some t) : t.awaited i = some settlement := by
  obtain ⟨r, hr, hsettled⟩ := Option.bind_eq_some_iff.mp hw
  have hto : SettledTo (w.listeners.count (.handleResponse i)) w i r.request settlement :=
    ⟨⟨r.timer, by rw [hr, ← hsettled]⟩, le_rfl⟩
  obtain ⟨⟨timer, ht⟩, -⟩ := hto.step h
  exact Option.bind_eq_some_iff.mpr ⟨_, ht, rfl⟩

theorem outcome_of_same (h : t.subscriptions[s]? = w.subscriptions[s]?) :
    t.outcome s = w.outcome s := by
  rw [outcome, outcome, h]

theorem outcome_socketEventListener (w : JsonRpcSocket) (s' : ℕ) (id : JsValue) (frame : Json)
    (sending : Sending) : (w.socketEventListener s' id frame sending).outcome s = w.outcome s := by
  have hdeliver (u : JsonRpcSocket) (hu : u.subscriptions = w.subscriptions) :
      (u.deliver s' frame).outcome s = w.outcome s := by
    simp only [outcome, deliver, hu, List.getElem?_modify]
    cases w.subscriptions[s]? <;> simp
    split_ifs <;> rfl
  unfold socketEventListener
  split_ifs
  · exact hdeliver _ rfl
  · exact hdeliver _ rfl

/-- The outcome of a `subscribe` is set once, when there is none. -/
theorem outcome_step {outcome : SubscribeOutcome} (hw : w.outcome s = some outcome)
    (h : w.step a = some t) : t.outcome s = some outcome := by
  obtain ⟨sub, hsub, houtcome⟩ := Option.bind_eq_some_iff.mp hw
  have hlt := (List.getElem?_eq_some_iff.mp hsub).1
  have hsame (hsubscriptions : t.subscriptions[s]? = w.subscriptions[s]?) :
      t.outcome s = some outcome := (outcome_of_same hsubscriptions).trans hw
  cases stepped_of_step h with
  | request | invalid | close | unreadable | timeout => exact hsame rfl
  | subscribe => exact hsame (List.getElem?_append_left hlt)
  | subscribed s' _ _ settlement hwaiting hnone =>
    have hne : s' ≠ s := by
      rintro rfl
      obtain rfl := Option.some.inj (hwaiting.symm.trans hsub)
      simp [hnone] at houtcome
    exact hsame (subscribed_of_ne hne settlement).1
  | message =>
    refine dispatch_invariant (P := fun w => w.outcome s = some outcome)
      (fun w i _ hw => ?_) (fun w s' id sending hw => ?_) hw
    · exact (outcome_of_same (by rw [handleResponse_subscriptions])).trans hw
    · exact (outcome_socketEventListener w s' id _ sending).trans hw

/-- A request without a timer to come is settled. -/
def Timed (w : JsonRpcSocket) : Prop :=
  ∀ r ∈ w.requests, r.timer = false → r.settlement ≠ none

theorem Timed.request (hw : w.Timed) (request : JsonRpcRequest) (uuid : JsString) (sends : Bool) :
    (w.request request uuid sends).Timed := by
  intro r hr htimer
  rcases List.mem_append.mp hr with hold | hnew
  · exact hw r hold htimer
  · obtain rfl := List.mem_singleton.mp hnew
    obtain rfl : sends = false := htimer
    simp

theorem Timed.modify (hw : w.Timed) {f : ClientRequest → ClientRequest}
    (hf : ∀ r, (f r).settlement ≠ none) (ht : t.requests = w.requests.modify i f) : t.Timed := by
  rw [Timed, ht]
  exact Numbered.forall_modify (fun _ r hr _ => hw r (List.mem_of_getElem? hr)) fun r _ _ => hf r

theorem Timed.step (hw : w.Timed) (h : w.step a = some t) : t.Timed := by
  cases stepped_of_step h with
  | request request uuid sends => exact hw.request request uuid sends
  | invalid | unreadable => exact hw
  | subscribe => exact Timed.request (w := w.addSubscription _) hw _ _ _
  | subscribed s _ _ settlement =>
    obtain ⟨outcome, hstays | hremoved⟩ := w.subscribed_cases s settlement
    · exact hstays ▸ hw
    · exact hremoved ▸ hw
  | close => exact Timed.request (w := w.removeEventListener _) hw _ _ _
  | message =>
    refine dispatch_invariant (P := Timed) (fun w i _ hw => ?_) (fun w s id sending hw => ?_) hw
    · rcases w.handleResponse_cases i _ with hsame | hsettles
      · rwa [hsame]
      · exact hsettles ▸ hw.modify (fun _ => by simp) rfl
    · unfold socketEventListener
      split_ifs
      · exact Timed.request (w := w.removeEventListener _) hw _ _ _
      · exact hw
  | timeout =>
    refine hw.modify (fun _ => ?_) (List.modify_modify_eq ..)
    simp

end JsonRpcSocket

namespace JsonRpcClient

open JsonRpcSocket (new subscribeTo)

variable {valid : Bool} {past : List ClientEvent} {w t : JsonRpcClient} {e : ClientEvent}

theorem step_socket {a : ClientAction} (h : w.step (.socket a) = some t) :
    ∃ socket, w.socket.step a = some socket ∧ t = { w with socket, closes := w.afterAction a } := by
  simp only [step] at h
  split_ifs at h
  obtain ⟨socket, hstep, ht⟩ := Option.map_eq_some_iff.mp h
  exact ⟨socket, hstep, ht.symm⟩

theorem step_closeSettles {k : ℕ} (h : w.step (.closeSettles k) = some t) :
    ∃ i settlement, w.closes[k]? = some ⟨i, none⟩ ∧ t = w.settleClose k settlement := by
  simp only [step] at h
  split at h
  · rename_i i hclose
    obtain ⟨settlement, -, ht⟩ := Option.map_eq_some_iff.mp h
    exact ⟨i, settlement.passedOn, hclose, ht.symm⟩
  · cases h

/-! ## What a settled promise keeps -/

theorem settled_of_socket {a : ClientAction} (h : w.step (.socket a) = some t) : w.Settled t := by
  obtain ⟨socket, hstep, rfl⟩ := step_socket h
  refine ⟨fun _ h => h, fun i settlement hw => JsonRpcSocket.awaited_step hw hstep,
    fun s outcome hw => JsonRpcSocket.outcome_step hw hstep, fun k close hclose _ => ?_⟩
  have hlt := (List.getElem?_eq_some_iff.mp hclose).1
  cases a with
  | close => exact (List.getElem?_append_left hlt).trans hclose
  | request | subscribe | subscribed | message | timeout => exact hclose

theorem settled_of_closeSettles {k : ℕ} (h : w.step (.closeSettles k) = some t) : w.Settled t := by
  obtain ⟨i, settlement, hwaiting, rfl⟩ := step_closeSettles h
  refine ⟨fun _ h => h, fun _ _ h => h, fun _ _ h => h, fun k' close hclose houtcome => ?_⟩
  have hne : k ≠ k' := by
    rintro rfl
    obtain rfl := Option.some.inj (hwaiting.symm.trans hclose)
    exact houtcome rfl
  simpa [settleClose, hne] using hclose

theorem settled_settleConnect (w : JsonRpcClient) (settlement : ClientSettlement) :
    w.Settled (w.settleConnect settlement) :=
  ⟨fun _ h => by simp [settleConnect, h], fun _ _ h => h, fun _ _ h => h, fun _ _ h _ => h⟩

theorem settled_of_step (h : w.step e = some t) : w.Settled t := by
  have hsame {u : JsonRpcClient} (hconnected : u.connected = w.connected)
      (hsocket : u.socket = w.socket) (hcloses : u.closes = w.closes) : w.Settled u :=
    ⟨fun _ h => hconnected.trans h, fun _ _ h => hsocket ▸ h, fun _ _ h => hsocket ▸ h,
      fun _ _ h _ => hcloses ▸ h⟩
  cases e with
  | opened => exact Option.some.inj h ▸ settled_settleConnect w _
  | errored throws =>
    simp only [step] at h
    split_ifs at h
    · exact Option.some.inj h ▸ hsame rfl rfl rfl
    · exact Option.some.inj h ▸ settled_settleConnect w _
  | closed => exact Option.some.inj h ▸ hsame rfl rfl rfl
  | connectTimeout =>
    simp only [step] at h
    split_ifs at h
    exact Option.some.inj h ▸ hsame rfl rfl rfl
  | socket a => exact settled_of_socket h
  | closeSettles k => exact settled_of_closeSettles h

/-! ## What waits goes on -/

/-- How many calls have no outcome. -/
def pending (w : JsonRpcClient) : ℕ :=
  w.socket.subscriptions.countP (·.outcome.isNone) + w.closes.countP (·.outcome.isNone)

theorem countP_subscribed {w : JsonRpcSocket} {s : ℕ} {sub : ClientSubscription}
    (hsub : w.subscriptions[s]? = some sub) (houtcome : sub.outcome = none)
    (settlement : RequestSettlement) :
    (w.subscribed s settlement).subscriptions.countP (·.outcome.isNone) <
      w.subscriptions.countP (·.outcome.isNone) := by
  have hset (u : JsonRpcSocket) (hu : u.subscriptions = w.subscriptions)
      (outcome : SubscribeOutcome) :
      (u.setOutcome s outcome).subscriptions.countP (·.outcome.isNone) <
        w.subscriptions.countP (·.outcome.isNone) := by
    rw [JsonRpcSocket.setOutcome, hu]
    exact Numbered.countP_modify_lt hsub (by simp [houtcome]) rfl
  obtain ⟨outcome, hstays | hremoved⟩ := w.subscribed_cases s settlement
  · exact hstays ▸ hset w rfl outcome
  · exact hremoved ▸ hset _ rfl outcome

/-- While something waits, there is a step that leaves fewer calls without an outcome. -/
theorem exists_continues (hw : ¬w.Drained) :
    ∃ e t, continues e = true ∧ w.step e = some t ∧ t.pending < w.pending := by
  by_cases hsubs : ∀ sub ∈ w.socket.subscriptions, sub.outcome = none →
      w.socket.awaited sub.request = none
  · have hcloses : ¬∀ close ∈ w.closes, close.outcome = none →
        w.socket.awaited close.request = none := fun h => hw ⟨hsubs, h⟩
    push Not at hcloses
    obtain ⟨⟨i, outcome⟩, hmem, rfl, hsettled⟩ := hcloses
    obtain ⟨k, hclose⟩ := List.getElem?_of_mem hmem
    obtain ⟨settlement, hsettled⟩ := Option.ne_none_iff_exists'.mp hsettled
    refine ⟨.closeSettles k, w.settleClose k settlement.passedOn, rfl, ?_, ?_⟩
    · simp [step, hclose, hsettled]
    · exact Nat.add_lt_add_left (Numbered.countP_modify_lt hclose rfl rfl) _
  · push Not at hsubs
    obtain ⟨⟨id, i, delivered, outcome⟩, hmem, rfl, hsettled⟩ := hsubs
    obtain ⟨s, hsub⟩ := List.getElem?_of_mem hmem
    obtain ⟨settlement, hsettled⟩ := Option.ne_none_iff_exists'.mp hsettled
    refine ⟨.socket (.subscribed s), { w with socket := w.socket.subscribed s settlement }, rfl,
      ?_, ?_⟩
    · rw [JsonRpcSocket.awaited] at hsettled
      simp [step, allows, afterAction, JsonRpcSocket.step, hsub, hsettled]
    · exact Nat.add_lt_add_right (countP_subscribed hsub rfl settlement) _

theorem exists_drained (w : JsonRpcClient) :
    ∃ es t, (∀ e ∈ es, continues e = true) ∧ run step w es = some t ∧ t.Drained := by
  induction hn : w.pending using Nat.strong_induction_on generalizing w with
  | h n ih =>
    by_cases hw : w.Drained
    · exact ⟨[], w, by simp, rfl, hw⟩
    · obtain ⟨e, u, he, hstep, hlt⟩ := exists_continues hw
      obtain ⟨es, t, hes, hrun, ht⟩ := ih u.pending (hn ▸ hlt) u rfl
      exact ⟨e :: es, t, List.forall_mem_cons.mpr ⟨he, hes⟩, by simp [hstep, hrun], ht⟩

/-! ## What the events have made of `connect` -/

/-- `connect` and its timer after the events of `past`. -/
structure Connects (valid : Bool) (past : List ClientEvent) (w : JsonRpcClient) : Prop where
  connected : w.connected ≠ none ↔ valid = false ∨ past.any settlesConnect = true
  timer : w.connectTimer = false ↔ valid = false ∨ .connectTimeout ∈ past
  timed : w.socket.Timed

theorem connects_connect (valid : Bool) : Connects valid [] (connect valid) := by
  have htimed : new.Timed := by simp [JsonRpcSocket.Timed, new]
  cases valid with
  | true => exact ⟨by simp [connect], by simp [connect], htimed⟩
  | false => exact ⟨by simp [connect], by simp [connect], htimed⟩

/-- An event that is none of `connect`. -/
theorem Connects.quiet (hw : Connects valid past w) (hsettles : settlesConnect e = false)
    (he : e ≠ .connectTimeout) (hconnected : t.connected = w.connected)
    (htimer : t.connectTimer = w.connectTimer) (htimed : t.socket.Timed) :
    Connects valid (past ++ [e]) t where
  connected := by
    rw [hconnected, hw.connected]
    simp [hsettles]
  timer := by
    rw [htimer, hw.timer]
    simp [Ne.symm he]
  timed := htimed

theorem Connects.settleConnect (hw : Connects valid past w) (hsettles : settlesConnect e = true)
    (he : e ≠ .connectTimeout) (settlement : ClientSettlement) :
    Connects valid (past ++ [e]) (w.settleConnect settlement) where
  connected := by simp [JsonRpcClient.settleConnect, hsettles]
  timer := hw.timer.trans (by simp [Ne.symm he])
  timed := hw.timed

theorem Connects.step (hw : Connects valid past w) (h : w.step e = some t) :
    Connects valid (past ++ [e]) t := by
  cases e with
  | opened => exact Option.some.inj h ▸ hw.settleConnect rfl (by simp) _
  | errored throws =>
    simp only [JsonRpcClient.step] at h
    split_ifs at h with hthrows
    · exact Option.some.inj h ▸ hw.quiet (by rw [hthrows]; rfl) (by simp) rfl rfl hw.timed
    · have hsettles : settlesConnect (.errored throws) = true := by
        rw [Bool.eq_false_of_not_eq_true hthrows]
        rfl
      exact Option.some.inj h ▸ hw.settleConnect hsettles (by simp) _
  | closed => exact Option.some.inj h ▸ hw.quiet rfl (by simp) rfl rfl hw.timed
  | connectTimeout =>
    simp only [JsonRpcClient.step] at h
    split_ifs at h
    obtain rfl := Option.some.inj h
    exact ⟨hw.connected.trans (by simp [settlesConnect]), by simp, hw.timed⟩
  | socket a =>
    obtain ⟨socket, hstep, rfl⟩ := step_socket h
    exact hw.quiet rfl (by simp) rfl rfl (hw.timed.step hstep)
  | closeSettles k =>
    obtain ⟨i, settlement, -, rfl⟩ := step_closeSettles h
    exact hw.quiet rfl (by simp) rfl rfl hw.timed

theorem connects_of_run {es : List ClientEvent} (h : run step (connect valid) es = some w) :
    Connects valid es w := by
  have hrun : Connects valid ([] ++ es) w :=
    run_invariant_of_past (fun _ _ _ _ hw _ h => hw.step h) (fun _ _ => trivial)
      (connects_connect valid) h
  simpa using hrun

/-! ## Every promise -/

theorem Connects.punctual (hw : Connects valid past w)
    (hconnect : w.connectTimer = false → w.connected ≠ none) : w.Punctual := by
  have hawaited {i : ℕ} {r : ClientRequest} (hr : w.socket.requests[i]? = some r)
      (htimer : r.timer = false) : w.socket.awaited i ≠ none := by
    rw [JsonRpcSocket.awaited, hr]
    exact hw.timed r (List.mem_of_getElem? hr) htimer
  exact ⟨hconnect, hw.timed,
    fun hdrained sub hsub r hr htimer hnone =>
      hawaited hr htimer (hdrained.subscriptions sub hsub hnone),
    fun hdrained close hclose r hr htimer hnone =>
      hawaited hr htimer (hdrained.closes close hclose hnone)⟩

/-- In every run, the promise of a call is settled when the timer of the call has fired, and stays
as it was settled, exactly if the timer of `connect` only fires after an `open` event or an `error`
event that gets past `onerror`. -/
theorem punctual_iff_connects {es : List ClientEvent}
    (hrun : run step (connect valid) es = some w) :
    (Throughout step Punctual (connect valid) es ∧
      Along step (fun w _ t => w.Settled t) (connect valid) es) ↔
    ∀ before after, es = before ++ .connectTimeout :: after → before.any settlesConnect = true := by
  constructor
  · rintro ⟨hpunctual, -⟩ before after rfl
    rw [run_append] at hrun
    obtain ⟨u, hu, hrest⟩ := Option.bind_eq_some_iff.mp hrun
    obtain ⟨v, hv, -⟩ := Option.bind_eq_some_iff.mp hrest
    have hfired : run step (connect valid) (before ++ [.connectTimeout]) = some v := by
      simp [run_append, hu, hv]
    have hprefix : before ++ [.connectTimeout] <+: before ++ .connectTimeout :: after :=
      ⟨after, by simp⟩
    have hsettled := (throughout_iff.mp hpunctual _ v hprefix hfired).connect
    have hv' := connects_of_run hfired
    have hu' := connects_of_run hu
    rcases hv'.connected.mp (hsettled (hv'.timer.mpr (Or.inr (by simp)))) with hinvalid | hbefore
    · have hstopped := hu'.timer.mpr (Or.inl hinvalid)
      simp [step, hstopped] at hv
    · simpa [settlesConnect] using hbefore
  · intro hbefore
    have hsettled : Along step (fun w _ t => w.Settled t) (connect valid) es := by
      refine along_of_preserved (I := fun _ => True) (fun _ _ _ _ h => ?_) trivial es
      exact ⟨trivial, settled_of_step h⟩
    refine ⟨throughout_iff.mpr fun bs u hbs hu => ?_, hsettled⟩
    have hconnects := connects_of_run hu
    refine hconnects.punctual fun htimer => hconnects.connected.mpr ?_
    rcases hconnects.timer.mp htimer with hinvalid | hmem
    · exact Or.inl hinvalid
    · obtain ⟨before, after, rfl⟩ := List.append_of_mem hmem
      obtain ⟨rest, rfl⟩ := hbs
      have hsettles := hbefore before (after ++ rest) (by simp)
      exact Or.inr (by rw [List.any_append, hsettles, Bool.true_or])

/-- The socket opens in time and a request to subscribe is not answered in time. -/
def openedInTime : List ClientEvent :=
  [.opened, .socket (.subscribe (subscribeTo 7) [] true), .connectTimeout, .socket (.timeout 0),
    .socket (.subscribed 0)]

theorem punctual_iff_connects_opened : ∃ w, run step (connect true) openedInTime = some w ∧
    Throughout step Punctual (connect true) openedInTime ∧
      Along step (fun w _ t => w.Settled t) (connect true) openedInTime := by
  have hsome : (run step (connect true) openedInTime).isSome = true := by decide +kernel
  obtain ⟨w, hrun⟩ := Option.isSome_iff_exists.mp hsome
  refine ⟨w, hrun, (punctual_iff_connects hrun).mpr fun before after hsplit => ?_⟩
  cases before with
  | nil => cases hsplit
  | cons e before =>
    obtain rfl := (List.cons.inj hsplit).1
    rfl

/-- The server accepts the connection and never answers. -/
theorem not_punctual_unopened : ¬Throughout step Punctual (connect true) [.connectTimeout] := by
  intro h
  have hpunctual := throughout_iff.mp h [.connectTimeout] _ (List.prefix_refl _) rfl
  exact hpunctual.connect rfl rfl

end JsonRpcClient

end DwnServer
