import DwnServer.Server.ServerRun

/-!
# Calls of `start` and `stop` that overlap

The state of the server changes at the end of both methods. A call that overlaps another one goes
ahead, then, and does what the other one is doing: a second server is set up, or the same one is
closed a second time. SIGINT and SIGTERM are enough for that.
-/
namespace DwnServer

open Transition Numbered

/-- A call that waits for the set-up of the server. -/
def ServerCall.isSetup : ServerCall → Bool
  | .start .resolved | .start .rejected | .stop _ => false
  | .start _ => true

/-- How many waits there are to the end of `stop`, at most. -/
def StopStage.rank : StopStage → ℕ
  | .closingDwn => 4
  | .closingHttpApi _ => 3
  | .closingWsApi => 2
  | .stoppingHandler => 1
  | .resolved | .rejected => 0

namespace ServerRun

/-- A set-up is the only one, and the server is not started before it is through. What was created
is released at most once, and all of it has been when the server is stopped and no call is left.
No `stop` is rejected, and each can get to its end. -/
structure SetUpOnce (w : ServerRun) : Prop where
  setup : ∀ (i j : ℕ) (call call' : ServerCall),
    w.calls[i]? = some call → w.calls[j]? = some call' →
    call.isSetup = true → call'.isSetup = true → i = j
  stopped : ∀ call ∈ w.calls, call.isSetup = true → w.serverState = .stopped
  dwns : ∀ d ∈ w.dwns, d.closes ≤ 1
  httpApis : ∀ api ∈ w.httpApis, api.closes ≤ 1
  handlers : ∀ removed ∈ w.handlers, removed ≤ 1
  released : w.serverState = .stopped → (∀ call ∈ w.calls, call.settled = true) →
    (∀ d ∈ w.dwns, d.tenantGate ≠ none → d.closes = 1) ∧
      (∀ api ∈ w.httpApis, api.listening = false ∧ api.closes = 1) ∧
      ∀ removed ∈ w.handlers, removed = 1
  resolved : ∀ i stage, w.calls[i]? = some (.stop stage) →
    ∃ n t, run step w (List.replicate n (.settles i true)) = some t ∧
      t.calls[i]? = some (.stop .resolved)

/-- Where something may fail: not in `stop`, and not when there is a DWN that the server has
created and not closed. -/
def MayFail (w : ServerRun) : Option ServerCall → Prop
  | some (.stop _) => False
  | some (.start (.creatingHttpApi dwn _)) =>
    ∀ d ∈ w.dwns[dwn]?, d.tenantGate ≠ none → d.closes = 1
  | _ => True

/-- A stopped server is started when it is not being set up, and a started one is stopped when its
DWN was not closed. Things fail only where they may. -/
def Apart (w : ServerRun) : ServerAction → Prop
  | .start => w.serverState = .stopped → ∀ call ∈ w.calls, call.isSetup = false
  | .stop => w.serverState = .started → ∀ d ∈ w.dwn.bind (w.dwns[·]?), d.closes = 0
  | .settles i ok => ok = false → w.MayFail w.calls[i]?
  | .portTaken _ => True

/-! ## One call at a time -/

/-- `current` waits, and all other calls have settled, `stop` without an error. -/
structure Alone (calls : List ServerCall) (current : Option (ℕ × ServerCall)) : Prop where
  others : ∀ j call, calls[j]? = some call →
    current = some (j, call) ∨ call.settled = true ∧ call ≠ .stop .rejected
  waits : ∀ i call, current = some (i, call) → calls[i]? = some call ∧ call.settled = false

section Alone

variable {calls : List ServerCall} {i : ℕ} {call call' : ServerCall}
  {current : Option (ℕ × ServerCall)}

theorem Alone.append_settled (h : Alone calls current) (hcall : call.settled = true)
    (hok : call ≠ .stop .rejected) : Alone (calls ++ [call]) current where
  others := by
    intro j call' hj
    rcases getElem?_append_singleton hj with hold | ⟨-, rfl⟩
    · exact h.others j call' hold
    · exact Or.inr ⟨hcall, hok⟩
  waits := by
    intro i c hcurrent
    obtain ⟨hi, hc⟩ := h.waits i c hcurrent
    exact ⟨(List.getElem?_append_left (List.getElem?_eq_some_iff.mp hi).1).trans hi, hc⟩

theorem Alone.append (h : Alone calls none) (hcall : call.settled = false) :
    Alone (calls ++ [call]) (some (calls.length, call)) where
  others := by
    intro j call' hj
    rcases getElem?_append_singleton hj with hold | ⟨rfl, rfl⟩
    · exact Or.inr ((h.others j call' hold).resolve_left nofun)
    · exact Or.inl rfl
  waits := by
    rintro i c hcurrent
    cases hcurrent
    exact ⟨List.getElem?_concat_length, hcall⟩

theorem Alone.others_set (h : Alone calls (some (i, call))) {j : ℕ} {c : ServerCall}
    (hj : (calls.set i call')[j]? = some c) :
    j = i ∧ c = call' ∨ c.settled = true ∧ c ≠ .stop .rejected := by
  by_cases hji : j = i
  · subst hji
    have hlt := (List.getElem?_eq_some_iff.mp (h.waits j call rfl).1).1
    exact Or.inl ⟨rfl, Option.some.inj (hj.symm.trans (List.getElem?_set_self hlt))⟩
  · rw [List.getElem?_set_ne (Ne.symm hji)] at hj
    refine Or.inr ((h.others j c hj).resolve_left fun heq => ?_)
    cases heq
    exact hji rfl

theorem Alone.set (h : Alone calls (some (i, call))) (hcall : call'.settled = false) :
    Alone (calls.set i call') (some (i, call')) where
  others := by
    intro j c hj
    rcases h.others_set hj with ⟨rfl, rfl⟩ | hsettled
    · exact Or.inl rfl
    · exact Or.inr hsettled
  waits := by
    rintro j c hcurrent
    cases hcurrent
    exact ⟨List.getElem?_set_self (List.getElem?_eq_some_iff.mp (h.waits i call rfl).1).1, hcall⟩

theorem Alone.set_settled (h : Alone calls (some (i, call))) (hcall : call'.settled = true)
    (hok : call' ≠ .stop .rejected) : Alone (calls.set i call') none where
  others := by
    intro j c hj
    rcases h.others_set hj with ⟨-, rfl⟩ | hsettled
    · exact Or.inr ⟨hcall, hok⟩
    · exact Or.inr hsettled
  waits := nofun

end Alone

/-! ## What a call has done so far -/

/-- The HTTP server `a` listens, and all others are closed. -/
def Listens (w : ServerRun) : Prop :=
  ∃ a api, w.httpApi = some a ∧ w.httpApis[a]? = some api ∧ api.listening = true ∧ api.closes = 0 ∧
    ∀ j api, w.httpApis[j]? = some api → j ≠ a → api.listening = false ∧ api.closes = 1

def Closed (w : ServerRun) : Prop := ∀ api ∈ w.httpApis, api.listening = false ∧ api.closes = 1

/-- The latest process handlers are in place, and all others are removed. -/
def Installed (w : ServerRun) : Prop :=
  ∃ h, w.processHandlers = some h ∧ w.handlers[h]? = some 0 ∧
    ∀ j removed, w.handlers[j]? = some removed → j ≠ h → removed = 1

def Removed (w : ServerRun) : Prop := ∀ removed ∈ w.handlers, removed = 1

/-- The server is started and `stop` has not come to the HTTP API. -/
def Up (w : ServerRun) : Prop :=
  w.serverState = .started ∧ w.dwn ≠ none ∧ w.Listens ∧ w.Installed ∧
    w.httpServerShutdownHandler ≠ none

/-- `stop` has closed the DWN and the HTTP API. -/
def Down (w : ServerRun) : Prop :=
  w.serverState = .started ∧ w.dwn ≠ none ∧ (∀ d ∈ w.dwns, d.closes = 1) ∧ w.Closed ∧
    w.Installed ∧ w.httpServerShutdownHandler ≠ none

/-- What goes with the call that waits. -/
def Fits (w : ServerRun) : Option ServerCall → Prop
  | none => w.Up ∨ w.serverState = .stopped ∧ w.Closed ∧ w.Removed ∧
      ∀ d ∈ w.dwns, d.tenantGate ≠ none → d.closes = 1
  | some (.start .creatingDwn) => w.serverState = .stopped ∧ w.Closed ∧ w.Removed ∧ w.dwn = none
  | some (.start (.creatingHttpApi dwn _)) =>
    w.serverState = .stopped ∧ w.Closed ∧ w.Removed ∧ w.dwn = some dwn
  | some (.start .listening) => w.serverState = .stopped ∧ w.Listens ∧ w.Removed ∧ w.dwn ≠ none
  | some (.start .setUp) => w.serverState = .stopped ∧ w.Listens ∧ w.Removed ∧ w.dwn ≠ none ∧
      w.httpServerShutdownHandler ≠ none
  | some (.start .portTaken) =>
    w.serverState = .stopped ∧ (∀ api ∈ w.httpApis, api.closes ≤ 1) ∧ w.Removed
  | some (.stop .closingDwn) => w.Up ∧ ∀ d ∈ w.dwns, d.closes = 1
  | some (.stop (.closingHttpApi true)) | some (.stop .closingWsApi)
  | some (.stop .stoppingHandler) => w.Down
  | _ => False

/-- What calls keep that do not get in the way of each other. There is one DWN at most. -/
structure Sound (w : ServerRun) : Prop where
  dwns : (w.dwn = none ∧ w.dwns = []) ∨ ∃ d, w.dwn = some 0 ∧ w.dwns = [d] ∧ d.closes ≤ 1
  current : ∃ current, Alone w.calls current ∧ w.Fits (current.map Prod.snd)

variable {w t : ServerRun} {i : ℕ} {ok : Bool}

theorem sound_new (config : DwnServerConfig) (injected : Bool) : (new config injected).Sound where
  dwns := by cases injected <;> simp [new]
  current := ⟨none, ⟨nofun, nofun⟩, Or.inr ⟨rfl, nofun, nofun, by cases injected <;> simp [new]⟩⟩

theorem Listens.closes_le (h : w.Listens) : ∀ api ∈ w.httpApis, api.closes ≤ 1 := by
  obtain ⟨a, api, -, ha, -, hcloses, hothers⟩ := h
  intro api' hapi'
  obtain ⟨j, hj⟩ := List.mem_iff_getElem?.mp hapi'
  by_cases hja : j = a
  · obtain rfl := Option.some.inj (ha.symm.trans (hja ▸ hj))
    omega
  · exact (hothers j api' hj hja).2.le

theorem Installed.removed_le (h : w.Installed) : ∀ removed ∈ w.handlers, removed ≤ 1 := by
  obtain ⟨n, -, hn, hothers⟩ := h
  intro removed hremoved
  obtain ⟨j, hj⟩ := List.mem_iff_getElem?.mp hremoved
  by_cases hjn : j = n
  · obtain rfl := Option.some.inj (hn.symm.trans (hjn ▸ hj))
    omega
  · exact (hothers j removed hj hjn).le

/-- The only server that listens is closed. -/
theorem Listens.close {a : ℕ} (h : w.Listens) (ha : w.httpApi = some a) :
    (w.closeHttpServer a).Closed ∧ w.isListening a = true := by
  obtain ⟨a', api, ha', hapi, hlistening, hcloses, hothers⟩ := h
  obtain rfl := Option.some.inj (ha.symm.trans ha')
  refine ⟨forall_modify hothers fun api' hapi' => ?_, by simp [isListening, hapi, hlistening]⟩
  obtain rfl := Option.some.inj (hapi.symm.trans hapi')
  simp [HttpApi.closeServer, hlistening, hcloses]

/-- Closing a server once more does nothing. -/
theorem Closed.close (h : w.Closed) (a : ℕ) : (w.closeHttpServer a).Closed := by
  refine forall_modify (fun j api hj _ => h api (List.mem_of_getElem? hj)) fun api hapi => ?_
  obtain ⟨hlistening, hcloses⟩ := h api (List.mem_of_getElem? hapi)
  simp [HttpApi.closeServer, hlistening, hcloses]

/-! ## From one wait to the next -/

theorem Sound.of_dwns (hw : w.Sound) (hdwn : t.dwn = w.dwn) (hdwns : t.dwns = w.dwns)
    {current : Option (ℕ × ServerCall)} (halone : Alone t.calls current)
    (hfits : t.Fits (current.map Prod.snd)) : t.Sound where
  dwns := by
    rw [hdwn, hdwns]
    exact hw.dwns
  current := ⟨current, halone, hfits⟩

theorem Sound.stopShutdownHandler {call : ServerCall} (hw : w.Sound)
    (halone : Alone w.calls (some (i, call))) (hdown : w.Down) :
    (w.stopShutdownHandler i).Sound ∧
      (w.stopShutdownHandler i).calls[i]? = some (.stop .stoppingHandler) := by
  obtain ⟨hstate, hdwn, hdwns, hclosed, hinstalled, hhandler⟩ := hdown
  obtain ⟨b, hb⟩ := Option.ne_none_iff_exists'.mp hhandler
  simp only [ServerRun.stopShutdownHandler, hb]
  exact ⟨hw.of_dwns rfl rfl (halone.set rfl)
    ⟨hstate, hdwn, hdwns, hclosed.close b, hinstalled, hhandler⟩,
    stage_of_set (halone.waits i call rfl).1 rfl⟩

/-- A `stop` that is alone gets nearer to its end. -/
theorem Sound.stopSettles {stage : StopStage} (hw : w.Sound)
    (halone : Alone w.calls (some (i, .stop stage))) (hfits : w.Fits (some (.stop stage))) :
    ∃ t, w.stopSettles i true stage = some t ∧ t.Sound ∧
      ∃ stage', t.calls[i]? = some (.stop stage') ∧ stage'.rank < stage.rank := by
  have hi := (halone.waits i _ rfl).1
  cases stage with
  | closingDwn =>
    obtain ⟨⟨hstate, hdwn, hlistens, hinstalled, hhandler⟩, hdwns⟩ := hfits
    obtain ⟨a, ha⟩ : ∃ a, w.httpApi = some a := ⟨_, hlistens.choose_spec.choose_spec.1⟩
    obtain ⟨hclosed, hlistening⟩ := hlistens.close ha
    refine ⟨_, rfl, ?_⟩
    simp only [if_true, closeHttpApi, ha, hlistening]
    exact ⟨hw.of_dwns rfl rfl (halone.set rfl)
      ⟨hstate, hdwn, hdwns, hclosed, hinstalled, hhandler⟩, _, stage_of_set hi rfl, by decide⟩
  | closingHttpApi listened =>
    cases listened with
    | false => exact hfits.elim
    | true =>
      refine ⟨_, rfl, ?_⟩
      simp only [Bool.not_true, Bool.false_eq_true, if_false]
      split
      · exact ⟨hw.of_dwns rfl rfl (halone.set rfl) hfits, _, stage_of_set hi rfl, by decide⟩
      · obtain ⟨hsound, hstage⟩ := hw.stopShutdownHandler halone hfits
        exact ⟨hsound, _, hstage, by decide⟩
  | closingWsApi =>
    obtain ⟨hsound, hstage⟩ := hw.stopShutdownHandler halone hfits
    exact ⟨_, rfl, hsound, _, hstage, by decide⟩
  | stoppingHandler =>
    obtain ⟨-, -, hdwns, hclosed, ⟨n, hn, hzero, hothers⟩, -⟩ := hfits
    refine ⟨_, rfl, ?_⟩
    simp only [removeProcessHandlers, hn]
    refine ⟨hw.of_dwns rfl rfl (halone.set_settled rfl nofun)
      (Or.inr ⟨rfl, hclosed, forall_modify hothers fun removed hremoved => ?_,
        fun d hd _ => hdwns d hd⟩), _, stage_of_set hi rfl, by decide⟩
    obtain rfl := Option.some.inj (hzero.symm.trans hremoved)
    rfl
  | resolved | rejected => exact hfits.elim

/-- A set-up that is alone goes on, or fails with nothing left open. -/
theorem Sound.startSettles {stage : StartStage} (hw : w.Sound)
    (halone : Alone w.calls (some (i, .start stage))) (hfits : w.Fits (some (.start stage)))
    (hguard : w.Apart (.settles i ok)) (h : w.startSettles i ok stage = some t) : t.Sound := by
  have hi := (halone.waits i _ rfl).1
  cases stage with
  | creatingDwn =>
    obtain ⟨hstate, hclosed, hremoved, hdwn⟩ := hfits
    have hdwns : w.dwns = [] := by
      rcases hw.dwns with ⟨-, hdwns⟩ | ⟨d, hsome, -⟩
      · exact hdwns
      · cases hdwn.symm.trans hsome
    obtain rfl := Option.some.inj h
    cases ok with
    | false =>
      exact hw.of_dwns rfl rfl (halone.set_settled rfl nofun)
        (Or.inr ⟨hstate, hclosed, hremoved, by simp [setCall, hdwns]⟩)
    | true =>
      refine ⟨Or.inr ⟨⟨some i, 0⟩, ?_, ?_, Nat.zero_le _⟩, _, halone.set rfl,
        hstate, hclosed, hremoved, rfl⟩
      · simp [createDwn, setCall, hdwns]
      · simp [createDwn, setCall, hdwns]
  | creatingHttpApi dwn registrationManager =>
    obtain ⟨hstate, hclosed, hremoved, hdwn⟩ := hfits
    obtain rfl := Option.some.inj h
    cases ok with
    | false =>
      refine hw.of_dwns rfl rfl (halone.set_settled rfl nofun)
        (Or.inr ⟨hstate, hclosed, hremoved, fun d hd hcreated => ?_⟩)
      have hd' : w.dwns[dwn]? = some d := by
        rcases hw.dwns with ⟨hnone, -⟩ | ⟨d', hsome, hdwns, -⟩
        · cases hdwn.symm.trans hnone
        · obtain rfl := Option.some.inj (hdwn.symm.trans hsome)
          obtain rfl := List.mem_singleton.mp (hdwns ▸ hd : d ∈ [d'])
          rw [hdwns]
          rfl
      have hmay := hguard rfl
      rw [hi] at hmay
      exact hmay d hd' hcreated
    | true =>
      have hfree : (w.httpApis.all fun api => !api.listening) = true := by
        simpa using fun api hapi => (hclosed api hapi).1
      simp only [hfree, if_true]
      refine hw.of_dwns rfl rfl (halone.set rfl) ⟨hstate, ?_, hremoved, ?_⟩
      · exact ⟨_, ⟨dwn, registrationManager, true, 0⟩, rfl, List.getElem?_concat_length, rfl, rfl,
          forall_append hclosed _⟩
      · exact Option.ne_none_iff_exists'.mpr ⟨dwn, hdwn⟩
  | listening =>
    obtain ⟨hstate, hlistens, hremoved, hdwn⟩ := hfits
    obtain ⟨rfl, h⟩ := Option.ite_none_right_eq_some.mp h
    obtain rfl := Option.some.inj h
    refine hw.of_dwns rfl rfl (halone.set rfl) ⟨hstate, hlistens, hremoved, hdwn, ?_⟩
    exact Option.ne_none_iff_exists'.mpr ⟨_, hlistens.choose_spec.choose_spec.1⟩
  | setUp =>
    obtain ⟨hstate, hlistens, hremoved, hdwn, hhandler⟩ := hfits
    obtain ⟨rfl, h⟩ := Option.ite_none_right_eq_some.mp h
    obtain rfl := Option.some.inj h
    refine hw.of_dwns rfl rfl (halone.set_settled rfl nofun)
      (Or.inl ⟨rfl, hdwn, hlistens, ?_, hhandler⟩)
    exact ⟨_, rfl, List.getElem?_concat_length, forall_append hremoved _⟩
  | portTaken | resolved | rejected => cases h

/-- The port of a set-up is taken: it does not go on. -/
theorem Sound.portTaken {dwn : ℕ} {registrationManager : Option ℕ} (hw : w.Sound)
    (halone : Alone w.calls (some (i, .start (.creatingHttpApi dwn registrationManager))))
    (hfits : w.Fits (some (.start (.creatingHttpApi dwn registrationManager)))) :
    (w.listen i dwn registrationManager false).Sound := by
  obtain ⟨hstate, hclosed, hremoved, -⟩ := hfits
  refine hw.of_dwns rfl rfl (halone.set rfl) ⟨hstate, fun api hapi => ?_, hremoved⟩
  rcases List.mem_append.mp hapi with hold | hnew
  · exact (hclosed api hold).2.le
  · obtain rfl := List.mem_singleton.mp hnew
    exact Nat.zero_le _

/-- A call that finds nothing to do leaves everything to the one that waits. -/
theorem Sound.begin_settled {call : ServerCall} (hw : w.Sound) (hcall : call.settled = true)
    (hok : call ≠ .stop .rejected) : (w.begin call).Sound := by
  obtain ⟨current, halone, hfits⟩ := hw.current
  refine hw.of_dwns rfl rfl (halone.append_settled hcall hok) ?_
  rcases current with _ | ⟨j, _ | _⟩ <;> exact hfits

/-- A call that waits is the one that the others leave alone. -/
theorem Sound.current_of {call : ServerCall} (hw : w.Sound) (hi : w.calls[i]? = some call)
    (hcall : call.settled = false) : Alone w.calls (some (i, call)) ∧ w.Fits (some call) := by
  obtain ⟨current, halone, hfits⟩ := hw.current
  obtain rfl : current = some (i, call) :=
    (halone.others i call hi).resolve_right fun h => by simp [hcall] at h
  exact ⟨halone, hfits⟩

theorem settled_eq_false_of_isSetup {call : ServerCall} (h : call.isSetup = true) :
    call.settled = false := by
  rcases call with stage | stage <;> cases stage <;>
    simp_all [ServerCall.isSetup, ServerCall.settled]

/-- The server is started or stopped as the call that waits leaves it. -/
theorem Sound.idle_of_stopped (hw : w.Sound) (hstate : w.serverState = .stopped)
    (hsetup : ∀ call ∈ w.calls, call.isSetup = false) :
    Alone w.calls none ∧ w.Fits none := by
  obtain ⟨current, halone, hfits⟩ := hw.current
  rcases current with _ | ⟨j, stage | stage⟩
  · exact ⟨halone, hfits⟩
  · obtain ⟨hj, hstage⟩ := halone.waits j _ rfl
    have := hsetup _ (List.mem_of_getElem? hj)
    cases stage <;> simp_all [ServerCall.isSetup, ServerCall.settled]
  · obtain ⟨hj, hstage⟩ := halone.waits j _ rfl
    cases stage with
    | closingDwn => cases hstate.symm.trans hfits.1.1
    | closingHttpApi listened =>
      cases listened with
      | false => exact hfits.elim
      | true => cases hstate.symm.trans hfits.1
    | closingWsApi | stoppingHandler => cases hstate.symm.trans hfits.1
    | resolved | rejected => exact hfits.elim

theorem Sound.start (hw : w.Sound) (hguard : w.Apart .start) : w.start.Sound := by
  cases hstate : w.serverState with
  | started =>
    simp only [ServerRun.start, hstate]
    exact hw.begin_settled rfl nofun
  | stopped =>
    obtain ⟨halone, hup | ⟨-, hclosed, hremoved, -⟩⟩ := hw.idle_of_stopped hstate (hguard hstate)
    · cases hstate.symm.trans hup.1
    · cases hdwn : w.dwn with
      | none =>
        simp only [ServerRun.start, hstate, hdwn]
        exact hw.of_dwns rfl rfl (halone.append rfl) ⟨hstate, hclosed, hremoved, hdwn⟩
      | some dwn =>
        simp only [ServerRun.start, hstate, hdwn]
        exact hw.of_dwns rfl rfl (halone.append rfl) ⟨hstate, hclosed, hremoved, hdwn⟩

/-- A started server has a DWN, which is closed already when a call waits. -/
theorem Sound.idle_of_started (hw : w.Sound) (hstate : w.serverState = .started) :
    w.dwn ≠ none ∧ ((Alone w.calls none ∧ w.Up) ∨ ∀ d ∈ w.dwns, d.closes = 1) := by
  obtain ⟨current, halone, hfits⟩ := hw.current
  rcases current with _ | ⟨j, stage | stage⟩
  · rcases hfits with hup | ⟨hstopped, -⟩
    · exact ⟨hup.2.1, Or.inl ⟨halone, hup⟩⟩
    · cases hstate.symm.trans hstopped
  · cases stage with
    | resolved | rejected => exact hfits.elim
    | creatingDwn | creatingHttpApi | listening | setUp | portTaken =>
      cases hstate.symm.trans hfits.1
  · cases stage with
    | closingDwn => exact ⟨hfits.1.2.1, Or.inr hfits.2⟩
    | closingHttpApi listened =>
      cases listened with
      | false => exact hfits.elim
      | true => exact ⟨hfits.2.1, Or.inr hfits.2.2.1⟩
    | closingWsApi | stoppingHandler => exact ⟨hfits.2.1, Or.inr hfits.2.2.1⟩
    | resolved | rejected => exact hfits.elim

/-- The DWN of a started server. -/
theorem Sound.dwn_of_started (hw : w.Sound) (hstate : w.serverState = .started) :
    ∃ d, w.dwn = some 0 ∧ w.dwns = [d] ∧ d.closes ≤ 1 :=
  hw.dwns.resolve_left fun ⟨hnone, _⟩ => (hw.idle_of_started hstate).1 hnone

theorem Sound.stop (hw : w.Sound) (hguard : w.Apart .stop) : w.stop.Sound := by
  cases hstate : w.serverState with
  | stopped =>
    simp only [ServerRun.stop, hstate]
    exact hw.begin_settled rfl nofun
  | started =>
    obtain ⟨d, hdwn, hdwns, -⟩ := hw.dwn_of_started hstate
    have hzero : d.closes = 0 := hguard hstate d (by simp [hdwn, hdwns])
    obtain ⟨-, ⟨halone, -, -, hlistens, hinstalled, hhandler⟩ | hone⟩ := hw.idle_of_started hstate
    swap
    · cases hzero.symm.trans (hone d (by simp [hdwns]))
    have hclosed : (w.closeDwn 0).dwns = [{ d with closes := 1 }] := by
      simp [closeDwn, hdwns, hzero]
    simp only [ServerRun.stop, hstate, hdwn]
    refine ⟨Or.inr ⟨_, hdwn, hclosed, le_rfl⟩, _, halone.append rfl,
      ⟨hstate, ?_, hlistens, hinstalled, hhandler⟩, fun d' hd' => ?_⟩
    · exact Option.ne_none_iff_exists'.mpr ⟨0, hdwn⟩
    · obtain rfl := List.mem_singleton.mp (hclosed ▸ hd' : d' ∈ [_])
      rfl

theorem Sound.step {a : ServerAction} (hw : w.Sound) (hguard : w.Apart a)
    (h : w.step a = some t) : t.Sound := by
  cases a with
  | start => exact Option.some.inj h ▸ hw.start hguard
  | stop => exact Option.some.inj h ▸ hw.stop hguard
  | settles i ok =>
    simp only [ServerRun.step] at h
    split at h
    · rename_i stage hi
      cases hstage : (ServerCall.start stage).settled with
      | true => cases stage <;> simp_all [ServerCall.settled, ServerRun.startSettles]
      | false =>
        obtain ⟨halone, hfits⟩ := hw.current_of hi hstage
        exact hw.startSettles halone hfits hguard h
    · rename_i stage hi
      cases hstage : (ServerCall.stop stage).settled with
      | true => cases stage <;> simp_all [ServerCall.settled, ServerRun.stopSettles]
      | false =>
        obtain ⟨halone, hfits⟩ := hw.current_of hi hstage
        cases ok with
        | false =>
          have hmay := hguard rfl
          rw [hi] at hmay
          exact hmay.elim
        | true =>
          obtain ⟨t', ht', hsound, -⟩ := hw.stopSettles halone hfits
          exact Option.some.inj (ht'.symm.trans h) ▸ hsound
    · cases h
  | portTaken i =>
    simp only [ServerRun.step] at h
    split at h
    · rename_i dwn registrationManager hi
      obtain ⟨halone, hfits⟩ := hw.current_of hi rfl
      exact Option.some.inj h ▸ hw.portTaken halone hfits
    · cases h

/-! ## What follows for the server -/

/-- A `stop` gets to its end by what it waits for. -/
theorem Sound.resolves {stage : StopStage} (hw : w.Sound) (hi : w.calls[i]? = some (.stop stage)) :
    ∃ n t, run ServerRun.step w (List.replicate n (.settles i true)) = some t ∧
      t.calls[i]? = some (.stop .resolved) := by
  induction hrank : stage.rank using Nat.strong_induction_on generalizing w stage with
  | _ rank ih =>
    cases hstage : (ServerCall.stop stage).settled with
    | true =>
      obtain ⟨current, halone, -⟩ := hw.current
      cases stage with
      | resolved => exact ⟨0, w, rfl, hi⟩
      | rejected =>
        rcases halone.others i _ hi with rfl | ⟨-, hok⟩
        · cases (halone.waits i _ rfl).2
        · exact absurd rfl hok
      | closingDwn | closingHttpApi | closingWsApi | stoppingHandler => cases hstage
    | false =>
      obtain ⟨halone, hfits⟩ := hw.current_of hi hstage
      obtain ⟨u, hu, hsound, stage', hi', hlt⟩ := hw.stopSettles halone hfits
      obtain ⟨n, t, hrun, ht⟩ := ih _ (hrank ▸ hlt) hsound hi' rfl
      refine ⟨n + 1, t, ?_, ht⟩
      rw [List.replicate_succ, run_cons, ServerRun.step, hi]
      change (w.stopSettles i true stage).bind _ = some t
      rw [hu]
      exact hrun

theorem closes_le_of_fits {current : Option ServerCall} (h : w.Fits current) :
    (∀ api ∈ w.httpApis, api.closes ≤ 1) ∧ ∀ removed ∈ w.handlers, removed ≤ 1 := by
  have closed (h : w.Closed) : ∀ api ∈ w.httpApis, api.closes ≤ 1 :=
    fun api hapi => (h api hapi).2.le
  have removed (h : w.Removed) : ∀ r ∈ w.handlers, r ≤ 1 := fun r hr => (h r hr).le
  rcases current with _ | stage | stage
  · rcases h with ⟨-, -, hlistens, hinstalled, -⟩ | ⟨-, hclosed, hremoved, -⟩
    · exact ⟨hlistens.closes_le, hinstalled.removed_le⟩
    · exact ⟨closed hclosed, removed hremoved⟩
  · cases stage with
    | creatingDwn | creatingHttpApi =>
      obtain ⟨-, hclosed, hremoved, -⟩ := h
      exact ⟨closed hclosed, removed hremoved⟩
    | listening | setUp =>
      obtain ⟨-, hlistens, hremoved, -⟩ := h
      exact ⟨hlistens.closes_le, removed hremoved⟩
    | portTaken => exact ⟨h.2.1, removed h.2.2⟩
    | resolved | rejected => exact h.elim
  · have down (h : w.Down) : (∀ api ∈ w.httpApis, api.closes ≤ 1) ∧ ∀ r ∈ w.handlers, r ≤ 1 := by
      obtain ⟨-, -, -, hclosed, hinstalled, -⟩ := h
      exact ⟨closed hclosed, hinstalled.removed_le⟩
    cases stage with
    | closingDwn =>
      obtain ⟨⟨-, -, hlistens, hinstalled, -⟩, -⟩ := h
      exact ⟨hlistens.closes_le, hinstalled.removed_le⟩
    | closingHttpApi listened =>
      cases listened with
      | false => exact h.elim
      | true => exact down h
    | closingWsApi | stoppingHandler => exact down h
    | resolved | rejected => exact h.elim

theorem stopped_of_fits {call : ServerCall} (h : w.Fits (some call))
    (hsetup : call.isSetup = true) :
    w.serverState = .stopped := by
  rcases call with stage | stage
  · cases stage with
    | resolved | rejected => exact h.elim
    | creatingDwn | creatingHttpApi | listening | setUp | portTaken => exact h.1
  · cases hsetup

theorem Sound.setUpOnce (hw : w.Sound) : w.SetUpOnce := by
  obtain ⟨current, halone, hfits⟩ := hw.current
  have hcurrent {j : ℕ} {call : ServerCall} (hj : w.calls[j]? = some call)
      (hsetup : call.isSetup = true) : current = some (j, call) :=
    (halone.others j call hj).resolve_right fun h => by
      simp [settled_eq_false_of_isSetup hsetup] at h
  refine ⟨?_, ?_, ?_, (closes_le_of_fits hfits).1, (closes_le_of_fits hfits).2, ?_,
    fun i stage hi => hw.resolves hi⟩
  · intro i j call call' hi hj hcall hcall'
    cases (hcurrent hi hcall).symm.trans (hcurrent hj hcall')
    rfl
  · intro call hcall hsetup
    obtain ⟨j, hj⟩ := List.mem_iff_getElem?.mp hcall
    obtain rfl := hcurrent hj hsetup
    exact stopped_of_fits hfits hsetup
  · rcases hw.dwns with ⟨-, hnil⟩ | ⟨d, -, hd, hle⟩
    · simp [hnil]
    · simpa [hd] using hle
  · intro hstopped hsettled
    rcases current with _ | ⟨j, call⟩
    · rcases hfits with hup | ⟨-, hclosed, hremoved, hdwns⟩
      · cases hstopped.symm.trans hup.1
      · exact ⟨hdwns, hclosed, hremoved⟩
    · obtain ⟨hj, hwaits⟩ := halone.waits j call rfl
      simp [hsettled call (List.mem_of_getElem? hj)] at hwaits

/-! ## Calls that get in the way of each other -/

/-- A second set-up. -/
theorem apart_start (h : w.start.SetUpOnce) : w.Apart .start := by
  intro hstate call hcall
  by_contra hsetup
  obtain ⟨i, hi⟩ := List.mem_iff_getElem?.mp hcall
  have hlt := (List.getElem?_eq_some_iff.mp hi).1
  have hsecond (stage : StartStage) (hstart : w.start = w.begin (.start stage))
      (hstage : (ServerCall.start stage).isSetup = true) : False := by
    rw [hstart] at h
    have := h.setup i w.calls.length call (.start stage)
      ((List.getElem?_append_left hlt).trans hi) List.getElem?_concat_length (by simpa using hsetup)
      hstage
    omega
  cases hdwn : w.dwn with
  | none => exact hsecond .creatingDwn (by simp [ServerRun.start, hstate, hdwn]) rfl
  | some dwn =>
    exact hsecond (.creatingHttpApi dwn none) (by simp [ServerRun.start, hstate, hdwn]) rfl

/-- A DWN is closed a second time. -/
theorem apart_stop (hw : w.Sound) (h : w.stop.SetUpOnce) : w.Apart .stop := by
  intro hstate d hd
  obtain ⟨d', hdwn, hdwns, -⟩ := hw.dwn_of_started hstate
  obtain rfl : d' = d := by simpa [hdwn, hdwns] using hd
  simp only [ServerRun.stop, hstate, hdwn] at h
  have hle := h.dwns { d' with closes := d'.closes + 1 } (by simp [begin, closeDwn, hdwns])
  simpa using hle

theorem SetUpOnce.not_rejected (h : w.SetUpOnce) (i : ℕ) :
    w.calls[i]? ≠ some (.stop .rejected) := by
  intro hi
  obtain ⟨n, t, hrun, ht⟩ := h.resolved i _ hi
  cases n with
  | zero =>
    obtain rfl := Option.some.inj hrun
    cases hi.symm.trans ht
  | succ n => simp [List.replicate_succ, ServerRun.step, hi, ServerRun.stopSettles] at hrun

/-- A `stop` fails that waits for something. -/
theorem stopSettles_false {stage : StopStage} (hi : w.calls[i]? = some (.stop stage))
    (h : w.stopSettles i false stage = some t) : t.calls[i]? = some (.stop .rejected) := by
  cases stage with
  | closingDwn | closingWsApi =>
    obtain rfl := Option.some.inj h
    exact stage_of_set hi rfl
  | closingHttpApi listened =>
    obtain ⟨rfl, h⟩ := Option.ite_none_right_eq_some.mp h
    obtain rfl := Option.some.inj h
    exact stage_of_set hi rfl
  | stoppingHandler | resolved | rejected => cases h

theorem mayFail_of_settles (hw : w.Sound) (hstep : w.step (.settles i false) = some t)
    (h : t.SetUpOnce) : w.MayFail w.calls[i]? := by
  simp only [ServerRun.step] at hstep
  split at hstep
  · rename_i stage hi
    rw [hi]
    cases stage with
    | creatingHttpApi dwn registrationManager =>
      intro d hd hcreated
      obtain ⟨halone, hstate, -, -, hdwn⟩ := hw.current_of hi rfl
      obtain rfl := Option.some.inj hstep
      have hsettled : ∀ call ∈ w.calls.set i (.start .rejected), call.settled = true := by
        intro call hcall
        obtain ⟨j, hj⟩ := List.mem_iff_getElem?.mp hcall
        rcases halone.others_set hj with ⟨-, rfl⟩ | ⟨hsettled, -⟩
        · rfl
        · exact hsettled
      exact (h.released hstate hsettled).1 d (List.mem_of_getElem? hd) hcreated
    | creatingDwn | listening | portTaken | setUp | resolved | rejected => trivial
  · rename_i stage hi
    exact absurd (stopSettles_false hi hstep) (h.not_rejected i)
  · cases hstep

/-- Every set-up and every release happens once, exactly if no call gets in the way of another. -/
theorem setUpOnce_iff {config : DwnServerConfig} {injected : Bool} {as : List ServerAction} :
    Throughout ServerRun.step SetUpOnce (new config injected) as ↔
      Along ServerRun.step (fun w a _ => w.Apart a) (new config injected) as := by
  refine throughout_iff_along (fun _ => Sound.setUpOnce) (fun _ _ _ hw hguard => hw.step hguard) ?_
    (sound_new config injected)
  intro w a t hw hstep h
  cases a with
  | start => exact apart_start (Option.some.inj hstep ▸ h)
  | stop => exact apart_stop hw (Option.some.inj hstep ▸ h)
  | settles i ok =>
    rintro rfl
    exact mayFail_of_settles hw hstep h
  | portTaken i => trivial

/-! ## SIGINT and SIGTERM at once -/

/-- Both handlers call `stop`, and the second call finds the HTTP server closed. -/
theorem not_setUpOnce : ¬∀ (config : DwnServerConfig) (injected : Bool) (as : List ServerAction),
    Throughout ServerRun.step SetUpOnce (new config injected) as := by
  intro h
  obtain ⟨t, hrun, hrejected⟩ : ∃ t, run ServerRun.step (new .withStore false)
      [.start, .settles 0 true, .settles 0 true, .settles 0 true, .settles 0 true, .stop, .stop,
        .settles 1 true, .settles 2 true, .settles 2 false] = some t ∧
      t.calls[2]? = some (.stop .rejected) := exists_of_run (by decide +kernel)
  exact (throughout_iff.mp (h .withStore false _) _ t List.prefix_rfl hrun).not_rejected 2 hrejected

end ServerRun

end DwnServer
