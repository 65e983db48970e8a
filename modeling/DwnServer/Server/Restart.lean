import DwnServer.Server.ServerRun

/-!
# Restarting the server

`stop` closes the DWN and leaves it in its field, and `start` creates a DWN, and a registration
manager with it, only if the field is empty. So a server that is started again serves with a DWN
that is closed and without a registration manager.
-/
namespace DwnServer

open Transition Numbered

/-- A call that has settled before the next one is made, with how each of its waits came out. -/
inductive CompletedCall where
  | start (outcomes : List Bool)
  | stop (outcomes : List Bool)

namespace ServerRun

/-- The action that makes the call, and those that settle what it waits for. -/
def script (w : ServerRun) : CompletedCall → List ServerAction
  | .start outcomes => .start :: outcomes.map (.settles w.calls.length)
  | .stop outcomes => .stop :: outcomes.map (.settles w.calls.length)

def hasSettled (w : ServerRun) (i : ℕ) : Bool := w.calls[i]?.any (·.settled)

def complete : ServerRun → CompletedCall → Option ServerRun :=
  compound step script fun w _ t => t.hasSettled w.calls.length

def namesRegistrationStore (config : DwnServerConfig) : Prop :=
  config.registrationStoreUrl.getD [] ≠ []

instance (config : DwnServerConfig) : Decidable (namesRegistrationStore config) :=
  inferInstanceAs (Decidable (_ ≠ _))

/-- A started server listens, with a DWN that is not closed. If there is a registration store, its
registration manager is the tenant gate of that DWN. -/
def Serves (w : ServerRun) : Prop :=
  w.serverState = .started → ∃ api dwn, w.httpApi.bind (w.httpApis[·]?) = some api ∧
    api.listening = true ∧ w.dwns[api.dwn]? = some dwn ∧ dwn.closes = 0 ∧
    (namesRegistrationStore w.config → ∃ manager,
      api.registrationManager = some manager ∧ dwn.tenantGate = some manager)

/-- A stopped server is started, and nothing fails, only as long as it has no DWN, or one that is
not closed and no registration store. Nothing fails when a started server is stopped. -/
def Restartable (w : ServerRun) : CompletedCall → Prop
  | .start outcomes => w.serverState = .stopped → (∀ ok ∈ outcomes, ok = true) →
      ∀ d ∈ w.dwns, d.closes = 0 ∧ ¬namesRegistrationStore w.config
  | .stop outcomes => w.serverState = .started → ∀ ok ∈ outcomes, ok = true

instance (w : ServerRun) (a : CompletedCall) : Decidable (w.Restartable a) :=
  match a with
  | .start _ => inferInstanceAs (Decidable (_ → _ → _))
  | .stop _ => inferInstanceAs (Decidable (_ → _))

variable {w t : ServerRun} {i : ℕ} {outcomes : List Bool}

/-! ## From one wait to the next -/

/-- A call that waits goes on to settle. -/
theorem settles_next {call : ServerCall} (hi : w.calls[i]? = some call)
    (hcall : call.settled = false) (hrun : run step w (outcomes.map (.settles i)) = some t)
    (hdone : t.hasSettled i = true) : ∃ ok rest u, outcomes = ok :: rest ∧
      w.step (.settles i ok) = some u ∧ run step u (rest.map (.settles i)) = some t := by
  cases outcomes with
  | nil =>
    obtain rfl := Option.some.inj hrun
    simp [hasSettled, hi, hcall] at hdone
  | cons ok rest =>
    obtain ⟨u, hu, hrest⟩ := Option.bind_eq_some_iff.mp hrun
    exact ⟨ok, rest, u, rfl, hu, hrest⟩

/-- A call that has settled does not go on. -/
theorem settles_done {call : ServerCall} (hi : w.calls[i]? = some call)
    (hcall : call.settled = true) (hrun : run step w (outcomes.map (.settles i)) = some t) :
    outcomes = [] ∧ t = w := by
  cases outcomes with
  | nil => exact ⟨rfl, (Option.some.inj hrun).symm⟩
  | cons ok rest =>
    have hnone : w.step (.settles i ok) = none := by
      unfold ServerCall.settled at hcall
      split at hcall <;> simp_all [step, startSettles, stopSettles]
    simp [hnone] at hrun

/-! ## A whole `start` -/

theorem start_from_setUp (hi : w.calls[i]? = some (.start .setUp))
    (hrun : run step w (outcomes.map (.settles i)) = some t) (hdone : t.hasSettled i = true) :
    outcomes = [true] ∧ t = w.setProcessHandlers i := by
  obtain ⟨ok, rest, u, rfl, hu, hrest⟩ := settles_next hi rfl hrun hdone
  simp only [step, hi, startSettles, Option.ite_none_right_eq_some] at hu
  obtain ⟨rfl, hu⟩ := hu
  obtain rfl := Option.some.inj hu
  obtain ⟨rfl, rfl⟩ := settles_done (stage_of_set hi rfl) rfl hrest
  exact ⟨rfl, rfl⟩

theorem start_from_listening (hi : w.calls[i]? = some (.start .listening))
    (hrun : run step w (outcomes.map (.settles i)) = some t) (hdone : t.hasSettled i = true) :
    outcomes = [true, true] ∧ t = (w.finishSetup i).setProcessHandlers i := by
  obtain ⟨ok, rest, u, rfl, hu, hrest⟩ := settles_next hi rfl hrun hdone
  simp only [step, hi, startSettles, Option.ite_none_right_eq_some] at hu
  obtain ⟨rfl, hu⟩ := hu
  obtain rfl := Option.some.inj hu
  obtain ⟨rfl, rfl⟩ := start_from_setUp (stage_of_set hi rfl) hrest hdone
  exact ⟨rfl, rfl⟩

/-- While no server listens, only `HttpApi.create` can fail. -/
theorem start_from_creatingHttpApi {dwn : ℕ} {registrationManager : Option ℕ}
    (hlistening : ∀ api ∈ w.httpApis, api.listening = false)
    (hi : w.calls[i]? = some (.start (.creatingHttpApi dwn registrationManager)))
    (hrun : run step w (outcomes.map (.settles i)) = some t) (hdone : t.hasSettled i = true) :
    (false ∈ outcomes ∧ t = w.setCall i (.start .rejected)) ∨
      ((∀ ok ∈ outcomes, ok = true) ∧
        t = ((w.listen i dwn registrationManager true).finishSetup i).setProcessHandlers i) := by
  obtain ⟨ok, rest, u, rfl, hu, hrest⟩ := settles_next hi rfl hrun hdone
  have hfree : (w.httpApis.all fun api => !api.listening) = true := by simpa using hlistening
  simp only [step, hi, startSettles, hfree, Option.some.injEq] at hu
  cases ok with
  | false =>
    obtain rfl := hu
    obtain ⟨rfl, rfl⟩ := settles_done (stage_of_set hi rfl) rfl hrest
    exact Or.inl ⟨by simp, rfl⟩
  | true =>
    obtain rfl := hu
    obtain ⟨rfl, rfl⟩ := start_from_listening (stage_of_set hi rfl) hrest hdone
    exact Or.inr ⟨by simp, rfl⟩

theorem start_from_creatingDwn (hlistening : ∀ api ∈ w.httpApis, api.listening = false)
    (hi : w.calls[i]? = some (.start .creatingDwn))
    (hrun : run step w (outcomes.map (.settles i)) = some t) (hdone : t.hasSettled i = true) :
    (false ∈ outcomes ∧
        (t = w.setCall i (.start .rejected) ∨ t = (w.createDwn i).setCall i (.start .rejected))) ∨
      ((∀ ok ∈ outcomes, ok = true) ∧
        t = (((w.createDwn i).listen i w.dwns.length (some i) true).finishSetup
          i).setProcessHandlers i) := by
  obtain ⟨ok, rest, u, rfl, hu, hrest⟩ := settles_next hi rfl hrun hdone
  simp only [step, hi, startSettles, Option.some.injEq] at hu
  cases ok with
  | false =>
    obtain rfl := hu
    obtain ⟨rfl, rfl⟩ := settles_done (stage_of_set hi rfl) rfl hrest
    exact Or.inl ⟨by simp, Or.inl rfl⟩
  | true =>
    obtain rfl := hu
    rcases start_from_creatingHttpApi (w := w.createDwn i) hlistening (stage_of_set hi rfl) hrest
      hdone with ⟨hfails, rfl⟩ | ⟨hgoes, rfl⟩
    · exact Or.inl ⟨List.mem_cons_of_mem _ hfails, Or.inr rfl⟩
    · exact Or.inr ⟨List.forall_mem_cons.mpr ⟨rfl, hgoes⟩, rfl⟩

/-- What a `start` that goes through leads to. -/
def servesWith (w : ServerRun) (i dwn : ℕ) (registrationManager : Option ℕ) : ServerRun :=
  ((w.listen i dwn registrationManager true).finishSetup i).setProcessHandlers i

theorem httpApi_servesWith (w : ServerRun) (i dwn : ℕ) (registrationManager : Option ℕ) :
    (w.servesWith i dwn registrationManager).httpApis[w.httpApis.length]? =
      some ⟨dwn, registrationManager, true, 0⟩ :=
  List.getElem?_concat_length

theorem serves_servesWith {dwn : ℕ} {registrationManager : Option ℕ} :
    (w.servesWith i dwn registrationManager).Serves ↔ ∃ d, w.dwns[dwn]? = some d ∧ d.closes = 0 ∧
      (namesRegistrationStore w.config → ∃ manager,
        registrationManager = some manager ∧ d.tenantGate = some manager) := by
  have hcurrent : (w.servesWith i dwn registrationManager).httpApi.bind
      ((w.servesWith i dwn registrationManager).httpApis[·]?) =
        some ⟨dwn, registrationManager, true, 0⟩ :=
    httpApi_servesWith w i dwn registrationManager
  constructor
  · intro h
    obtain ⟨api, d, hapi, -, hd⟩ := h rfl
    obtain rfl := Option.some.inj (hcurrent.symm.trans hapi)
    exact ⟨d, hd⟩
  · rintro ⟨d, hd⟩ -
    exact ⟨_, d, hcurrent, rfl, hd⟩

/-! ## A whole `stop` -/

/-- What `stop` leaves: either something failed and the server is still started, or nothing did and
no server listens. -/
structure Stops (w t : ServerRun) (outcomes : List Bool) : Prop where
  dwn : t.dwn = w.dwn
  dwns : t.dwns = w.dwns
  outcome : (false ∈ outcomes ∧ t.serverState = w.serverState) ∨
    ((∀ ok ∈ outcomes, ok = true) ∧ t.serverState = .stopped ∧
      ∀ api ∈ t.httpApis, api.listening = false)

theorem Stops.cons (h : Stops w t outcomes) : Stops w t (true :: outcomes) where
  dwn := h.dwn
  dwns := h.dwns
  outcome := h.outcome.imp (fun ⟨hfails, ht⟩ => ⟨List.mem_cons_of_mem _ hfails, ht⟩)
    fun ⟨hgoes, ht⟩ => ⟨List.forall_mem_cons.mpr ⟨rfl, hgoes⟩, ht⟩

/-- The calls and the HTTP servers at the beginning do not matter. -/
theorem Stops.of_eq {w' : ServerRun} (h : Stops w' t outcomes) (hdwn : w'.dwn = w.dwn)
    (hdwns : w'.dwns = w.dwns) (hstate : w'.serverState = w.serverState) : Stops w t outcomes where
  dwn := h.dwn.trans hdwn
  dwns := h.dwns.trans hdwns
  outcome := hstate ▸ h.outcome

/-- Closing the only server that may listen. -/
theorem silent_closeHttpServer {a : ℕ} (hothers : ∀ j api, w.httpApis[j]? = some api → j ≠ a →
    api.listening = false) : ∀ api ∈ (w.closeHttpServer a).httpApis, api.listening = false := by
  refine forall_modify hothers fun api _ => ?_
  cases hlistening : api.listening <;> simp [HttpApi.closeServer, hlistening]

theorem stop_rejected {call : ServerCall} (hi : w.calls[i]? = some call)
    (hrun : run step (w.setCall i (.stop .rejected)) (outcomes.map (.settles i)) = some t) :
    Stops w t (false :: outcomes) := by
  obtain ⟨rfl, rfl⟩ := settles_done (stage_of_set hi rfl) rfl hrun
  exact ⟨rfl, rfl, Or.inl ⟨List.mem_singleton_self _, rfl⟩⟩

theorem stop_from_shutdownHandler {a h : ℕ} {call : ServerCall} (hi : w.calls[i]? = some call)
    (hsilent : ∀ api ∈ w.httpApis, api.listening = false)
    (hhandler : w.httpServerShutdownHandler = some a) (hhandlers : w.processHandlers = some h)
    (hrun : run step (w.stopShutdownHandler i) (outcomes.map (.settles i)) = some t)
    (hdone : t.hasSettled i = true) : Stops w t outcomes := by
  rw [stopShutdownHandler, hhandler] at hrun
  have hi' := stage_of_set (t := (w.closeHttpServer a).setCall i (.stop .stoppingHandler)) hi rfl
  obtain ⟨ok, rest, u, rfl, hu, hrest⟩ := settles_next hi' rfl hrun hdone
  simp only [step, hi', stopSettles, Option.ite_none_right_eq_some] at hu
  obtain ⟨rfl, hu⟩ := hu
  obtain rfl := Option.some.inj hu
  have hhandlers' : ((w.closeHttpServer a).setCall i (.stop .stoppingHandler)).processHandlers =
    some h := hhandlers
  rw [removeProcessHandlers, hhandlers'] at hrest
  obtain ⟨rfl, rfl⟩ := settles_done (stage_of_set hi' rfl) rfl hrest
  refine ⟨rfl, rfl, Or.inr ⟨by simp, rfl, silent_closeHttpServer ?_⟩⟩
  exact fun j api hj _ => hsilent api (List.mem_of_getElem? hj)

theorem stop_from_closingHttpApi {a h : ℕ}
    (hi : w.calls[i]? = some (.stop (.closingHttpApi true)))
    (hsilent : ∀ api ∈ w.httpApis, api.listening = false)
    (hhandler : w.httpServerShutdownHandler = some a) (hhandlers : w.processHandlers = some h)
    (hrun : run step w (outcomes.map (.settles i)) = some t) (hdone : t.hasSettled i = true) :
    Stops w t outcomes := by
  obtain ⟨ok, rest, u, rfl, hu, hrest⟩ := settles_next hi rfl hrun hdone
  simp only [step, hi, stopSettles, Option.ite_none_right_eq_some] at hu
  obtain ⟨rfl, hu⟩ := hu
  obtain rfl := Option.some.inj hu
  refine Stops.cons ?_
  simp only [Bool.not_true, Bool.false_eq_true, if_false] at hrest
  split at hrest
  · have hi' := stage_of_set (t := w.setCall i (.stop .closingWsApi)) hi rfl
    obtain ⟨ok, rest, u, rfl, hu, hrest⟩ := settles_next hi' rfl hrest hdone
    simp only [step, hi', stopSettles, Option.some.injEq] at hu
    obtain rfl := hu
    suffices hstops : Stops (w.setCall i (.stop .closingWsApi)) t (ok :: rest) from
      Stops.of_eq hstops rfl rfl rfl
    cases ok with
    | false =>
      simp only [Bool.false_eq_true, if_false] at hrest
      exact stop_rejected hi' hrest
    | true =>
      simp only [if_true] at hrest
      exact (stop_from_shutdownHandler hi' hsilent hhandler hhandlers hrest hdone).cons
  · exact stop_from_shutdownHandler hi hsilent hhandler hhandlers hrest hdone

theorem stop_from_closingDwn {a b h : ℕ} {api : HttpApi}
    (hi : w.calls[i]? = some (.stop .closingDwn)) (hapi : w.httpApi = some a)
    (ha : w.httpApis[a]? = some api) (hlistening : api.listening = true)
    (hothers : ∀ j api, w.httpApis[j]? = some api → j ≠ a → api.listening = false)
    (hhandler : w.httpServerShutdownHandler = some b) (hhandlers : w.processHandlers = some h)
    (hrun : run step w (outcomes.map (.settles i)) = some t) (hdone : t.hasSettled i = true) :
    Stops w t outcomes := by
  obtain ⟨ok, rest, u, rfl, hu, hrest⟩ := settles_next hi rfl hrun hdone
  simp only [step, hi, stopSettles, Option.some.injEq] at hu
  obtain rfl := hu
  cases ok with
  | false => exact stop_rejected hi hrest
  | true =>
    have hlistens : w.isListening a = true := by simp [isListening, ha, hlistening]
    simp only [if_true, closeHttpApi, hapi, hlistens] at hrest
    have hi' := stage_of_set
      (t := (w.closeHttpServer a).setCall i (.stop (.closingHttpApi true))) hi rfl
    have hrest' := stop_from_closingHttpApi hi' (silent_closeHttpServer hothers) hhandler hhandlers
      hrest hdone
    exact Stops.cons (hrest'.of_eq rfl rfl rfl)

/-! ## Between the calls -/

/-- The server that listens, and its DWN. -/
structure Running (w : ServerRun) (a : ℕ) (api : HttpApi) (d : Dwn) : Prop where
  dwns : w.dwns = [d]
  unclosed : d.closes = 0
  httpApi : w.httpApi = some a
  current : w.httpApis[a]? = some api
  listening : api.listening = true
  others : ∀ j api, w.httpApis[j]? = some api → j ≠ a → api.listening = false
  dwn : api.dwn = 0
  manager : namesRegistrationStore w.config → ∃ manager,
    api.registrationManager = some manager ∧ d.tenantGate = some manager
  handler : ∃ b, w.httpServerShutdownHandler = some b
  handlers : ∃ h, w.processHandlers = some h

/-- What holds when every call has settled, as long as the server is restarted with care. -/
structure Settled (w : ServerRun) : Prop where
  dwns : (w.dwn = none ∧ w.dwns = []) ∨ ∃ d, w.dwn = some 0 ∧ w.dwns = [d]
  stopped : w.serverState = .stopped → ∀ api ∈ w.httpApis, api.listening = false
  started : w.serverState = .started → w.dwn = some 0 ∧ ∃ a api d, w.Running a api d

theorem settled_new (config : DwnServerConfig) : (new config false).Settled :=
  ⟨Or.inl ⟨rfl, rfl⟩, fun _ => nofun, nofun⟩

theorem Settled.serves (hw : w.Settled) : w.Serves := by
  intro hstarted
  obtain ⟨-, a, api, d, hrunning⟩ := hw.started hstarted
  refine ⟨api, d, ?_, hrunning.listening, ?_, hrunning.unclosed, hrunning.manager⟩
  · rw [hrunning.httpApi]
    exact hrunning.current
  · rw [hrunning.dwn, hrunning.dwns]
    rfl

/-- A server that was set up is the only one that listens. -/
theorem running_servesWith {manager : Option ℕ} {d : Dwn} (hdwns : w.dwns = [d])
    (hsilent : ∀ api ∈ w.httpApis, api.listening = false)
    (hserves : (w.servesWith i 0 manager).Serves) :
    (w.servesWith i 0 manager).Running w.httpApis.length ⟨0, manager, true, 0⟩ d := by
  obtain ⟨d', hd', hunclosed, hmanager⟩ := serves_servesWith.mp hserves
  obtain rfl : d = d' := by simpa [hdwns] using hd'
  exact ⟨hdwns, hunclosed, rfl, httpApi_servesWith w i 0 manager, rfl, forall_append hsilent _, rfl,
    hmanager, ⟨_, rfl⟩, ⟨_, rfl⟩⟩

/-- A whole `start` of a stopped server fails, or sets up a server with the DWN that there is or
a new one. -/
theorem start_cases (hw : w.Settled) (hstopped : w.serverState = .stopped)
    (h : w.complete (.start outcomes) = some t) :
    (false ∈ outcomes ∧ t.Settled ∧ t.serverState = .stopped) ∨
      ((∀ ok ∈ outcomes, ok = true) ∧ ∃ (u : ServerRun) (manager : Option ℕ) (d : Dwn),
        t = u.servesWith w.calls.length 0 manager ∧
        u.config = w.config ∧ u.dwn = some 0 ∧ u.dwns = [d] ∧ u.httpApis = w.httpApis ∧
        (w.dwns = [d] ∧ manager = none ∨
          w.dwns = [] ∧ d = ⟨manager, 0⟩ ∧ manager = some w.calls.length)) := by
  obtain ⟨hrun, hdone⟩ := compound_eq_some.mp h
  have hrest : run step w.start (outcomes.map (.settles w.calls.length)) = some t := hrun
  have hsilent := hw.stopped hstopped
  rcases hw.dwns with ⟨hdwn, hdwns⟩ | ⟨d, hdwn, hdwns⟩
  · simp only [start, hstopped, hdwn] at hrest
    have hi : (w.begin (.start .creatingDwn)).calls[w.calls.length]? = some (.start .creatingDwn) :=
      List.getElem?_concat_length
    rcases start_from_creatingDwn (w := w.begin _) hsilent hi hrest hdone with
      ⟨hfails, rfl | rfl⟩ | ⟨hgoes, rfl⟩
    · refine Or.inl ⟨hfails, ⟨Or.inl ⟨hdwn, hdwns⟩, fun _ => hsilent, fun hstarted => ?_⟩, hstopped⟩
      cases hstopped.symm.trans hstarted
    · refine Or.inl ⟨hfails, ⟨Or.inr ⟨⟨some w.calls.length, 0⟩, ?_, ?_⟩, fun _ => hsilent,
        fun hstarted => ?_⟩, hstopped⟩
      · simp [createDwn, setCall, begin, hdwns]
      · simp [createDwn, setCall, begin, hdwns]
      · cases hstopped.symm.trans hstarted
    · refine Or.inr ⟨hgoes, (w.begin (.start .creatingDwn)).createDwn w.calls.length,
        some w.calls.length, ⟨some w.calls.length, 0⟩, ?_, rfl, ?_, ?_, rfl,
        Or.inr ⟨hdwns, rfl, rfl⟩⟩
      · simp [servesWith, begin, hdwns]
      · simp [createDwn, setCall, begin, hdwns]
      · simp [createDwn, setCall, begin, hdwns]
  · simp only [start, hstopped, hdwn] at hrest
    have hi : (w.begin (.start (.creatingHttpApi 0 none))).calls[w.calls.length]? =
        some (.start (.creatingHttpApi 0 none)) := List.getElem?_concat_length
    rcases start_from_creatingHttpApi (w := w.begin _) hsilent hi hrest hdone with
      ⟨hfails, rfl⟩ | ⟨hgoes, rfl⟩
    · refine Or.inl ⟨hfails, ⟨Or.inr ⟨d, hdwn, hdwns⟩, fun _ => hsilent, fun hstarted => ?_⟩,
        hstopped⟩
      cases hstopped.symm.trans hstarted
    · exact Or.inr ⟨hgoes, w.begin (.start (.creatingHttpApi 0 none)), none, d, rfl, rfl, hdwn,
        hdwns, rfl, Or.inl ⟨hdwns, rfl⟩⟩

/-- A whole `stop` of a started server closes its DWN. -/
theorem stop_cases (hw : w.Settled) (hstarted : w.serverState = .started)
    (h : w.complete (.stop outcomes) = some t) :
    (false ∈ outcomes ∧ ¬t.Serves) ∨
      ((∀ ok ∈ outcomes, ok = true) ∧ t.Settled ∧ t.serverState = .stopped) := by
  obtain ⟨hrun, hdone⟩ := compound_eq_some.mp h
  have hrest : run step w.stop (outcomes.map (.settles w.calls.length)) = some t := hrun
  obtain ⟨hdwn, a, api, d, hrunning⟩ := hw.started hstarted
  obtain ⟨b, hhandler⟩ := hrunning.handler
  obtain ⟨handlers, hhandlers⟩ := hrunning.handlers
  simp only [stop, hstarted, hdwn] at hrest
  obtain ⟨hdwn', hdwns', houtcome⟩ :=
    stop_from_closingDwn (w := (w.closeDwn 0).begin _) List.getElem?_concat_length hrunning.httpApi
      hrunning.current hrunning.listening hrunning.others hhandler hhandlers hrest hdone
  have hclosed : t.dwns = [{ d with closes := 1 }] := by
    rw [hdwns']
    simp [begin, closeDwn, hrunning.dwns, hrunning.unclosed]
  refine houtcome.imp (fun ⟨hfails, ht⟩ => ⟨hfails, fun hserves => ?_⟩)
    fun ⟨hgoes, ht, hsilent⟩ => ⟨hgoes, ⟨Or.inr ⟨_, hdwn'.trans hdwn, hclosed⟩, fun _ => hsilent,
      fun hstarted => ?_⟩, ht⟩
  · obtain ⟨api, d', -, -, hd', hunclosed, -⟩ := hserves (ht.trans hstarted)
    rw [hclosed] at hd'
    obtain rfl := List.mem_singleton.mp (List.mem_of_getElem? hd')
    cases hunclosed
  · cases ht.symm.trans hstarted

/-- A call that finds nothing to do changes nothing. -/
theorem Settled.begin (hw : w.Settled) (call : ServerCall) : (w.begin call).Settled := by
  refine ⟨hw.dwns, hw.stopped, fun hstarted => ?_⟩
  obtain ⟨hdwn, a, api, d, h⟩ := hw.started hstarted
  exact ⟨hdwn, a, api, d, h.dwns, h.unclosed, h.httpApi, h.current, h.listening, h.others, h.dwn,
    h.manager, h.handler, h.handlers⟩

theorem start_of_started (hstarted : w.serverState = .started)
    (h : w.complete (.start outcomes) = some t) : t = w.begin (.start .resolved) := by
  obtain ⟨hrun, -⟩ := compound_eq_some.mp h
  have hrest : run step w.start (outcomes.map (.settles w.calls.length)) = some t := hrun
  simp only [start, hstarted] at hrest
  exact (settles_done List.getElem?_concat_length rfl hrest).2

theorem stop_of_stopped (hstopped : w.serverState = .stopped)
    (h : w.complete (.stop outcomes) = some t) : t = w.begin (.stop .resolved) := by
  obtain ⟨hrun, -⟩ := compound_eq_some.mp h
  have hrest : run step w.stop (outcomes.map (.settles w.calls.length)) = some t := hrun
  simp only [stop, hstopped] at hrest
  exact (settles_done List.getElem?_concat_length rfl hrest).2

/-- The condition lets a stopped server be set up exactly if it then serves. -/
theorem serves_iff_of_start {u : ServerRun} {manager : Option ℕ} {d : Dwn}
    (hconfig : u.config = w.config) (hdwns : u.dwns = [d])
    (hd : w.dwns = [d] ∧ manager = none ∨
      w.dwns = [] ∧ d = ⟨manager, 0⟩ ∧ manager = some w.calls.length) :
    (u.servesWith i 0 manager).Serves ↔
      ∀ d ∈ w.dwns, d.closes = 0 ∧ ¬namesRegistrationStore w.config := by
  rw [serves_servesWith, hdwns, hconfig]
  rcases hd with ⟨hold, rfl⟩ | ⟨hnew, rfl, rfl⟩
  · simp [hold]
  · simp [hnew]

theorem Settled.complete {a : CompletedCall} (hw : w.Settled) (hguard : w.Restartable a)
    (h : w.complete a = some t) : t.Settled := by
  cases a with
  | start outcomes =>
    cases hstate : w.serverState with
    | started => exact start_of_started hstate h ▸ hw.begin _
    | stopped =>
      rcases start_cases hw hstate h with ⟨-, ht, -⟩ |
        ⟨hgoes, u, manager, d, rfl, hconfig, hdwn, hdwns, hapis, hd⟩
      · exact ht
      · have hserves := (serves_iff_of_start (i := w.calls.length) hconfig hdwns hd).mpr
          (hguard hstate hgoes)
        have hrunning := running_servesWith hdwns (hapis ▸ hw.stopped hstate) hserves
        exact ⟨Or.inr ⟨d, hdwn, hdwns⟩, nofun, fun _ => ⟨hdwn, _, _, d, hrunning⟩⟩
  | stop outcomes =>
    cases hstate : w.serverState with
    | stopped => exact stop_of_stopped hstate h ▸ hw.begin _
    | started =>
      rcases stop_cases hw hstate h with ⟨hfails, -⟩ | ⟨-, ht, -⟩
      · cases hguard hstate _ hfails
      · exact ht

theorem restartable_of_serves {a : CompletedCall} (hw : w.Settled) (h : w.complete a = some t)
    (ht : t.Serves) : w.Restartable a := by
  cases a with
  | start outcomes =>
    intro hstate hall
    rcases start_cases hw hstate h with
      ⟨hfails, -⟩ | ⟨-, u, manager, d, rfl, hconfig, -, hdwns, -, hd⟩
    · cases hall _ hfails
    · exact (serves_iff_of_start hconfig hdwns hd).mp ht
  | stop outcomes =>
    intro hstate
    rcases stop_cases hw hstate h with ⟨-, hfails⟩ | ⟨hgoes, -⟩
    · exact absurd ht hfails
    · exact hgoes

/-- Whenever its calls have settled, a started server serves with an open DWN and its registration
manager, exactly if it is restarted with care. -/
theorem serves_iff_restartable {config : DwnServerConfig} {as : List CompletedCall} :
    Throughout complete Serves (new config false) as ↔
      Along complete (fun w a _ => w.Restartable a) (new config false) as :=
  throughout_iff_along (fun _ => Settled.serves) (fun _ _ _ hw hguard => hw.complete hguard)
    (fun _ _ _ hw h => restartable_of_serves hw h) (settled_new config)

/-! ## Start, stop and start again -/

/-- After the second start it is started, and its DWN is closed. -/
theorem not_serves : ¬∀ (config : DwnServerConfig) (as : List CompletedCall),
    Throughout complete Serves (new config false) as := by
  intro h
  obtain ⟨t, hrun, hstarted, hclosed⟩ : ∃ t, run complete (new .withStore false)
      [.start [true, true, true, true], .stop [true, true, true, true], .start [true, true, true]] =
        some t ∧ t.serverState = .started ∧ ∀ d ∈ t.dwns, d.closes = 1 :=
    exists_of_run (by decide +kernel)
  obtain ⟨_, d, -, -, hd, hunclosed, -⟩ :=
    throughout_iff.mp (h .withStore _) _ t List.prefix_rfl hrun hstarted
  cases hunclosed.symm.trans (hclosed d (List.mem_of_getElem? hd))

end ServerRun

end DwnServer
