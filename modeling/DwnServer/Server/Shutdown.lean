import DwnServer.Server.Lifecycle

/-!
# Graceful shutdown

`HttpApi.close` waits until every connection has ended, WebSockets included, but only
`WsApi.close`, which comes after it, makes WebSockets end. So `stop` gets to its end exactly
if it finds no WebSocket open until then.
-/
namespace DwnServer

open Transition

namespace Lifecycle

/-- The states that a step can lead to. -/
inductive Moves (w : Lifecycle) : Lifecycle → Prop
  | connects (h : w.listening = true) :
      Moves w { w with connections := w.connections ++ [⟨0, true, false, false⟩] }
  | changes {c : ℕ} {connection changed : TcpConnection} (hc : w.connections[c]? = some connection)
      (webSocket : connection.webSocket = true → changed.webSocket = true)
      (closing : changed.closing = connection.closing) :
      Moves w { w with connections := w.connections.set c changed }
  | ends {c : ℕ} {connection : TcpConnection} (hc : w.connections[c]? = some connection)
      (h : connection.webSocket = false ∨ connection.closing = true ∨ w.stage = .stoppingHandler) :
      Moves w { w with connections := w.connections.eraseIdx c }
  | starts (h : w.stage = .stopped) : Moves w { w with stage := .started, listening := true }
  | stops (h : w.stage = .started) : Moves w { w with stage := .closingDwn }
  | closesHttpApi (h : w.stage = .closingDwn) :
      Moves w { w with stage := .closingHttpApi, listening := false }
  | closesWsApi (h : w.stage = .closingHttpApi) (hdrained : w.connections = []) :
      Moves w w.closeWsApi
  | stopsHandler (h : w.stage = .closingHttpApi ∧ w.connections = [] ∨ w.stage = .closingWsApi) :
      Moves w w.stopHandler
  | finishes (h : w.stage = .stoppingHandler) (hdrained : w.connections = []) :
      Moves w { w with stage := .stopped }

variable {w t : Lifecycle} {a : LifecycleAction}

theorem update_eq_some {c : ℕ} {enabled : TcpConnection → Bool}
    {change : TcpConnection → TcpConnection} (h : w.update c enabled change = some t) :
    ∃ connection, w.connections[c]? = some connection ∧ enabled connection = true ∧
      t = { w with connections := w.connections.set c (change connection) } := by
  unfold update at h
  split at h
  · rename_i connection hc
    split_ifs at h with henabled
    exact ⟨connection, hc, henabled, (Option.some.inj h).symm⟩
  · cases h

theorem ends_eq_some {c : ℕ} {enabled : TcpConnection → Bool} (h : w.ends c enabled = some t) :
    ∃ connection, w.connections[c]? = some connection ∧ enabled connection = true ∧
      t = { w with connections := w.connections.eraseIdx c } := by
  unfold ends at h
  split at h
  · rename_i connection hc
    split_ifs at h with henabled
    exact ⟨connection, hc, henabled, (Option.some.inj h).symm⟩
  · cases h

theorem moves (h : w.step a = some t) : w.Moves t := by
  cases a with
  | start =>
    obtain ⟨hstage, h⟩ := Option.ite_none_right_eq_some.mp h
    exact Option.some.inj h ▸ .starts hstage
  | connect =>
    obtain ⟨hlistening, h⟩ := Option.ite_none_right_eq_some.mp h
    exact Option.some.inj h ▸ .connects hlistening
  | request c =>
    obtain ⟨connection, hc, -, rfl⟩ := update_eq_some h
    exact .changes hc id rfl
  | finish c =>
    simp only [step] at h
    split_ifs at h with hstage
    · obtain ⟨connection, hc, -, rfl⟩ := ends_eq_some h
      exact .ends hc (Or.inr (Or.inr hstage))
    · obtain ⟨connection, hc, -, rfl⟩ := update_eq_some h
      exact .changes hc id rfl
  | upgrade c =>
    obtain ⟨-, h⟩ := Option.ite_none_right_eq_some.mp h
    obtain ⟨connection, hc, -, rfl⟩ := update_eq_some h
    exact .changes hc (fun _ => rfl) rfl
  | stop =>
    obtain ⟨hstage, h⟩ := Option.ite_none_right_eq_some.mp h
    exact Option.some.inj h ▸ .stops hstage
  | dwnCloses =>
    obtain ⟨hstage, h⟩ := Option.ite_none_right_eq_some.mp h
    exact Option.some.inj h ▸ .closesHttpApi hstage
  | idleEnds c =>
    obtain ⟨-, h⟩ := Option.ite_none_left_eq_some.mp h
    obtain ⟨connection, hc, hidle, rfl⟩ := ends_eq_some h
    exact .ends hc (Or.inl (by simpa using (Bool.and_eq_true_iff.mp hidle).1))
  | httpServerCloses =>
    obtain ⟨hstage, h⟩ := Option.ite_none_right_eq_some.mp h
    obtain ⟨hstage, hdrained⟩ : w.stage = .closingHttpApi ∧ w.connections = [] := by
      simpa using hstage
    split_ifs at h
    · exact Option.some.inj h ▸ .closesWsApi hstage hdrained
    · exact Option.some.inj h ▸ .stopsHandler (Or.inl ⟨hstage, hdrained⟩)
  | closeAllSettles =>
    obtain ⟨hstage, h⟩ := Option.ite_none_right_eq_some.mp h
    exact Option.some.inj h ▸ .stopsHandler (Or.inr hstage)
  | webSocketEnds c =>
    obtain ⟨connection, hc, hclosing, rfl⟩ := ends_eq_some h
    exact .ends hc (Or.inr (Or.inl hclosing))
  | handlerCallsBack =>
    obtain ⟨hstage, h⟩ := Option.ite_none_right_eq_some.mp h
    obtain ⟨hstage, hdrained⟩ : w.stage = .stoppingHandler ∧ w.connections = [] := by
      simpa using hstage
    exact Option.some.inj h ▸ .finishes hstage hdrained

/-! ## What every step keeps -/

structure Sound (w : Lifecycle) : Prop where
  listening : w.listening = true → w.stage = .started ∨ w.stage = .closingDwn
  /-- Once `HttpApi.close` is done, there are no connections. -/
  drained : w.stage.beforeWsApi = false → w.connections = []
  /-- No close frame is sent before. -/
  unclosed : ∀ c ∈ w.connections, c.closing = false

theorem sound_new (webSocketSupport : Bool) : (new webSocketSupport).Sound :=
  ⟨nofun, fun _ => rfl, by simp [new]⟩

theorem Sound.step (hw : w.Sound) (h : w.step a = some t) : t.Sound := by
  cases moves h with
  | connects hlistening =>
    refine ⟨hw.listening, fun hstage => ?_, fun c hc => ?_⟩
    · rcases hw.listening hlistening with h | h <;> simp [ServerStage.beforeWsApi, h] at hstage
    · rcases List.mem_append.mp hc with hold | hnew
      · exact hw.unclosed c hold
      · obtain rfl := List.mem_singleton.mp hnew
        rfl
  | changes hc _ hclosing =>
    refine ⟨hw.listening, fun hstage => ?_, fun c' hc' => ?_⟩
    · rw [hw.drained hstage] at hc
      cases hc
    · rcases List.mem_or_eq_of_mem_set hc' with hold | rfl
      · exact hw.unclosed c' hold
      · rw [hclosing]
        exact hw.unclosed _ (List.mem_of_getElem? hc)
  | ends hc _ =>
    refine ⟨hw.listening, fun hstage => ?_,
      fun c' hc' => hw.unclosed c' (List.mem_of_mem_eraseIdx hc')⟩
    rw [hw.drained hstage] at hc
    cases hc
  | starts hstage => exact ⟨fun _ => Or.inl rfl, nofun, hw.unclosed⟩
  | stops hstage => exact ⟨fun _ => Or.inr rfl, nofun, hw.unclosed⟩
  | closesHttpApi hstage => exact ⟨nofun, nofun, hw.unclosed⟩
  | closesWsApi hstage hdrained =>
    have hclosed : w.closeWsApi.connections = [] := by simp [closeWsApi, hdrained]
    refine ⟨fun hlistening => ?_, fun _ => hclosed, by simp [hclosed]⟩
    rcases hw.listening hlistening with h | h <;> cases hstage.symm.trans h
  | stopsHandler hstage =>
    have hdrained : w.connections = [] := by
      rcases hstage with ⟨-, hdrained⟩ | hstage
      · exact hdrained
      · exact hw.drained (by rw [hstage]; rfl)
    have hstopped : w.stopHandler.connections = [] := by simp [stopHandler, hdrained]
    refine ⟨fun hlistening => ?_, fun _ => hstopped, by simp [hstopped]⟩
    rcases hw.listening hlistening with h | h <;> rcases hstage with ⟨hstage, -⟩ | hstage <;>
      cases hstage.symm.trans h
  | finishes hstage hdrained =>
    refine ⟨fun hlistening => ?_, fun _ => hdrained, hw.unclosed⟩
    rcases hw.listening hlistening with h | h <;> cases hstage.symm.trans h

/-! ## A WebSocket that is open too early -/

/-- A WebSocket is open, and `stop` has not come to the WebSocket server. -/
def Blocked (w : Lifecycle) : Prop :=
  (w.stage = .closingDwn ∨ w.stage = .closingHttpApi) ∧
    ∃ c ∈ w.connections, c.webSocket = true ∧ c.closing = false

/-- Nothing that can happen ends the WebSocket or the wait. -/
theorem Blocked.step (hw : w.Blocked) (h : w.step a = some t) : t.Blocked := by
  obtain ⟨hstage, c, hc, hwebSocket, hclosing⟩ := hw
  obtain ⟨n, hn⟩ := List.mem_iff_getElem?.mp hc
  cases moves h with
  | connects => exact ⟨hstage, c, List.mem_append_left _ hc, hwebSocket, hclosing⟩
  | @changes i connection changed hi hwebSocket' hclosing' =>
    by_cases hni : i = n
    · obtain rfl : connection = c := Option.some.inj (hi.symm.trans (hni ▸ hn))
      obtain ⟨hlt, -⟩ := List.getElem?_eq_some_iff.mp hi
      exact ⟨hstage, changed, List.mem_set hlt _, hwebSocket' hwebSocket, hclosing'.trans hclosing⟩
    · refine ⟨hstage, c, List.mem_iff_getElem?.mpr ⟨n, ?_⟩, hwebSocket, hclosing⟩
      rw [List.getElem?_set_ne hni, hn]
  | @ends i connection hi hended =>
    have hni : i ≠ n := by
      rintro rfl
      obtain rfl : connection = c := Option.some.inj (hi.symm.trans hn)
      rcases hstage with h | h <;> simp [hwebSocket, hclosing, h] at hended
    exact ⟨hstage, c, List.mem_eraseIdx_iff_getElem?.mpr ⟨n, hni.symm, hn⟩, hwebSocket, hclosing⟩
  | starts hother => rcases hstage with hstage | hstage <;> cases hother.symm.trans hstage
  | stops hother => rcases hstage with hstage | hstage <;> cases hother.symm.trans hstage
  | closesHttpApi => exact ⟨Or.inr rfl, c, hc, hwebSocket, hclosing⟩
  | closesWsApi _ hdrained => simp [hdrained] at hc
  | stopsHandler hother =>
    rcases hother with ⟨-, hdrained⟩ | hother
    · simp [hdrained] at hc
    · rcases hstage with hstage | hstage <;> cases hother.symm.trans hstage
  | finishes hother => rcases hstage with hstage | hstage <;> cases hother.symm.trans hstage

/-! ## The way to the end -/

/-- Node ends idle plain connections one after the other. -/
theorem run_idleEnds (hlistening : w.listening = false)
    (hplain : ∀ c ∈ w.connections, c.webSocket = false ∧ c.outstanding = 0) :
    run step w (List.replicate w.connections.length (.idleEnds 0)) =
      some { w with connections := [] } := by
  induction hconnections : w.connections generalizing w with
  | nil =>
    rw [List.length_nil, List.replicate_zero, run_nil, ← hconnections]
  | cons c rest ih =>
    have hc := hplain c (by simp [hconnections])
    have hstep : w.step (.idleEnds 0) = some { w with connections := rest } := by
      simp [step, hlistening, ends, hconnections, hc.1, hc.2]
    rw [List.length_cons, List.replicate_succ, run_cons, hstep]
    exact ih (w := { w with connections := rest }) hlistening
      (fun c' hc' => hplain c' (by simp [hconnections, hc'])) rfl

/-- Once there are no connections, `stop` goes through what is left of it. -/
theorem exists_run_of_drained (hdrained : w.connections = []) (hstage : w.stage.isStopping = true) :
    ∃ as t, run step w as = some t ∧ t.stage = .stopped ∧ ∀ a ∈ as, a.external = false := by
  obtain ⟨webSocketSupport, stage, listening, connections⟩ := w
  obtain rfl : connections = [] := hdrained
  cases stage with
  | stopped | started => cases hstage
  | closingDwn =>
    cases webSocketSupport
    · exact ⟨[.dwnCloses, .httpServerCloses, .handlerCallsBack], _, rfl, rfl, by decide⟩
    · exact ⟨[.dwnCloses, .httpServerCloses, .closeAllSettles, .handlerCallsBack], _, rfl, rfl,
        by decide⟩
  | closingHttpApi =>
    cases webSocketSupport
    · exact ⟨[.httpServerCloses, .handlerCallsBack], _, rfl, rfl, by decide⟩
    · exact ⟨[.httpServerCloses, .closeAllSettles, .handlerCallsBack], _, rfl, rfl, by decide⟩
  | closingWsApi => exact ⟨[.closeAllSettles, .handlerCallsBack], _, rfl, rfl, by decide⟩
  | stoppingHandler => exact ⟨[.handlerCallsBack], _, rfl, rfl, by decide⟩

theorem exists_run_to_stopped (hw : w.Sound) (hstage : w.stage.isStopping = true)
    (hanswered : ∀ c ∈ w.connections, c.outstanding = 0)
    (hplain : w.stage.beforeWsApi = true → ∀ c ∈ w.connections, c.webSocket = false) :
    ∃ as t, run step w as = some t ∧ t.stage = .stopped ∧ ∀ a ∈ as, a.external = false := by
  have hdrain (u : Lifecycle) (hu : u.stage = .closingHttpApi) (hlistening : u.listening = false)
      (hplain : ∀ c ∈ u.connections, c.webSocket = false ∧ c.outstanding = 0) :
      ∃ as t, run step u as = some t ∧ t.stage = .stopped ∧ ∀ a ∈ as, a.external = false := by
    obtain ⟨as, t, hrun, hstopped, has⟩ :=
      exists_run_of_drained (w := { u with connections := [] }) rfl (by rw [hu]; rfl)
    refine ⟨List.replicate u.connections.length (.idleEnds 0) ++ as, t, ?_, hstopped,
      fun a ha => ?_⟩
    · rw [run_append, run_idleEnds hlistening hplain]
      exact hrun
    · rcases List.mem_append.mp ha with hidle | hrest
      · rw [List.eq_of_mem_replicate hidle]
        rfl
      · exact has a hrest
  cases hs : w.stage with
  | stopped | started => simp [hs, ServerStage.isStopping] at hstage
  | closingDwn =>
    have hconnections := fun c hc => And.intro (hplain (by rw [hs]; rfl) c hc) (hanswered c hc)
    obtain ⟨as, t, hrun, hstopped, has⟩ :=
      hdrain { w with stage := .closingHttpApi, listening := false } rfl rfl hconnections
    refine ⟨.dwnCloses :: as, t, ?_, hstopped, List.forall_mem_cons.mpr ⟨rfl, has⟩⟩
    simpa [step, hs] using hrun
  | closingHttpApi =>
    have hlistening : w.listening = false := by
      by_contra hlistening
      rcases hw.listening (by simpa using hlistening) with h | h <;> cases hs.symm.trans h
    exact hdrain w hs hlistening fun c hc => ⟨hplain (by rw [hs]; rfl) c hc, hanswered c hc⟩
  | closingWsApi | stoppingHandler =>
    exact exists_run_of_drained (hw.drained (by rw [hs]; rfl)) hstage

/-- Once `stop` was called and all requests are answered, the server can go on to Stopped by
itself exactly if no WebSocket is open until `HttpApi.close` is done. -/
theorem canStop_iff {webSocketSupport : Bool} {as : List LifecycleAction}
    (hrun : run step (new webSocketSupport) as = some w) (hstage : w.stage.isStopping = true)
    (hanswered : ∀ c ∈ w.connections, c.outstanding = 0) :
    (∃ bs t, run step w bs = some t ∧ t.stage = .stopped ∧ ∀ b ∈ bs, b.external = false) ↔
      (w.stage.beforeWsApi = true → ∀ c ∈ w.connections, c.webSocket = false) := by
  have hw : w.Sound := run_invariant (fun _ _ _ hw h => hw.step h) (sound_new webSocketSupport) hrun
  refine ⟨?_, exists_run_to_stopped hw hstage hanswered⟩
  rintro ⟨bs, t, hbs, hstopped, -⟩ hbefore c hc
  by_contra hwebSocket
  have hblocked : w.Blocked := by
    refine ⟨?_, c, hc, by simpa using hwebSocket, hw.unclosed c hc⟩
    cases hs : w.stage <;>
      simp [hs, ServerStage.isStopping, ServerStage.beforeWsApi] at hstage hbefore ⊢
  have ht : t.Blocked := run_invariant (fun _ _ _ hw h => hw.step h) hblocked hbs
  rcases ht.1 with h | h <;> cases h.symm.trans hstopped

/-! ## A client of the HTTP API, and one of the WebSocket API -/

/-- An answered client of the HTTP API does not keep `stop` from its end. -/
theorem canStop_httpClient :
    ∃ w, run step (new true) [.start, .connect, .request 0, .stop, .finish 0, .dwnCloses] = some w ∧
      ∃ bs t, run step w bs = some t ∧ t.stage = .stopped ∧ ∀ b ∈ bs, b.external = false := by
  have hrun : run step (new true) [.start, .connect, .request 0, .stop, .finish 0, .dwnCloses] =
      some _ := rfl
  exact ⟨_, hrun, (canStop_iff hrun rfl (by decide)).mpr (by decide)⟩

/-- One open WebSocket keeps `stop` waiting for ever. -/
theorem not_canStop : ¬∀ (webSocketSupport : Bool) (as : List LifecycleAction) (w : Lifecycle),
    run step (new webSocketSupport) as = some w → w.stage.isStopping = true →
    (∀ c ∈ w.connections, c.outstanding = 0) →
    ∃ bs t, run step w bs = some t ∧ t.stage = .stopped := by
  intro h
  obtain ⟨bs, t, hbs, hstopped⟩ :=
    h true [.start, .connect, .upgrade 0, .stop] _ rfl rfl (by decide)
  have ht : t.Blocked := run_invariant (fun _ _ _ hw h => hw.step h)
    ⟨Or.inl rfl, ⟨0, true, true, false⟩, by decide⟩ hbs
  rcases ht.1 with h | h <;> cases h.symm.trans hstopped

end Lifecycle

end DwnServer
