import DwnServer.JsonRpc.HandlerRealm
import DwnServer.Library.Transition

/-!
# The table of the router

`JsonRpcRouter` keeps its handlers in an object literal. `on` writes a property of it and `handle`
calls what it reads there, so both go through the prototypes of `{}`: a handler that is registered
under `__proto__` becomes the prototype, and a method that nobody registered finds what the
prototype has under that name. What a function does is a parameter.
-/
namespace DwnServer

open Transition

variable {B : Type} [DecidableEq B]

namespace FunctionRealm

variable (realm : FunctionRealm B)

/-- The object that the constructor of the router makes. -/
def methodHandlers : Ref B := .made 0 0

/-- The heap of a router, and the handler for which `on` last registered each string. -/
structure RouterRun (B : Type) where
  heap : Heap B
  registered : JsString → Option B

/-- `new JsonRpcRouter()`. -/
def newRouter : RouterRun B := ⟨(make realm.emptyObject realm.start).2, fun _ => none⟩

def on (methodName : JsString) (handler : realm.JsonRpcHandler) : Script (Heap B) Unit :=
  realm.set (.object methodHandlers) methodName (.object (.builtin handler.function))

/-- A call of `on`; one that throws registers nothing. -/
def step (w : RouterRun B) (registration : JsString × realm.JsonRpcHandler) :
    Option (RouterRun B) :=
  match realm.on registration.1 registration.2 w.heap with
  | (some (), heap) =>
    some ⟨heap, Function.update w.registered registration.1 (some registration.2.function)⟩
  | (none, heap) => some ⟨heap, w.registered⟩

/-- The functions that `handle` calls, and what it returns or throws. -/
structure Handling (B : Type) where
  calls : List B
  outcome : Eval HandlerResponse

/-- `handler(rpcRequest, context)`, for what the table answers. What a function returns that is
called with the request and no receiver is `call`; what is no function throws. -/
def callHandler (call : B → Json → Eval HandlerResponse) (rpcRequest : Json) :
    Option (Value B) → Handling B
  | some (.object (.builtin function)) =>
    if realm.callable function then ⟨[function], call function rpcRequest⟩
    else ⟨[], .error .engine⟩
  | _ => ⟨[], .error .engine⟩

/-- `JsonRpcRouter.handle`. -/
def handle (call : B → Json → Eval HandlerResponse) (heap : Heap B) (rpcRequest : Json) :
    Handling B :=
  match do (← JsValue.read (some rpcRequest) "method").toText with
  | .error error => ⟨[], .error error⟩
  | .ok method =>
    realm.callHandler call rpcRequest (realm.get (.object methodHandlers) method heap).1

/-- The registered handler runs and answers; without one, nothing runs and the answer is
`MethodNotFound`. -/
def Dispatches (call : B → Json → Eval HandlerResponse) (registered : Option B)
    (rpcRequest : Json) (handling : Handling B) : Prop :=
  match registered with
  | some handler => handling = ⟨[handler], call handler rpcRequest⟩
  | none => handling.calls = [] ∧ ∃ id message, handling.outcome =
      .ok ⟨some (createJsonRpcErrorResponse id .methodNotFound message), .absent⟩

/-! ## What the table holds -/

/-- What registrations keep: the table has the registered handlers as its own properties, but for
the one that is its prototype. -/
structure Holds (w : RouterRun B) : Prop where
  builtins : ∀ b, w.heap.objects (.builtin b) = some (realm.builtins b)
  table : ∃ o, w.heap.objects methodHandlers = some o ∧ o.length = none ∧
    o.fixedPrototype = false ∧
    o.prototype = some (.builtin ((w.registered protoName).getD realm.objectPrototype)) ∧
    ∀ name, o.properties.get? name = if name = protoName then none
      else (w.registered name).map fun handler => .data (.object (.builtin handler)) true true
  callable : ∀ name handler, w.registered name = some handler → realm.callable handler = true
  accessors : w.heap.AccessorsNamed

variable {realm} {w t : RouterRun B}

/-- The built-in objects are searched as at the start of the process. -/
theorem find_builtin {h : Heap B}
    (hbuiltins : ∀ b, h.objects (.builtin b) = some (realm.builtins b)) (fuel : ℕ) (b : B)
    (name : JsString) :
    h.find fuel (.builtin b) name = realm.start.find fuel (.builtin b) name := by
  induction fuel generalizing b with
  | zero => rfl
  | succ fuel ih =>
    have hstart : realm.start.objects (.builtin b) = some (realm.builtins b) := rfl
    rw [Heap.find, Heap.find, hbuiltins, hstart]
    dsimp only
    cases (realm.builtins b).own name with
    | some p => rfl
    | none =>
      cases hparent : (realm.builtins b).prototype with
      | none => rfl
      | some parent =>
        cases parent with
        | builtin b' => exact ih b'
        | made maker index => exact ((realm.closed b).prototype _ hparent).elim

theorem holds_newRouter : realm.Holds realm.newRouter := by
  have hheap : realm.newRouter.heap =
      { realm.start.store methodHandlers realm.emptyObject with made := 1 } := rfl
  exact
    { builtins := fun b => rfl
      table := by
        refine ⟨realm.emptyObject, ?_, rfl, rfl, rfl, fun name => ?_⟩
        · rw [hheap]
          exact Heap.store_self realm.start methodHandlers _
        · split_ifs <;> rfl
      callable := fun _ _ h => by cases h
      accessors := fun r o ho =>
        realm.standard.start.store accessorNamed_emptyObject methodHandlers r o
          (by rwa [hheap] at ho) }

/-- The name `__proto__` finds the accessor, whatever the prototype has become. -/
theorem Holds.lookup_protoName (hw : realm.Holds w) :
    realm.lookup w.heap (.object methodHandlers) protoName = some .protoAccessor := by
  obtain ⟨o, ho, hlength, -, hprototype, hown⟩ := hw.table
  obtain ⟨depth, hdepth⟩ := Nat.exists_eq_succ_of_ne_zero realm.standard.depth_pos.ne'
  have hinherits := realm.inherits ((w.registered protoName).getD realm.objectPrototype) (by
    cases hregistered : w.registered protoName with
    | none => exact Or.inl rfl
    | some handler => exact Or.inr (hw.callable _ _ hregistered))
  rw [hdepth] at hinherits
  rw [Realm.lookup, hdepth, Heap.find]
  simp only [ho, JsObject.own_of_ordinary hlength, hown, if_true, hprototype]
  rw [find_builtin hw.builtins]
  exact hinherits

/-- What is registered stays something that can be called. -/
theorem Holds.callable_update (hw : realm.Holds w) (methodName : JsString)
    (handler : realm.JsonRpcHandler) (name : JsString) (f : B)
    (hf : Function.update w.registered methodName (some handler.function) name = some f) :
    realm.callable f = true := by
  by_cases hname : name = methodName
  · rw [hname, Function.update_self] at hf
    exact Option.some.inj hf ▸ handler.callable
  · rw [Function.update_of_ne hname] at hf
    exact hw.callable name f hf

/-- Registering `__proto__` replaces the prototype, or throws. -/
theorem Holds.step_protoName (hw : realm.Holds w) {handler : realm.JsonRpcHandler}
    (h : realm.step w (protoName, handler) = some t) : realm.Holds t := by
  obtain ⟨o, ho, hlength, hfixed, hprototype, hown⟩ := hw.table
  have hset : realm.on protoName handler w.heap =
      realm.replacePrototype methodHandlers (some (.builtin handler.function)) w.heap := by
    rw [on, Realm.set_object, hw.lookup_protoName]
    rfl
  have hcallable := hw.callable_update protoName handler
  have howns : ∀ name, o.properties.get? name = if name = protoName then none
      else (Function.update w.registered protoName (some handler.function) name).map
        fun handler => .data (.object (.builtin handler)) true true := by
    intro name
    rw [hown]
    split_ifs with hname
    · rfl
    · rw [Function.update_of_ne hname]
  rcases Realm.replacePrototype_cases realm.toRealm ho (some (.builtin handler.function)) with
    ⟨hsame, hrun⟩ | hrun | hrun <;> simp only [step, hset, hrun] at h <;>
    obtain rfl := Option.some.inj h
  · exact ⟨hw.builtins, ⟨o, ho, hlength, hfixed, by simpa using hsame, howns⟩, hcallable,
      hw.accessors⟩
  · exact hw
  · have hnamed : JsObject.AccessorNamed { o with prototype := some (.builtin handler.function) } :=
      hw.accessors _ o ho
    refine ⟨fun b => ?_, ⟨_, Heap.store_self .., hlength, hfixed, by simp, howns⟩, hcallable,
      hw.accessors.store hnamed _⟩
    exact (Heap.store_of_ne fun hb => by cases hb).trans (hw.builtins b)

/-- Registering any other name gives the table a property, or throws. -/
theorem Holds.step_of_ne (hw : realm.Holds w) {methodName : JsString}
    (hname : methodName ≠ protoName) {handler : realm.JsonRpcHandler}
    (h : realm.step w (methodName, handler) = some t) : realm.Holds t := by
  rcases hrun : realm.on methodName handler w.heap with ⟨_ | ⟨⟨⟩⟩, heap⟩ <;>
    simp only [step, hrun] at h <;> obtain rfl := Option.some.inj h
  · rwa [Realm.heap_of_set_none hrun]
  obtain ⟨o, ho, hlength, hfixed, hprototype, hown⟩ := hw.table
  obtain ⟨r, o', o'', hr, ho', hdefine, rfl⟩ := Realm.store_of_set hw.accessors hname hrun
  obtain rfl := Value.object.inj hr
  obtain rfl := Option.some.inj (ho'.symm.trans ho)
  obtain rfl : o'.put methodName (.object (.builtin handler.function)) = o'' := by
    simpa [JsObject.define, hlength] using hdefine
  have henumerable :
      ((o'.properties.get? methodName).map Property.enumerable).getD true = true := by
    rw [hown, if_neg hname]
    cases w.registered methodName <;> rfl
  refine ⟨fun b => ?_, ⟨_, Heap.store_self .., hlength, hfixed, ?_, fun name => ?_⟩,
    hw.callable_update methodName handler,
    hw.accessors.store ((hw.accessors _ _ ho).put methodName _) _⟩
  · exact (Heap.store_of_ne fun hb => by cases hb).trans (hw.builtins b)
  · dsimp only
    rw [Function.update_of_ne hname.symm]
    exact hprototype
  · dsimp only
    rw [JsObject.put, OrderedMap.get?_set, henumerable, hown]
    by_cases hmethod : name = methodName
    · rw [if_pos hmethod, if_neg (hmethod ▸ hname), hmethod, Function.update_self]
      rfl
    · rw [if_neg hmethod, Function.update_of_ne hmethod]

theorem Holds.step (hw : realm.Holds w) {registration : JsString × realm.JsonRpcHandler}
    (h : realm.step w registration = some t) : realm.Holds t := by
  obtain ⟨methodName, handler⟩ := registration
  by_cases hname : methodName = protoName
  · subst hname
    exact hw.step_protoName h
  · exact hw.step_of_ne hname h

/-! ## What `handle` finds -/

/-- A registered string is read back as its handler. -/
theorem Holds.get_registered (hw : realm.Holds w) {method : JsString} {handler : B}
    (hmethod : w.registered method = some handler) :
    (realm.get (.object methodHandlers) method w.heap).1 = some (.object (.builtin handler)) := by
  obtain ⟨o, ho, hlength, -, hprototype, hown⟩ := hw.table
  by_cases hname : method = protoName
  · subst hname
    rw [Realm.get_object, hw.lookup_protoName]
    simp [Realm.valueOf, Realm.prototypeOf, ho, hprototype, hmethod]
  · have howned : o.own method = some (.data (.object (.builtin handler)) true true) := by
      rw [JsObject.own_of_ordinary hlength, hown, if_neg hname, hmethod]
      rfl
    rw [Realm.get_own_data realm.standard.depth_pos ho howned]

section Handle

variable {call : B → Json → Eval HandlerResponse} {rpcRequest : Json} {method : JsString}

theorem callHandler_cases (call : B → Json → Eval HandlerResponse) (rpcRequest : Json)
    (handler : Option (Value B)) :
    (∃ function, handler = some (.object (.builtin function)) ∧ realm.callable function = true ∧
      realm.callHandler call rpcRequest handler = ⟨[function], call function rpcRequest⟩) ∨
    realm.callHandler call rpcRequest handler = ⟨[], .error .engine⟩ := by
  rcases handler with _ | (p | (function | ⟨maker, index⟩))
  case some.object.builtin =>
    by_cases hcallable : realm.callable function = true
    · exact Or.inl ⟨function, rfl, hcallable, by simp [callHandler, hcallable]⟩
    · exact Or.inr (by simp [callHandler, hcallable])
  all_goals exact Or.inr rfl

/-- A method that is a text is looked up under it. -/
theorem handle_of_method (hmethod : rpcRequest.own (js "method") = some (.string method))
    (heap : Heap B) :
    realm.handle call heap rpcRequest =
      realm.callHandler call rpcRequest (realm.get (.object methodHandlers) method heap).1 := by
  have hread : JsValue.read (C := DwnServerErrorCode) (some rpcRequest) "method" =
      .ok (some (.string method)) := by
    simp [JsValue.read_eq, JsValue.isNullish_of_own hmethod, JsValue.readOptional, hmethod]
  rw [handle, hread]
  rfl

/-- After every sequence of registrations and for every method, `handle` does what it should exactly
if the method was registered: another method throws, or a function runs that nobody registered. -/
theorem dispatches_iff {registrations : List (JsString × realm.JsonRpcHandler)}
    (hrun : run realm.step realm.newRouter registrations = some w)
    (call : B → Json → Eval HandlerResponse)
    (hmethod : rpcRequest.own (js "method") = some (.string method)) :
    Dispatches call (w.registered method) rpcRequest (realm.handle call w.heap rpcRequest) ↔
      (w.registered method).isSome := by
  have hw : realm.Holds w :=
    run_invariant (fun _ _ _ hw h => hw.step h) holds_newRouter hrun
  rw [handle_of_method hmethod]
  cases hregistered : w.registered method with
  | some handler =>
    rw [hw.get_registered hregistered]
    simp [Dispatches, callHandler, hw.callable method handler hregistered]
  | none =>
    refine iff_of_false ?_ (by simp)
    rintro ⟨hcalls, id, message, houtcome⟩
    rcases realm.callHandler_cases call rpcRequest
      (realm.get (.object methodHandlers) method w.heap).1 with ⟨_, -, -, hcall⟩ | hthrows
    · rw [hcall] at hcalls
      cases hcalls
    · rw [hthrows] at houtcome
      cases houtcome

end Handle

/-! ## The router of the repository -/

section Handlers

variable {w t : RouterRun ProcessObject}

/-- The heap of a router holds what `JsonRpcRouter` holds, as long as nothing was registered under
`__proto__`. -/
structure Represents (w : RouterRun ProcessObject) (router : JsonRpcRouter Handler) : Prop where
  holds : handlerRealm.Holds w
  registered : ∀ name, w.registered name = (router.methodHandlers.get? name).map .handler
  absent : router.methodHandlers.get? protoName = none
  prototype : router.prototype = none

theorem represents_new : Represents handlerRealm.newRouter .new where
  holds := holds_newRouter
  registered _ := rfl
  absent := rfl
  prototype := rfl

variable {router : JsonRpcRouter Handler} {name : JsString}

/-- The name of no handler finds what `Object.prototype` has. -/
theorem Represents.lookup_absent (hw : Represents w router)
    (hname : router.methodHandlers.get? name = none) :
    handlerRealm.lookup w.heap (.object methodHandlers) name =
      (processObject .objectPrototype).own name := by
  obtain ⟨o, ho, hlength, -, hprototype, hown⟩ := hw.holds.table
  have hroot : w.registered protoName = none := by rw [hw.registered, hw.absent]; rfl
  have hnone : o.properties.get? name = none := by
    rw [hown, hw.registered, hname]
    split_ifs <;> rfl
  have hdepth : handlerRealm.depth = 14 + 1 + 1 := rfl
  have hobject : w.heap.objects (.builtin .objectPrototype) =
      some (processObject .objectPrototype) := hw.holds.builtins .objectPrototype
  rw [hroot] at hprototype
  have hparent : o.prototype = some (.builtin .objectPrototype) := hprototype
  rw [Realm.lookup, hdepth, Heap.find]
  simp only [ho, JsObject.own_of_ordinary hlength, hnone, hparent]
  rw [Heap.find, hobject]
  dsimp only
  cases (processObject .objectPrototype).own name <;> rfl

theorem own_objectPrototype (hname : name ≠ protoName) :
    (processObject .objectPrototype).own name =
      if name ∈ objectPrototypeFunctions then
        some (.data (.object (.builtin (.objectFunction name))) true false) else none := by
  rw [JsObject.own_of_ordinary rfl, processObject, OrderedMap.get?_set, if_neg hname]
  split_ifs with hmem
  · refine OrderedMap.get?_foldl_set_of_mem (Or.inl ⟨name, hmem, rfl⟩) ?_
    rintro a - rfl
    rfl
  · refine Option.eq_none_iff_forall_ne_some.mpr fun p hp => ?_
    exact hmem (get?_withFunctions hp).1

/-- A registration under another name than `__proto__` gets through. -/
theorem Represents.step (hw : Represents w router) (hname : name ≠ protoName) (handler : Handler) :
    ∃ t, handlerRealm.step w (name, handler.toFunction) = some t ∧
      Represents t (router.on name handler) := by
  obtain ⟨o, ho, hlength, -, -, hown⟩ := hw.holds.table
  have hwritable : handlerRealm.lookup w.heap (.object methodHandlers) name = none ∨
      ∃ y enumerable, handlerRealm.lookup w.heap (.object methodHandlers) name =
        some (.data y true enumerable) := by
    cases hregistered : router.methodHandlers.get? name with
    | none =>
      rw [hw.lookup_absent hregistered, own_objectPrototype hname]
      split_ifs
      · exact Or.inr ⟨_, _, rfl⟩
      · exact Or.inl rfl
    | some handler =>
      have hdata : o.own name = some (.data (.object (.builtin (.handler handler))) true true) := by
        rw [JsObject.own_of_ordinary hlength, hown, if_neg hname, hw.registered, hregistered]
        rfl
      exact Or.inr ⟨.object (.builtin (.handler handler)), true,
        Realm.lookup_of_own (by decide) ho hdata⟩
  have hon : handlerRealm.on name handler.toFunction w.heap = (some (), w.heap.store
      methodHandlers (o.put name (.object (.builtin (.handler handler))))) :=
    Realm.set_writable handlerRealm.toRealm ho hlength hwritable
  have hstep : handlerRealm.step w (name, handler.toFunction) = some
      ⟨w.heap.store methodHandlers (o.put name (.object (.builtin (.handler handler)))),
        Function.update w.registered name (some (.handler handler))⟩ := by
    simp only [FunctionRealm.step, hon]
    rfl
  refine ⟨_, hstep, hw.holds.step hstep, fun name' => ?_, ?_, ?_⟩
  · dsimp only
    rw [JsonRpcRouter.get?_on router hname]
    by_cases hsame : name' = name
    · rw [hsame, Function.update_self, if_pos rfl]
      rfl
    · rw [Function.update_of_ne hsame, if_neg hsame, hw.registered]
  · rw [JsonRpcRouter.get?_on router hname, if_neg hname.symm, hw.absent]
  · simp [JsonRpcRouter.on, hname, hw.prototype]

/-- What the heap answers under a name is what `JsonRpcRouter` finds. -/
theorem Represents.get (hw : Represents w router) (name : JsString) :
    (handlerRealm.get (.object methodHandlers) name w.heap).1 =
      some (match router.lookup name with
        | .registered handler => .object (.builtin (.handler handler))
        | .inherited name => .object (.builtin (.objectFunction name))
        | .notCallable =>
          if name = protoName then .object (.builtin .objectPrototype) else .undefined) := by
  rw [JsonRpcRouter.lookup, hw.prototype]
  cases hregistered : router.methodHandlers.get? name with
  | some handler =>
    refine hw.holds.get_registered ?_
    rw [hw.registered, hregistered]
    rfl
  | none =>
    have hlookup := hw.lookup_absent hregistered
    by_cases hname : name = protoName
    · subst hname
      obtain ⟨o, ho, -, -, hprototype, -⟩ := hw.holds.table
      have hroot : w.registered protoName = none := by rw [hw.registered, hregistered]; rfl
      rw [Realm.get_object, hw.holds.lookup_protoName, if_neg (by decide), if_pos rfl]
      simp only [Realm.valueOf, Script.reads_apply, Realm.prototypeOf, ho, Option.bind_some,
        hprototype, hroot]
      rfl
    · rw [Realm.get_object, hlookup, own_objectPrototype hname]
      split_ifs with hmem <;> rfl

/-- `handle` calls the handler, or the function of `Object.prototype`, that `route` finds, and
throws where `route` does. -/
theorem Represents.handle (hw : Represents w router)
    {call : ProcessObject → Json → Eval HandlerResponse}
    (hcall : ∀ name rpcRequest, call (.objectFunction name) rpcRequest =
      callInherited name rpcRequest) (rpcRequest : Json) :
    (handlerRealm.handle call w.heap rpcRequest).outcome =
      (router.route rpcRequest).bind fun
        | .inl handler => call (.handler handler) rpcRequest
        | .inr response => .ok response := by
  unfold FunctionRealm.handle JsonRpcRouter.route
  cases hread : JsValue.read (C := DwnServerErrorCode) (some rpcRequest) "method" with
  | error e => rfl
  | ok v =>
    cases htext : v.toText (C := DwnServerErrorCode) with
    | error e => simp [bind, Except.bind, htext]
    | ok method =>
      simp only [bind, Except.bind, htext, hw.get]
      cases router.lookup method with
      | registered handler => rfl
      | inherited name =>
        have hfunction : handlerRealm.callHandler call rpcRequest
            (some (.object (.builtin (.objectFunction name)))) =
              ⟨[.objectFunction name], call (.objectFunction name) rpcRequest⟩ := rfl
        simp only [hfunction, hcall]
        cases callInherited name rpcRequest <;> rfl
      | notCallable =>
        dsimp only
        split_ifs <;> rfl

/-- Registrations under other names than `__proto__` all get through. -/
theorem represents_run {registrations : List (JsString × Handler)}
    (hnames : ∀ r ∈ registrations, r.1 ≠ protoName) :
    ∃ w, run handlerRealm.step handlerRealm.newRouter
        (registrations.map fun r => (r.1, r.2.toFunction)) = some w ∧
      Represents w (registrations.foldl (fun router r => router.on r.1 r.2) .new) := by
  induction registrations using List.reverseRecOn with
  | nil => exact ⟨_, rfl, represents_new⟩
  | append_singleton registrations r ih =>
    obtain ⟨hold, hlast⟩ := List.forall_mem_append.mp hnames
    obtain ⟨w, hrun, hw⟩ := ih hold
    obtain ⟨t, hstep, ht⟩ := hw.step (hlast r (by simp)) r.2
    refine ⟨t, ?_, ?_⟩
    · rw [List.map_append, run_append, hrun]
      simp [hstep]
    · rw [List.foldl_append]
      exact ht

/-- `json-rpc-api.ts`. -/
def apiRegistrations : List (JsString × handlerRealm.JsonRpcHandler) :=
  [(js "dwn.processMessage", Handler.handleDwnProcessMessage.toFunction),
    (js "rpc.subscribe.dwn.processMessage", Handler.handleDwnProcessMessage.toFunction),
    (js "rpc.subscribe.close", Handler.handleSubscriptionsClose.toFunction)]

/-- A request with nothing but a method. -/
def methodRequest (method : JsString) : Json := .object [(js "method", .string method)]

theorem represents_api : ∃ w, run handlerRealm.step handlerRealm.newRouter apiRegistrations =
    some w ∧ Represents w jsonRpcRouter := by
  have hnames : ∀ r ∈ [(js "dwn.processMessage", Handler.handleDwnProcessMessage),
      (js "rpc.subscribe.dwn.processMessage", Handler.handleDwnProcessMessage),
      (js "rpc.subscribe.close", Handler.handleSubscriptionsClose)], r.1 ≠ protoName := by decide
  exact represents_run hnames

/-- The close method runs its handler, and only that. -/
theorem dispatches_close : ∃ w, run handlerRealm.step handlerRealm.newRouter apiRegistrations =
      some w ∧ ∀ call, Dispatches call (some (.handler .handleSubscriptionsClose))
        (methodRequest (js "rpc.subscribe.close"))
        (handlerRealm.handle call w.heap (methodRequest (js "rpc.subscribe.close"))) := by
  obtain ⟨w, hrun, hw⟩ := represents_api
  have hregistered : w.registered (js "rpc.subscribe.close") =
      some (.handler .handleSubscriptionsClose) := (hw.registered _).trans rfl
  have hmethod : (methodRequest (js "rpc.subscribe.close")).own (js "method") =
      some (.string (js "rpc.subscribe.close")) := rfl
  refine ⟨w, hrun, fun call => ?_⟩
  have hdispatches := (dispatches_iff hrun call hmethod).mpr (by rw [hregistered]; rfl)
  rwa [hregistered] at hdispatches

/-- The method `constructor`, which nobody registered, runs the function `Object`. -/
theorem not_dispatches : ∃ w, run handlerRealm.step handlerRealm.newRouter apiRegistrations =
      some w ∧ ∀ call,
        (handlerRealm.handle call w.heap (methodRequest (js "constructor"))).calls =
          [.objectFunction (js "constructor")] ∧
        ¬Dispatches call (w.registered (js "constructor")) (methodRequest (js "constructor"))
          (handlerRealm.handle call w.heap (methodRequest (js "constructor"))) := by
  obtain ⟨w, hrun, hw⟩ := represents_api
  have hregistered : w.registered (js "constructor") = none := (hw.registered _).trans rfl
  have hmethod : (methodRequest (js "constructor")).own (js "method") =
      some (.string (js "constructor")) := rfl
  have hget : (handlerRealm.get (.object methodHandlers) (js "constructor") w.heap).1 =
      some (.object (.builtin (.objectFunction (js "constructor")))) := by
    rw [hw.get, lookup_jsonRpcRouter]
    rfl
  refine ⟨w, hrun, fun call => ?_⟩
  have hhandle : handlerRealm.handle call w.heap (methodRequest (js "constructor")) =
      ⟨[.objectFunction (js "constructor")],
        call (.objectFunction (js "constructor")) (methodRequest (js "constructor"))⟩ := by
    rw [handle_of_method hmethod, hget]
    rfl
  rw [hhandle, hregistered]
  refine ⟨rfl, ?_⟩
  rintro ⟨hcalls, -⟩
  cases hcalls

end Handlers

end FunctionRealm

end DwnServer
