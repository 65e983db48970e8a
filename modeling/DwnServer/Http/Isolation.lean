import DwnServer.Http.QueryOptions
import DwnServer.Js.TwinHeaps
import DwnServer.Library.Transition

/-!
# Building the options of one request leaves the others alone

The loop over the parameters reads through the chain of prototypes, so a parameter name
with an inherited segment can lead it to an object that every request shares. Where no
segment leads there, a request writes to its own objects only and its options are what a
process that has served nothing would build.
-/
namespace DwnServer

variable {B : Type}

/-! ## What a request puts on the heap is its own -/

namespace Twin

variable {realm : Realm B} {n : Nat} {kept : Ref B → JsString → Prop} {base h t : Heap B}

/-- A kept name of an own object reads as an own value. -/
theorem alike_get_kept (tw : Twin realm n kept base h t) {r : Ref B} (hr : r.MadeBy n)
    {name : JsString} (hname : kept r name) :
    Script.Alike (Twin realm n kept base) (fun x _ => x.Within (Ref.MadeBy n))
      (realm.get (.object r) name) h t := by
  obtain ⟨answer, states, -⟩ := tw.alike_get (v := .object r) hr.visible name
  refine ⟨answer, states, fun x hx => ?_⟩
  obtain ⟨o, ho, hlength, p, hp⟩ := tw.keeps r name hname
  obtain ⟨y, writable, enumerable, rfl, hy⟩ := (tw.owned r o hr ho).properties name p hp
  have hget : (realm.get (.object r) name h).1 =
      (realm.valueOf (.object r) (h.find realm.depth r name) h).1 := rfl
  rw [hget] at hx
  cases hdepth : realm.depth with
  | zero =>
    rw [hdepth] at hx
    cases hx
    trivial
  | succ fuel =>
    have hfind : h.find (fuel + 1) r name = some (.data y writable enumerable) := by
      simp [Heap.find, ho, JsObject.own_of_ordinary hlength, hp]
    rw [hdepth, hfind] at hx
    cases hx
    exact hy

theorem memberObject_owned {members : List (JsString × Value B)}
    (h : ∀ m ∈ members, m.2.Within (Ref.MadeBy n)) : (memberObject realm members).OwnedBy n := by
  refine ⟨?_, fun name p hp => ?_⟩
  · rintro r ⟨⟩
    trivial
  · rcases OrderedMap.get?_foldl_set _ _ hp with ⟨m, hm, -, rfl⟩ | hempty
    · exact ⟨m.2, true, true, rfl, h m hm⟩
    · simp at hempty

theorem arrayObject_owned {values : List (Value B)}
    (h : ∀ v ∈ values, v.Within (Ref.MadeBy n)) : (arrayObject realm values).OwnedBy n := by
  refine ⟨?_, fun name p hp => ?_⟩
  · rintro r ⟨⟩
    trivial
  · rcases OrderedMap.get?_foldl_set _ _ hp with ⟨e, he, -, rfl⟩ | hempty
    · exact ⟨e.1, true, true, rfl, h e.1 (List.fst_mem_of_mem_zipIdx he)⟩
    · simp at hempty

theorem emptyObject_owned : realm.emptyObject.OwnedBy n := by
  refine ⟨?_, fun name p hp => ?_⟩
  · rintro r ⟨⟩
    trivial
  · simp [Realm.emptyObject] at hp

end Twin

variable [DecidableEq B] (realm : Realm B)

/-! ## Segments that lead to a built-in object -/

/-- The value that `v` has under `key` is a built-in object, which `v` can only inherit;
on a primitive value only the accessor `__proto__` lets the loop go on. -/
def leadsToBuiltin (h : Heap B) (v : Value B) (key : JsString) : Bool :=
  match v with
  | .primitive _ => realm.lookup h v key = some .protoAccessor
  | .object _ =>
    match (realm.get v key h).1 with
    | some (.object (.builtin _)) => true
    | _ => false

/-- No segment of the name but its last leads to a built-in object. -/
def ParamStays (options : Value B) (param : JsString) (h : Heap B) : Prop :=
  Script.EachMeets (nextLevel realm) (fun v key h => leadsToBuiltin realm h v key = false)
    options (splitParam param).1 h

instance (options : Value B) (param : JsString) (h : Heap B) :
    Decidable (ParamStays realm options param h) :=
  inferInstanceAs (Decidable (Script.EachMeets ..))

def ParamsStay (query options : Value B) (params : List JsString) (h : Heap B) : Prop :=
  Script.EachMeets (fun _ param => addParam realm query options param)
    (fun _ param h => ParamStays realm options param h) () params h

instance (query options : Value B) (params : List JsString) (h : Heap B) :
    Decidable (ParamsStay realm query options params h) :=
  inferInstanceAs (Decidable (Script.EachMeets ..))

/-- While the process builds the options of the request, no segment of a parameter name
but its last leads to a built-in object. -/
def RequestStays (p : OptionsProcess B) (request : OptionsRequest) : Prop :=
  match beginOptions realm request p.begin with
  | (some (query, options), h) => ParamsStay realm query options (paramsOf realm h query) h
  | (none, _) => True

instance (p : OptionsProcess B) (request : OptionsRequest) :
    Decidable (RequestStays realm p request) := by
  unfold RequestStays
  split <;> infer_instance

/-! ## One request -/

namespace Twin

variable {realm} {n : Nat} {kept : Ref B → JsString → Prop} {base h t : Heap B}

/-- A new object, as an own value. -/
theorem alike_make_own (tw : Twin realm n kept base h t) {o : JsObject B} (ho : o.OwnedBy n) :
    Script.Alike (Twin realm n kept base) (fun v _ => v.Within (Ref.MadeBy n)) (make o) h t := by
  refine (tw.alike_make ho).mono (fun _ _ tw' => tw') ?_
  rintro v s t' - ⟨r, rfl, hr, -⟩
  exact hr

mutual

theorem alike_materialise : ∀ (j : Json) {h t : Heap B}, Twin realm n kept base h t →
    Script.Alike (Twin realm n kept base) (fun v _ => v.Within (Ref.MadeBy n))
      (materialise realm j) h t
  | .null, _, _, tw | .bool _, _, _, tw | .number _, _, _, tw | .string _, _, _, tw =>
    Script.alike_pure tw trivial
  | .array elements, _, _, tw =>
    Script.alike_bind (alike_materialiseElements elements tw) fun _ _ _ _ hvs tw' =>
      tw'.alike_make_own (arrayObject_owned hvs)
  | .object members, _, _, tw =>
    Script.alike_bind (alike_materialiseMembers members tw) fun _ _ _ _ hms tw' =>
      tw'.alike_make_own (memberObject_owned hms)

theorem alike_materialiseElements : ∀ (js : List Json) {h t : Heap B},
    Twin realm n kept base h t →
    Script.Alike (Twin realm n kept base) (fun vs _ => ∀ v ∈ vs, v.Within (Ref.MadeBy n))
      (materialise.materialiseElements realm js) h t
  | [], _, _, tw => Script.alike_pure tw (by simp)
  | j :: rest, _, _, tw =>
    Script.alike_bind (alike_materialise j tw) fun _ _ _ _ hv tw' =>
      Script.alike_bind (alike_materialiseElements rest tw') fun _ _ _ _ hvs tw'' =>
        Script.alike_pure tw'' (List.forall_mem_cons.mpr ⟨hv, hvs⟩)

theorem alike_materialiseMembers : ∀ (ms : List (JsString × Json)) {h t : Heap B},
    Twin realm n kept base h t →
    Script.Alike (Twin realm n kept base) (fun ms _ => ∀ m ∈ ms, m.2.Within (Ref.MadeBy n))
      (materialise.materialiseMembers realm ms) h t
  | [], _, _, tw => Script.alike_pure tw (by simp)
  | (_, j) :: rest, _, _, tw =>
    Script.alike_bind (alike_materialise j tw) fun _ _ _ _ hv tw' =>
      Script.alike_bind (alike_materialiseMembers rest tw') fun _ _ _ _ hms tw'' =>
        Script.alike_pure tw'' (List.forall_mem_cons.mpr ⟨hv, hms⟩)

end

theorem alike_orEmpty (tw : Twin realm n kept base h t) {S : Ref B → Prop} {x : Value B}
    (hx : x.Within S) (hS : ∀ r, r.MadeBy n → S r) :
    Script.Alike (Twin realm n kept base) (fun y _ => y.Within S) (orEmpty realm x) h t := by
  unfold orEmpty
  split_ifs
  · exact Script.alike_pure tw hx
  · exact (tw.alike_make_own emptyObject_owned).mono (fun _ _ tw' => tw') fun _ _ _ _ hy =>
      hy.mono hS

/-- A write to a primitive value fails, but for the accessor. -/
theorem set_primitive_fails {p : Primitive} {name : JsString} {x : Value B}
    (hp : realm.lookup h (.primitive p) name ≠ some .protoAccessor) :
    realm.set (.primitive p) name x h = (none, h) := by
  unfold Realm.set
  split_ifs
  · rfl
  change realm.assign (.primitive p) name x (realm.lookup h (.primitive p) name) h = (none, h)
  rcases hl : realm.lookup h (.primitive p) name with _ | ⟨y, _ | _, e⟩ | _ | _
  · rfl
  · rfl
  · rfl
  · exact absurd hl hp
  · rfl

/-- From an own value, a segment that leads to no built-in object goes to an own value. -/
theorem alike_nextLevel (tw : Twin realm n kept base h t) {v : Value B} {key : JsString}
    (hv : v.Within (Ref.MadeBy n)) (stays : leadsToBuiltin realm h v key = false) :
    Script.Alike (Twin realm n kept base) (fun x _ => x.Within (Ref.MadeBy n))
      (nextLevel realm v key) h t := by
  have read := tw.alike_get hv.visible key
  unfold nextLevel
  cases v with
  | object r =>
    have own : Script.Alike (Twin realm n kept base) (fun x _ => x.Within (Ref.MadeBy n))
        (realm.get (.object r) key) h t := by
      refine ⟨read.answer, read.states, fun x hx => ?_⟩
      have visible := read.meets x hx
      rcases x with _ | ⟨b⟩ | ⟨m, i⟩
      · trivial
      · simp [leadsToBuiltin, hx] at stays
      · exact visible
    refine Script.alike_bind own fun x s' t' _ hx tw' => ?_
    refine Script.alike_bind (tw'.alike_orEmpty hx (fun _ => id)) fun y s'' t'' _ hy tw'' => ?_
    exact Script.alike_bind (tw''.alike_set hv hy key) fun _ _ _ _ _ last =>
      Script.alike_pure last hy
  | primitive p =>
    -- Whatever is read, the write that follows it throws.
    refine Script.alike_bind read fun x s' t' _ hx tw' => ?_
    refine Script.alike_bind (tw'.alike_orEmpty hx fun _ => Ref.MadeBy.visible)
      fun y s'' t'' _ _ tw'' => ?_
    have hp : realm.lookup s'' (.primitive p) key ≠ some .protoAccessor := by
      rw [tw''.lookup_primitive, ← tw.lookup_primitive]
      simpa [leadsToBuiltin] using stays
    have hp' : realm.lookup t'' (.primitive p) key ≠ some .protoAccessor := by
      rwa [← tw''.lookup_eq (v := .primitive p) trivial key]
    have fails := set_primitive_fails (x := y) hp
    have fails' := set_primitive_fails (x := y) hp'
    refine Script.alike_bind (A := fun _ _ => False) ⟨?_, ?_, ?_⟩ fun _ _ _ _ h _ => h.elim
    · rw [fails, fails']
    · rw [fails, fails']
      exact tw''
    · simp [fails]

/-- A parameter whose segments stay is added to own objects only. -/
theorem alike_addParam (tw : Twin realm n kept base h t) {query : Ref B} {options : Value B}
    {param : JsString} (hquery : query.MadeBy n) (hoptions : options.Within (Ref.MadeBy n))
    (hparam : kept query param) (stays : ParamStays realm options param h) :
    Script.Alike (Twin realm n kept base) (fun _ _ => True)
      (addParam realm (.object query) options param) h t := by
  have walk := Script.alike_foldlM (fun _ _ _ _ _ hv tw stays => alike_nextLevel tw hv stays)
    hoptions tw stays
  refine Script.alike_bind walk fun level s' t' _ hlevel tw' => ?_
  refine Script.alike_bind (tw'.alike_get_kept hquery hparam) fun x s'' t'' _ hx tw'' => ?_
  exact tw''.alike_set hlevel hx _

theorem alike_addParams (tw : Twin realm n kept base h t) {query : Ref B} {options : Value B}
    (hquery : query.MadeBy n) (hoptions : options.Within (Ref.MadeBy n))
    (hparams : ∀ param ∈ paramsOf realm h (.object query), kept query param)
    (stays : ParamsStay realm (.object query) options (paramsOf realm h (.object query)) h) :
    Script.Alike (Twin realm n kept base) (fun _ _ => True)
      (addParams realm (.object query) options) h t := by
  have names : Script.Alike (Twin realm n kept base)
      (fun params s => params = paramsOf realm h (.object query) ∧ s = h)
      (Script.reads fun h => paramsOf realm h (.object query)) h t :=
    Script.alike_reads tw (tw.forIn_eq realm.depth [] hquery.visible) ⟨rfl, rfl⟩
  refine Script.alike_bind names ?_
  rintro _ s' t' - ⟨rfl, rfl⟩ tw'
  refine (Script.alike_foldlM (P := fun _ => True) ?_ trivial tw' stays).mono (fun _ _ tw => tw)
    fun _ _ _ _ _ => trivial
  intro param hmem _ s t _ tw stays
  exact tw.alike_addParam hquery hoptions (hparams param hmem) stays

/-! ### The options of a request -/

/-- What `beginOptions` leaves: `req.query` is an ordinary object that inherits from a
built-in one, and a read's options own the name `filter`. -/
structure Begun (n : Nat) (route : OptionsRoute) (query options : Value B) (h : Heap B) : Prop where
  query : ∃ r : Ref B, query = .object r ∧ r.MadeBy n ∧ ∃ o, h.objects r = some o ∧
    o.length = none ∧ ∃ b, o.prototype = some (.builtin b)
  options : ∃ r : Ref B, options = .object r ∧ r.MadeBy n ∧ (route ≠ .query →
    ∃ o, h.objects r = some o ∧ o.length = none ∧ ∃ p, o.properties.get? (js "filter") = some p)

theorem alike_newOptions (tw : Twin realm n kept base h t) (route : OptionsRoute) :
    Script.Alike (Twin realm n kept base) (fun v s => ∃ r : Ref B, v = .object r ∧ r.MadeBy n ∧
      (∀ r', h.objects r' ≠ none → s.objects r' = h.objects r') ∧ (route ≠ .query →
        ∃ o, s.objects r = some o ∧ o.length = none ∧
          ∃ p, o.properties.get? (js "filter") = some p))
      (newOptions realm route) h t := by
  cases route with
  | query =>
    refine (tw.alike_make emptyObject_owned).mono (fun _ _ tw' => tw') ?_
    rintro _ s _ - ⟨r, rfl, hr, -, hkeep⟩
    exact ⟨r, rfl, hr, hkeep, fun h => absurd rfl h⟩
  | readProtocols protocol path =>
    simp only [newOptions]
    split_ifs
    · exact Script.alike_fail tw
    refine Script.alike_bind (tw.alike_make emptyObject_owned) ?_
    rintro _ s' t' - ⟨f, rfl, hf, -, hkeep⟩ tw'
    have howned : (memberObject realm [(js "filter", .object f)]).OwnedBy n :=
      memberObject_owned (by simpa using hf)
    refine (tw'.alike_make howned).mono (fun _ _ tw'' => tw'') ?_
    rintro _ s _ - ⟨r, rfl, hr, hobj, hkeep'⟩
    refine ⟨r, rfl, hr, fun r' hr' => ?_, fun _ => ⟨_, hobj, rfl, _, rfl⟩⟩
    have hsame := hkeep r' hr'
    exact (hkeep' r' (hsame ▸ hr')).trans hsame

theorem alike_materialiseObject (tw : Twin realm n kept base h t)
    (members : List (JsString × Json)) :
    Script.Alike (Twin realm n kept base) (fun v s => ∃ r : Ref B, v = .object r ∧ r.MadeBy n ∧
      ∃ ms, s.objects r = some (memberObject realm ms)) (materialise realm (.object members))
      h t := by
  refine Script.alike_bind (alike_materialiseMembers members tw) fun ms _ _ _ hms tw' => ?_
  refine (tw'.alike_make (memberObject_owned hms)).mono (fun _ _ tw'' => tw'') ?_
  rintro _ s _ - ⟨r, rfl, hr, hobj, -⟩
  exact ⟨r, rfl, hr, ms, hobj⟩

theorem alike_beginOptions (tw : Twin realm n kept base h t) (request : OptionsRequest) :
    Script.Alike (Twin realm n kept base) (fun a s => Begun n request.route a.1 a.2 s)
      (beginOptions realm request) h t := by
  refine Script.alike_bind (tw.alike_materialiseObject request.query) ?_
  rintro _ s' t' - ⟨q, rfl, hq, ms, hquery⟩ tw'
  refine Script.alike_bind (tw'.alike_newOptions request.route) ?_
  rintro _ s'' t'' - ⟨r, rfl, hr, hkeep, hfilter⟩ tw''
  have hquery' := (hkeep q (by simp [hquery])).trans hquery
  exact Script.alike_pure tw'' ⟨⟨q, rfl, hq, _, hquery', rfl, _, rfl⟩, ⟨r, rfl, hr, hfilter⟩⟩

/-- What the protocol and its path are written to is the options' own filter. -/
theorem alike_addProtocol (tw : Twin realm n kept base h t)
    (decodeProtocol : JsString → Option JsString) {options : Ref B} {route : OptionsRoute}
    (hoptions : options.MadeBy n) (hfilter : route ≠ .query → kept options (js "filter")) :
    Script.Alike (Twin realm n kept base) (fun _ _ => True)
      (addProtocol realm decodeProtocol (.object options) route) h t := by
  cases route with
  | query => exact Script.alike_pure tw trivial
  | readProtocols protocol path =>
    have hkept := hfilter (by simp)
    simp only [addProtocol]
    cases decodeProtocol protocol with
    | none => exact Script.alike_fail tw
    | some decoded =>
      refine Script.alike_bind (tw.alike_get_kept hoptions hkept) fun _ _ _ _ hf tw' => ?_
      refine Script.alike_bind (tw'.alike_set (x := .string decoded) hf trivial _)
        fun _ _ _ _ _ tw' => ?_
      refine Script.alike_bind (tw'.alike_get_kept hoptions hkept) fun _ _ _ _ hf tw' => ?_
      exact tw'.alike_set (x := .string (replaceLeadTailSlash path)) hf trivial _

/-- The options are built alike on both heaps when no segment leads to a built-in object. -/
theorem alike_buildOptions (tw : Twin realm n (fun _ _ => False) base h t)
    (decodeProtocol : JsString → Option JsString) {request : OptionsRequest}
    (stays : match beginOptions realm request h with
      | (some (query, options), h) => ParamsStay realm query options (paramsOf realm h query) h
      | (none, _) => True) :
    Script.Alike (Twin realm n (fun _ _ => False) base) (fun _ _ => True)
      (buildOptions realm decodeProtocol request) h t := by
  refine Script.alike_bind (tw.alike_beginOptions request) ?_
  rintro ⟨query, options⟩ s t hbegin ⟨⟨q, rfl, hq, o, ho, hlength, b, hproto⟩,
    ⟨r, rfl, hr, hfilter⟩⟩ tw'
  rw [hbegin] at stays
  let kept (r' : Ref B) (name : JsString) : Prop :=
    (r' = q ∧ name ∈ paramsOf realm s (.object q)) ∨
      (r' = r ∧ name = js "filter" ∧ request.route ≠ .query)
  have tw'' : Twin realm n kept base s t := by
    refine { tw' with keeps := fun r' name hname => ?_ }
    rcases hname with ⟨rfl, hname⟩ | ⟨rfl, rfl, hroute⟩
    · exact ⟨o, ho, hlength, tw'.own_of_forIn ho hlength hproto hname⟩
    · exact hfilter hroute
  have hoptions : (Value.object r).Within (Ref.MadeBy n) := hr
  have params := tw''.alike_addParams hq hoptions (fun _ hp => Or.inl ⟨rfl, hp⟩) stays
  have built : Script.Alike (Twin realm n kept base) (fun _ _ => True) (do
      addParams realm (.object q) (.object r)
      addProtocol realm decodeProtocol (.object r) request.route
      return Value.object r) s t := by
    refine Script.alike_bind params fun _ _ _ _ _ tw₁ => ?_
    refine Script.alike_bind (tw₁.alike_addProtocol decodeProtocol hr fun hroute =>
      Or.inr ⟨rfl, rfl, hroute⟩) fun _ _ _ _ _ tw₂ => ?_
    exact Script.alike_pure tw₂ trivial
  exact built.mono (fun _ _ tw => tw.weaken fun _ _ => False.elim) fun _ _ _ _ => id

end Twin

/-! ## One request after another -/

/-- The process builds the options of a request without touching any object but the
request's own, and as a process would whose first request it is: with the same answer,
and with the same content in each object that the request can see. Both processes know the
request by the same number, so its objects have the same names. -/
structure Isolated (decodeProtocol : JsString → Option JsString) (p : OptionsProcess B)
    (request : OptionsRequest) : Prop where
  others : ∀ r : Ref B, ¬ r.MadeBy p.served →
    (buildOptions realm decodeProtocol request p.begin).2.objects r = p.heap.objects r
  answer : (buildOptions realm decodeProtocol request p.begin).1 =
    (buildOptions realm decodeProtocol request (OptionsProcess.fresh realm p.served).begin).1
  objects : ∀ r : Ref B, r.VisibleTo p.served →
    (buildOptions realm decodeProtocol request p.begin).2.objects r =
      (buildOptions realm decodeProtocol request
        (OptionsProcess.fresh realm p.served).begin).2.objects r

/-- The built-in objects are as the process started with them, and the numbers from
`served` on are free. -/
structure OptionsProcess.Clean (p : OptionsProcess B) : Prop where
  builtins : ∀ b, p.heap.objects (.builtin b) = some (realm.builtins b)
  unused : ∀ n i, p.served ≤ n → p.heap.objects (.made n i) = none

variable {realm}

omit [DecidableEq B] in
theorem OptionsProcess.Clean.twin {p : OptionsProcess B} (clean : p.Clean realm) :
    Twin realm p.served (fun _ _ => False) p.heap p.begin
      (OptionsProcess.fresh realm p.served).begin where
  maker := rfl
  maker' := rfl
  made := rfl
  unused i _ := clean.unused _ i le_rfl
  same r hr := by
    cases r with
    | builtin b => exact clean.builtins b
    | made m i =>
      obtain rfl : m = p.served := hr
      exact clean.unused _ i le_rfl
  builtins := clean.builtins
  owned r o hr ho := by
    cases r with
    | builtin b => exact hr.elim
    | made m i =>
      obtain rfl : m = p.served := hr
      exact absurd ((clean.unused _ i le_rfl).symm.trans ho) (by simp)
  others _ _ := rfl
  keeps _ _ h := h.elim

/-- A request that stays is isolated, and leaves the process clean. -/
theorem isolated_of_stays (decodeProtocol : JsString → Option JsString) {p p' : OptionsProcess B}
    {request : OptionsRequest} (clean : p.Clean realm) (stays : RequestStays realm p request)
    (hstep : OptionsProcess.step realm decodeProtocol p request = some p') :
    p'.Clean realm ∧ Isolated realm decodeProtocol p request := by
  have built := clean.twin.alike_buildOptions decodeProtocol stays
  obtain rfl := Option.some.inj hstep
  refine ⟨⟨built.states.builtins, fun m i hm => ?_⟩, built.states.others, built.answer,
    built.states.same⟩
  have hne : ¬ (Ref.made m i : Ref B).MadeBy p.served := Nat.ne_of_gt hm
  exact (built.states.others _ hne).trans (clean.unused m i (Nat.le_of_succ_le hm))

/-- In every sequence of requests none of whose parameter names leads to a built-in object,
each request is isolated. -/
theorem requestsIsolated (decodeProtocol : JsString → Option JsString)
    {requests : List OptionsRequest}
    (stay : Transition.Along (OptionsProcess.step realm decodeProtocol)
      (fun p request _ => RequestStays realm p request) (OptionsProcess.fresh realm 0) requests) :
    Transition.Along (OptionsProcess.step realm decodeProtocol)
      (fun p request _ => Isolated realm decodeProtocol p request)
      (OptionsProcess.fresh realm 0) requests := by
  have clean : (OptionsProcess.fresh realm 0).Clean realm := ⟨fun _ => rfl, fun _ _ _ => rfl⟩
  refine Transition.along_of_invariant (I := fun p => p.Clean realm) ?_ clean stay
  exact fun p request p' clean stays hstep => isolated_of_stays decodeProtocol clean stays hstep

/-- Filters, a repeated parameter that a later one extends, and a read by protocol. -/
theorem requestsIsolated_filters :
    Transition.Along (OptionsProcess.step objectRealm
        fun protocol => if protocol = js "aHR0cDovL2E" then some (js "http://a") else none)
      (fun p request _ => Isolated objectRealm
        (fun protocol => if protocol = js "aHR0cDovL2E" then some (js "http://a") else none)
        p request)
      (OptionsProcess.fresh objectRealm 0)
      [⟨.query, [(js "filter.protocol", .string (js "foo")),
          (js "filter.protocolPath", .string (js "bar")), (js "toString", .string (js "x"))]⟩,
        ⟨.query, [(js "filter.author", .array [.string (js "a"), .string (js "b")]),
          (js "filter.author.2", .string (js "c"))]⟩,
        ⟨.readProtocols (js "aHR0cDovL2E") (js "foo/bar/"),
          [(js "filter.recordId", .string (js "r"))]⟩] :=
  requestsIsolated _ (by decide +kernel)

/-- `?__proto__.filter=x` writes to the `Object.prototype` that every request shares, and the
query without parameters that follows is built with a filter. -/
theorem not_isolated :
    ∃ p, OptionsProcess.step objectRealm some (OptionsProcess.fresh objectRealm 0)
        ⟨.query, [(js "__proto__.filter", .string (js "x"))]⟩ = some p ∧
      ¬ Isolated objectRealm some (OptionsProcess.fresh objectRealm 0)
        ⟨.query, [(js "__proto__.filter", .string (js "x"))]⟩ ∧
      ¬ Isolated objectRealm some p ⟨.query, []⟩ := by
  refine ⟨_, rfl, fun h => ?_, fun h => ?_⟩
  · exact absurd (h.others (.builtin .objectPrototype) id) (by decide +kernel)
  · exact absurd (h.objects (.made 1 1) rfl) (by decide +kernel)

end DwnServer
