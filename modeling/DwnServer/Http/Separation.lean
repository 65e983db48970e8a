import DwnServer.Http.Isolation
import DwnServer.Http.Reads

/-!
# Readers do not disturb each other

The requests of one process share the built-in objects. As long as no parameter name leads to one
of these, a handler puts the questions and gives the answers that it would in a process of its own,
whatever requests and replies come in between.
-/
namespace DwnServer

open Transition

variable {B : Type}

/-- Two stages at one place. What they ask is about the same options, as far as request number `n`
can see them on the heap. -/
def GetStage.Like (n : ℕ) : GetStage B → GetStage B → Prop
  | .queriesPath options heap, .queriesPath options' heap'
  | .queries options heap, .queries options' heap' =>
    options = options' ∧ ∀ r : Ref B, r.VisibleTo n → heap.objects r = heap'.objects r
  | stage, stage' => stage = stage'

namespace GetStage.Like

variable {n : ℕ} {stage stage' next : GetStage B} {outcomes : List (Except Json DwnListing)}

theorem refl (n : ℕ) (stage : GetStage B) : stage.Like n stage := by
  cases stage <;> simp [Like]

/-- From like stages a handler goes on in the same way. -/
theorem settle (h : stage.Like n stage') (outcome : Except Json DwnListing) :
    stage.settle outcome = stage'.settle outcome := by
  cases stage <;> cases stage' <;> first
    | cases h; done
    | cases h; rcases outcome with _ | (_ | _) <;> rfl

theorem answer? (h : stage.Like n stage') : stage.answer? = stage'.answer? := by
  cases stage <;> cases stage' <;> first
    | cases h; done
    | cases h; rfl

theorem foldlM_settle (h : stage.Like n stage')
    (hnext : outcomes.foldlM GetStage.settle stage = some next) :
    ∃ next', outcomes.foldlM GetStage.settle stage' = some next' ∧ next.Like n next' := by
  cases outcomes with
  | nil =>
    obtain rfl := Option.some.inj hnext
    exact ⟨stage', rfl, h⟩
  | cons outcome outcomes =>
    rw [List.foldlM_cons, h.settle] at hnext
    exact ⟨next, hnext, refl n next⟩

end GetStage.Like

namespace GetRun

variable [DecidableEq B] (realm : Realm B) (decodeProtocol : JsString → Option JsString)

/-- While the process builds the options of a request that comes in, no segment of a parameter
name but its last leads to a built-in object. -/
def Stays (w : GetRun B) : GetAction → Prop
  | .get _ route => ∀ request, optionsRequest? route = some request →
      RequestStays realm w.process request
  | .settles _ _ => True

/-- What has come of the questions of request `i`. -/
def outcomesOf (i : ℕ) : List GetAction → List (Except Json DwnListing) :=
  List.filterMap fun
    | .settles j outcome => if j = i then some outcome else none
    | .get _ _ => none

variable {realm decodeProtocol} {w t : GetRun B} {p : OptionsProcess B} {route : GetRoute} {i : ℕ}
  {a : GetAction} {past as : List GetAction}

theorem outcomesOf_append_get (did : JsString) :
    outcomesOf i (past ++ [.get did route]) = outcomesOf i past := by
  simp [outcomesOf]

theorem outcomesOf_append_settles {j : ℕ} (outcome : Except Json DwnListing) :
    outcomesOf i (past ++ [.settles j outcome]) =
      outcomesOf i past ++ if j = i then [outcome] else [] := by
  by_cases hij : j = i <;> simp [outcomesOf, hij]

/-- A handler begins as in a process that has served nothing. -/
theorem begin_like (h : ∀ request, optionsRequest? route = some request →
    Isolated realm decodeProtocol p request) :
    (begin realm decodeProtocol p route).Like p.served
      (begin realm decodeProtocol (.fresh realm p.served) route) := by
  cases route with
  | readPath protocol path query | query query =>
    obtain ⟨-, hanswer, hobjects⟩ := h _ rfl
    simp only [begin]
    generalize buildOptions realm decodeProtocol _ p.begin = built at hanswer hobjects ⊢
    generalize buildOptions realm decodeProtocol _ (OptionsProcess.fresh realm p.served).begin =
      built' at hanswer hobjects ⊢
    obtain ⟨options, heap⟩ := built
    obtain ⟨options', heap'⟩ := built'
    obtain rfl : options = options' := hanswer
    cases options with
    | none => exact .refl _ _
    | some options => exact ⟨rfl, hobjects⟩
  | readProtocol | readRecords | records | queryProtocols => exact .refl _ _

/-- A request that stays is served apart from the others, and leaves the process clean. -/
theorem served_of_stays (clean : p.Clean realm)
    (hstays : ∀ request, optionsRequest? route = some request → RequestStays realm p request) :
    (served realm decodeProtocol p route).Clean realm ∧
      ∀ request, optionsRequest? route = some request →
        Isolated realm decodeProtocol p request := by
  unfold served
  cases hroute : optionsRequest? route with
  | none => exact ⟨clean, fun _ h => nomatch h⟩
  | some request =>
    obtain ⟨hclean, hisolated⟩ :=
      isolated_of_stays decodeProtocol clean (hstays request hroute) rfl
    refine ⟨hclean, fun other hother => ?_⟩
    obtain rfl := Option.some.inj hother
    exact hisolated

/-- What the requests of a process are, that came in to clean processes. -/
structure Separate (realm : Realm B) (decodeProtocol : JsString → Option JsString)
    (past : List GetAction) (w : GetRun B) : Prop where
  clean : w.process.Clean realm
  gets : ∀ i get, w.gets[i]? = some get → ∃ p : OptionsProcess B,
    (begin realm decodeProtocol p get.route).Like p.served
      (begin realm decodeProtocol (.fresh realm p.served) get.route) ∧
    (outcomesOf i past).foldlM GetStage.settle (begin realm decodeProtocol p get.route) =
      some get.stage
  none : ∀ i, w.gets[i]? = none → outcomesOf i past = []

theorem Separate.step (hw : Separate realm decodeProtocol past w) (hstays : w.Stays realm a)
    (h : w.step realm decodeProtocol a = some t) :
    Separate realm decodeProtocol (past ++ [a]) t := by
  cases a with
  | get did route =>
    obtain rfl := Option.some.inj h
    obtain ⟨hclean, hisolated⟩ : (served realm decodeProtocol w.process route).Clean realm ∧ _ :=
      served_of_stays hw.clean hstays
    refine ⟨hclean, fun i get hi => ?_, fun i hi => ?_⟩
    · rw [outcomesOf_append_get]
      rcases Numbered.getElem?_append_singleton hi with hold | ⟨rfl, rfl⟩
      · exact hw.gets i get hold
      · refine ⟨w.process, begin_like hisolated, ?_⟩
        rw [hw.none _ (List.getElem?_eq_none le_rfl)]
        rfl
    · rw [outcomesOf_append_get]
      refine hw.none i (List.getElem?_eq_none ?_)
      have hlength := List.getElem?_eq_none_iff.mp hi
      rw [List.length_append] at hlength
      omega
  | settles j outcome =>
    obtain ⟨get, stage, hget, hsettle, rfl⟩ := settles_eq_some.mp h
    refine ⟨hw.clean, fun i get' hi => ?_, fun i hi => ?_⟩
    · rw [outcomesOf_append_settles]
      rw [List.getElem?_set] at hi
      split_ifs at hi ⊢ with hij hlt
      · subst hij
        obtain rfl := Option.some.inj hi
        obtain ⟨p, hlike, hfold⟩ := hw.gets j get hget
        refine ⟨p, hlike, ?_⟩
        rw [List.foldlM_append, hfold]
        simpa using hsettle
      · rw [List.append_nil]
        exact hw.gets i get' hi
    · rw [List.getElem?_eq_none_iff, List.length_set, ← List.getElem?_eq_none_iff] at hi
      have hne : j ≠ i := by
        rintro rfl
        cases hi.symm.trans hget
      rw [outcomesOf_append_settles, if_neg hne, List.append_nil]
      exact hw.none i hi

/-- A process of one request that has got its outcomes. -/
theorem run_alone {q : OptionsProcess B} {did : JsString} {stage next : GetStage B}
    {outcomes : List (Except Json DwnListing)}
    (h : outcomes.foldlM GetStage.settle stage = some next) :
    run (GetRun.step realm decodeProtocol) ⟨q, [⟨did, route, stage⟩]⟩
      (outcomes.map (.settles 0)) = some ⟨q, [⟨did, route, next⟩]⟩ := by
  induction outcomes generalizing stage with
  | nil =>
    obtain rfl := Option.some.inj h
    rfl
  | cons outcome outcomes ih =>
    obtain ⟨between, hsettle, hrest⟩ := Option.bind_eq_some_iff.mp h
    have hstep : (GetRun.mk q [⟨did, route, stage⟩]).step realm decodeProtocol
        (.settles 0 outcome) = some ⟨q, [⟨did, route, between⟩]⟩ :=
      settles_eq_some.mpr ⟨_, between, rfl, hsettle, rfl⟩
    rw [List.map_cons, run_cons, hstep]
    exact ih hrest

/-- In every run none of whose parameter names leads to a built-in object, each request is where it
would be in a process that serves nothing else and gets the same outcomes: with the same answer, or
with a question about the same options. -/
theorem readers_separate
    (hstays : Along (GetRun.step realm decodeProtocol) (fun s a _ => s.Stays realm a)
      ⟨.fresh realm 0, []⟩ as)
    (hrun : run (GetRun.step realm decodeProtocol) ⟨.fresh realm 0, []⟩ as = some w) {get : Get B}
    (hget : w.gets[i]? = some get) :
    ∃ n u stage, run (GetRun.step realm decodeProtocol) ⟨.fresh realm n, []⟩
        (.get get.did get.route :: (outcomesOf i as).map (.settles 0)) = some u ∧
      u.gets = [⟨get.did, get.route, stage⟩] ∧ get.stage.Like n stage ∧
      w.answer? i = u.answer? 0 := by
  have hstart : Separate realm decodeProtocol [] ⟨.fresh realm 0, []⟩ :=
    ⟨⟨fun _ => rfl, fun _ _ _ => rfl⟩, by simp, fun _ _ => rfl⟩
  have hw : Separate realm decodeProtocol ([] ++ as) w :=
    run_history_of_along (fun past u a v hu hstays hv => hu.step hstays hv) hstays hstart hrun
  rw [List.nil_append] at hw
  obtain ⟨p, hlike, hfold⟩ := hw.gets i get hget
  obtain ⟨stage, hfold', hlike'⟩ := hlike.foldlM_settle hfold
  refine ⟨p.served, ⟨served realm decodeProtocol (.fresh realm p.served) get.route,
    [⟨get.did, get.route, stage⟩]⟩, stage, ?_, rfl, hlike', ?_⟩
  · exact run_alone hfold'
  · rw [answer?, answer?, hget]
    exact hlike'.answer?

/-- A query of records, and a protocol that is asked for before the query is answered. -/
def queryAndProtocol : List GetAction :=
  [.get (js "did:a") (.query [(js "filter.protocol", .string (js "foo"))]),
    .get (js "did:b") (.readProtocol (js "p")), .settles 1 (.error .null),
    .get (js "did:c") (.query [(js "filter", .string (js "x"))])]

/-- The query asks as it would alone. -/
theorem readers_separate_query : ∃ w get,
    run (GetRun.step objectRealm some) ⟨.fresh objectRealm 0, []⟩ queryAndProtocol = some w ∧
      w.gets[0]? = some get ∧
      ∃ n u stage, run (GetRun.step objectRealm some) ⟨.fresh objectRealm n, []⟩
          [.get get.did get.route] = some u ∧
        u.gets = [⟨get.did, get.route, stage⟩] ∧ get.stage.Like n stage ∧
        w.answer? 0 = u.answer? 0 := by
  obtain ⟨w, get, hrun, hget⟩ : ∃ w get,
      run (GetRun.step objectRealm some) ⟨.fresh objectRealm 0, []⟩ queryAndProtocol = some w ∧
        w.gets[0]? = some get := ⟨_, _, rfl, rfl⟩
  refine ⟨w, get, hrun, hget, readers_separate ?_ hrun hget⟩
  refine fun t ht => ⟨fun request hrequest => ?_, fun u hu => ⟨by simp [Stays, optionsRequest?],
    fun v hv => ⟨trivial, fun _ _ => ⟨fun request hrequest => ?_, trivial⟩⟩⟩⟩
  · obtain rfl := Option.some.inj hrequest
    decide +kernel
  · obtain rfl := Option.some.inj hrequest
    obtain rfl := Option.some.inj ht
    obtain rfl := Option.some.inj hu
    obtain rfl := Option.some.inj hv
    decide +kernel

end GetRun

end DwnServer
