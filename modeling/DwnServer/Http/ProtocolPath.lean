import DwnServer.Http.QueryOptions
import DwnServer.Js.Writes
import DwnServer.Library.Transition

/-!
# The filter of a read by protocol

`GET /:did/read/protocols/:protocol/*` writes the protocol and the path into the filter that the
parameters have built. Whatever they have built, the writes either fail, and then no query is
made, or give the filter these two properties. The path loses one slash only.
-/
namespace DwnServer

open Realm

variable {B : Type} [DecidableEq B] {realm : Realm B}

/-! ## The accessor `__proto__` while options are built -/

omit [DecidableEq B] in
theorem accessorNamed_memberObject (members : List (JsString × Value B)) :
    (memberObject realm members).AccessorNamed := by
  intro name hname
  rcases OrderedMap.get?_foldl_set _ _ hname with ⟨_, _, _, h⟩ | hempty
  · cases h
  · simp at hempty

omit [DecidableEq B] in
theorem accessorNamed_arrayObject (values : List (Value B)) :
    (arrayObject realm values).AccessorNamed := by
  intro name hname
  rcases OrderedMap.get?_foldl_set _ _ hname with ⟨_, _, _, h⟩ | hempty
  · cases h
  · simp at hempty

mutual

theorem keeps_materialise : ∀ j : Json,
    Script.Keeps Heap.AccessorsNamed (materialise realm j)
  | .null | .bool _ | .number _ | .string _ => Script.keeps_pure _
  | .array elements => Script.keeps_bind (keeps_materialiseElements elements) fun values =>
      keeps_make (accessorNamed_arrayObject values)
  | .object members => Script.keeps_bind (keeps_materialiseMembers members) fun members =>
      keeps_make (accessorNamed_memberObject members)

theorem keeps_materialiseElements : ∀ elements : List Json,
    Script.Keeps Heap.AccessorsNamed (materialise.materialiseElements realm elements)
  | [] => Script.keeps_pure _
  | j :: rest => Script.keeps_bind (keeps_materialise j) fun _ =>
      Script.keeps_bind (keeps_materialiseElements rest) fun _ => Script.keeps_pure _

theorem keeps_materialiseMembers : ∀ members : List (JsString × Json),
    Script.Keeps Heap.AccessorsNamed (materialise.materialiseMembers realm members)
  | [] => Script.keeps_pure _
  | (_, j) :: rest => Script.keeps_bind (keeps_materialise j) fun _ =>
      Script.keeps_bind (keeps_materialiseMembers rest) fun _ => Script.keeps_pure _

end

theorem keeps_beginOptions (request : OptionsRequest) :
    Script.Keeps Heap.AccessorsNamed (beginOptions realm request) := by
  refine Script.keeps_bind (keeps_materialise _) fun query => Script.keeps_bind ?_ fun options =>
    Script.keeps_pure _
  rcases request.route with _ | ⟨protocol, path⟩
  · exact keeps_make accessorNamed_emptyObject
  · simp only [newOptions]
    split_ifs
    · exact Script.keeps_fail
    · exact Script.keeps_bind (keeps_make accessorNamed_emptyObject) fun filter =>
        keeps_make (accessorNamed_memberObject _)

theorem keeps_nextLevel (obj : Value B) (key : JsString) :
    Script.Keeps Heap.AccessorsNamed (nextLevel realm obj key) := by
  refine Script.keeps_bind (keeps_get _ obj key) fun value => Script.keeps_bind ?_ fun level =>
    Script.keeps_bind (keeps_set obj key level) fun _ => Script.keeps_pure level
  unfold orEmpty
  split_ifs
  · exact Script.keeps_pure value
  · exact keeps_make accessorNamed_emptyObject

theorem keeps_addParams (query options : Value B) :
    Script.Keeps Heap.AccessorsNamed (addParams realm query options) := by
  refine Script.keeps_bind (Script.keeps_reads _) fun params =>
    Script.keeps_foldlM (fun _ param => ?_) () params
  exact Script.keeps_bind (Script.keeps_foldlM keeps_nextLevel options _) fun obj =>
    Script.keeps_bind (keeps_get _ query param) fun value => keeps_set obj _ value

theorem keeps_addProtocol (decodeProtocol : JsString → Option JsString) (options : Value B)
    (route : OptionsRoute) :
    Script.Keeps Heap.AccessorsNamed (addProtocol realm decodeProtocol options route) := by
  rcases route with _ | ⟨protocol, path⟩
  · exact Script.keeps_pure ()
  · simp only [addProtocol]
    cases decodeProtocol protocol with
    | none => exact Script.keeps_fail
    | some protocol =>
      exact Script.keeps_bind (keeps_get _ options _) fun filter =>
        Script.keeps_bind (keeps_set filter _ _) fun _ =>
          Script.keeps_bind (keeps_get _ options _) fun filter => keeps_set filter _ _

theorem keeps_buildOptions (decodeProtocol : JsString → Option JsString)
    (request : OptionsRequest) :
    Script.Keeps Heap.AccessorsNamed (buildOptions realm decodeProtocol request) :=
  Script.keeps_bind (keeps_beginOptions request) fun _ =>
    Script.keeps_bind (keeps_addParams _ _) fun _ =>
      Script.keeps_bind (keeps_addProtocol decodeProtocol _ _) fun _ => Script.keeps_pure _

/-! ## The filter that is issued -/

/-- A path without the slash at its start and the slash at its end. -/
def stripSlashes (path : JsString) : JsString :=
  let rest := if path.head? = some (unit '/') then path.tail else path
  if rest.getLast? = some (unit '/') then rest.dropLast else rest

/-- `queryOptions.filter`, as `RecordsQuery.create` finds it, has the protocol and the path. -/
def IssuesFilter (realm : Realm B) (options : Value B) (protocol path : JsString) (h : Heap B) :
    Prop :=
  ∃ filter, (realm.get options (js "filter") h).1 = some filter ∧
    (realm.get filter (js "protocol") h).1 = some (.string protocol) ∧
    (realm.get filter (js "protocolPath") h).1 = some (.string path)

/-- One slash is removed, so two stay one. -/
theorem replaceLeadTailSlash_eq_stripSlashes (path : JsString) :
    replaceLeadTailSlash path = stripSlashes path ↔
      ¬(path.head? = some (unit '/') ∧ path.tail.getLast? = some (unit '/')) := by
  unfold replaceLeadTailSlash stripSlashes
  by_cases hhead : path.head? = some (unit '/')
  · simp only [if_pos hhead]
    by_cases hlast : path.tail.getLast? = some (unit '/')
    · have hne : path.tail ≠ path.tail.dropLast := by
        intro heq
        have hlength := congrArg List.length heq
        rw [List.length_dropLast] at hlength
        have hempty : path.tail = [] := List.length_eq_zero_iff.mp (by omega)
        simp [hempty] at hlast
      simp [hhead, hlast, hne]
    · simp [hlast]
  · simp [hhead]

omit [DecidableEq B] in
theorem IssuesFilter.path_unique {options : Value B} {protocol protocol' path path' : JsString}
    {h : Heap B} (hissues : IssuesFilter realm options protocol path h)
    (hissues' : IssuesFilter realm options protocol' path' h) : path = path' := by
  obtain ⟨filter, hfilter, -, hpath⟩ := hissues
  obtain ⟨filter', hfilter', -, hpath'⟩ := hissues'
  obtain rfl := Option.some.inj (hfilter.symm.trans hfilter')
  have hvalue := Option.some.inj (hpath.symm.trans hpath')
  simpa [Value.string] using hvalue

/-- A write to the filter that goes through gives it the property, on the way that leaves every
read of another name as it was. -/
theorem written {filter x : Value B} {name : JsString} {h t : Heap B} (hdepth : 0 < realm.depth)
    (hh : h.AccessorsNamed) (hproto : name ≠ protoName) (hlength : name ≠ js "length")
    (hindex : arrayIndex? name = none) (hset : realm.set filter name x h = (some (), t)) :
    (realm.get filter name t).1 = some x ∧
      ∀ v name', name' ≠ name → (realm.get v name' t).1 = (realm.get v name' h).1 := by
  obtain ⟨r, o, o', rfl, ho, hdefine, rfl⟩ := store_of_set hh hproto hset
  rw [JsObject.define_of_named hlength hindex] at hdefine
  obtain rfl := Option.some.inj hdefine
  obtain ⟨enumerable, hown⟩ := o.own_put (Or.inl hlength) x
  refine ⟨?_, fun v name' hne => ?_⟩
  · rw [get_own_data hdepth (Heap.store_self ..) hown]
  · have hprototype : (o.put name x).prototype = o.prototype := rfl
    exact get_store_of_own_eq ho hprototype (o.own_put_of_ne hne x) v

omit [DecidableEq B] in
theorem get_eq_some {v x : Value B} {name : JsString} {h t : Heap B}
    (hget : realm.get v name h = (some x, t)) : (realm.get v name h).1 = some x ∧ t = h := by
  have hstate := realm.get_state v name h
  rw [hget] at hstate ⊢
  exact ⟨rfl, hstate⟩

/-- What a handler writes over the parameters is what the query is issued with. -/
theorem issuesFilter_of_addProtocol (hdepth : 0 < realm.depth)
    {decodeProtocol : JsString → Option JsString} {options : Value B} {protocol path : JsString}
    {h t : Heap B} (hh : h.AccessorsNamed)
    (hadd : addProtocol realm decodeProtocol options (.readProtocols protocol path) h =
      (some (), t)) :
    ∃ decoded, decodeProtocol protocol = some decoded ∧
      IssuesFilter realm options decoded (replaceLeadTailSlash path) t := by
  simp only [addProtocol] at hadd
  cases hdecode : decodeProtocol protocol with
  | none =>
    rw [hdecode] at hadd
    cases hadd
  | some decoded =>
    rw [hdecode] at hadd
    obtain ⟨filter, u, hget, hrest⟩ := Script.exists_of_bind hadd
    obtain ⟨hfilter, rfl⟩ := get_eq_some hget
    obtain ⟨⟨⟩, v, hset, hagain⟩ := Script.exists_of_bind hrest
    obtain ⟨filter', w, hget', hset'⟩ := Script.exists_of_bind hagain
    obtain ⟨hfilter', rfl⟩ := get_eq_some hget'
    obtain ⟨hprotocol, hothers⟩ :=
      written hdepth hh (by decide) (by decide) (by decide +kernel) hset
    have hw : w.AccessorsNamed := (keeps_set filter _ _).after hh hset
    -- the first write has left `filter` where it was
    have hsame : filter' = filter := by
      rw [hothers options _ (by decide)] at hfilter'
      exact Option.some.inj (hfilter'.symm.trans hfilter)
    subst hsame
    obtain ⟨hpath, hothers'⟩ :=
      written hdepth hw (by decide) (by decide) (by decide +kernel) hset'
    refine ⟨decoded, rfl, filter', ?_, ?_, hpath⟩
    · rw [hothers' options _ (by decide), hfilter']
    · rw [hothers' filter' _ (by decide), hprotocol]

section Process

variable {decodeProtocol : JsString → Option JsString} {n : ℕ} {requests : List OptionsRequest}
  {p : OptionsProcess B} {protocol path : JsString} {query : List (JsString × Json)}
  {options : Value B} {h : Heap B}

theorem issuesFilter_of_buildOptions (standard : realm.Standard)
    (hrun : Transition.run (OptionsProcess.step realm decodeProtocol)
      (OptionsProcess.fresh realm n) requests = some p)
    (hbuild : buildOptions realm decodeProtocol ⟨.readProtocols protocol path, query⟩ p.begin =
      (some options, h)) :
    ∃ decoded, decodeProtocol protocol = some decoded ∧
      IssuesFilter realm options decoded (replaceLeadTailSlash path) h := by
  have hp : p.begin.AccessorsNamed :=
    Transition.run_invariant (I := fun p : OptionsProcess B => p.begin.AccessorsNamed)
      (fun p request p' hp hstep => by
        obtain rfl := Option.some.inj hstep
        exact keeps_buildOptions decodeProtocol request p.begin hp)
      (show (OptionsProcess.fresh realm n).begin.AccessorsNamed from standard.start) hrun
  obtain ⟨⟨queryObject, options'⟩, s, hbegin, hrest⟩ := Script.exists_of_bind hbuild
  obtain ⟨⟨⟩, t, hparams, hfinish⟩ := Script.exists_of_bind hrest
  obtain ⟨⟨⟩, u, hadd, hreturn⟩ := Script.exists_of_bind hfinish
  obtain ⟨rfl, rfl⟩ : options' = options ∧ u = h := by simpa using hreturn
  have hs := (keeps_beginOptions _).after hp hbegin
  have ht := (keeps_addParams queryObject options').after hs hparams
  exact issuesFilter_of_addProtocol standard.depth_pos ht hadd

/-- In every process, a read by protocol that gets to its query issues it with the decoded
protocol, whatever the parameters, and with the path that has lost the first match of a slash. That
is the path without the slashes at its ends exactly if it does not have one at both. -/
theorem issuesFilter_iff (standard : realm.Standard)
    (hrun : Transition.run (OptionsProcess.step realm decodeProtocol)
      (OptionsProcess.fresh realm n) requests = some p)
    (hbuild : buildOptions realm decodeProtocol ⟨.readProtocols protocol path, query⟩ p.begin =
      (some options, h)) :
    ∃ decoded, decodeProtocol protocol = some decoded ∧
      IssuesFilter realm options decoded (replaceLeadTailSlash path) h ∧
      (IssuesFilter realm options decoded (stripSlashes path) h ↔
        ¬(path.head? = some (unit '/') ∧ path.tail.getLast? = some (unit '/'))) := by
  obtain ⟨decoded, hdecoded, hissues⟩ := issuesFilter_of_buildOptions standard hrun hbuild
  refine ⟨decoded, hdecoded, hissues, ?_⟩
  rw [← replaceLeadTailSlash_eq_stripSlashes]
  constructor
  · exact fun hboth => hissues.path_unique hboth
  · intro heq
    rwa [← heq]

end Process

/-- What `Convert.base64Url` makes of two protocols. -/
def decodeAb (protocol : JsString) : Option JsString :=
  if protocol = js "aHR0cDovL2E" then some (js "http://a")
  else if protocol = js "aHR0cDovL2I" then some (js "http://b") else none

/-- After another read, parameters that name the protocol and its path change neither. -/
theorem issuesFilter_foo : ∃ p options h,
    Transition.run (OptionsProcess.step objectRealm decodeAb)
      (OptionsProcess.fresh objectRealm 0)
      [⟨.readProtocols (js "aHR0cDovL2I") (js "bar"), []⟩] = some p ∧
    buildOptions objectRealm decodeAb
      ⟨.readProtocols (js "aHR0cDovL2E") (js "foo/"),
        [(js "filter", .object [(js "protocol", .string (js "x"))]),
          (js "filter.protocolPath", .string (js "y"))]⟩ p.begin = (some options, h) ∧
    IssuesFilter objectRealm options (js "http://a") (js "foo") h := by
  obtain ⟨p, hp⟩ : ∃ p, p = (⟨(buildOptions objectRealm decodeAb
      ⟨.readProtocols (js "aHR0cDovL2I") (js "bar"), []⟩
      (OptionsProcess.fresh objectRealm 0).begin).2, 1⟩ : OptionsProcess BuiltIn) := ⟨_, rfl⟩
  have hrun : Transition.run (OptionsProcess.step objectRealm decodeAb)
      (OptionsProcess.fresh objectRealm 0)
      [⟨.readProtocols (js "aHR0cDovL2I") (js "bar"), []⟩] = some p := by
    rw [hp]
    rfl
  obtain ⟨options, h, hbuild⟩ := Script.exists_of_isSome (s := p.begin)
    (x := buildOptions objectRealm decodeAb
      ⟨.readProtocols (js "aHR0cDovL2E") (js "foo/"),
        [(js "filter", .object [(js "protocol", .string (js "x"))]),
          (js "filter.protocolPath", .string (js "y"))]⟩) (by
      rw [hp]
      decide +kernel)
  refine ⟨p, options, h, hrun, hbuild, ?_⟩
  obtain ⟨decoded, hdecoded, -, hiff⟩ := issuesFilter_iff standard_objectRealm hrun hbuild
  obtain rfl : js "http://a" = decoded := Option.some.inj hdecoded
  exact hiff.mpr (by decide +kernel)

/-- A path with a slash at both ends keeps the trailing one. -/
theorem not_issuesFilter : ∃ options h,
    buildOptions objectRealm decodeAb ⟨.readProtocols (js "aHR0cDovL2E") (js "/foo/"), []⟩
      (OptionsProcess.fresh objectRealm 0).begin = (some options, h) ∧
    ¬IssuesFilter objectRealm options (js "http://a") (stripSlashes (js "/foo/")) h := by
  obtain ⟨options, h, hbuild⟩ := Script.exists_of_isSome
    (s := (OptionsProcess.fresh objectRealm 0).begin)
    (x := buildOptions objectRealm decodeAb
      ⟨.readProtocols (js "aHR0cDovL2E") (js "/foo/"), []⟩) (by decide +kernel)
  refine ⟨options, h, hbuild, fun hissues => ?_⟩
  have hrun : Transition.run (OptionsProcess.step objectRealm decodeAb)
      (OptionsProcess.fresh objectRealm 0) [] = some (OptionsProcess.fresh objectRealm 0) := rfl
  obtain ⟨decoded, -, hissues'⟩ := issuesFilter_of_buildOptions standard_objectRealm hrun hbuild
  exact absurd (hissues'.path_unique hissues) (by decide +kernel)

end DwnServer
