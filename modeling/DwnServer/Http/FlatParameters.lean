import DwnServer.Http.PartialOptions
import DwnServer.Library.PathTree

/-!
# Options from flat parameters

A nested object can be sent as one parameter for each of its leaves, named by the path to it. The
loop of `GET /:did/query` puts it together again, whichever order the parameters come in: what a
parameter finds of its path is a part of the object that earlier parameters have built, and it
adds the rest.
-/
namespace DwnServer

/-! ## The parameters of an object -/

/-- The name of the parameter for the leaf that a path leads to. -/
def paramName (path : List JsString) : JsString := [unit '.'].intercalate path

/-- One parameter for each leaf. -/
def flatParams (options : PathTree JsString JsString) : List (JsString × JsString) :=
  options.flatten.map fun e => (paramName e.1, e.2)

theorem splitOn_paramName {path : List JsString} (hdots : ∀ key ∈ path, unit '.' ∉ key)
    (hpath : path ≠ []) : (paramName path).splitOn (unit '.') = path :=
  List.splitOn_intercalate _ hdots hpath

theorem splitParam_paramName {keys : List JsString} {lastKey : JsString}
    (hdots : ∀ key ∈ keys ++ [lastKey], unit '.' ∉ key) :
    splitParam (paramName (keys ++ [lastKey])) = (keys, lastKey) := by
  simp [splitParam, splitOn_paramName hdots]

theorem paramName_inj {path path' : List JsString} (hdots : ∀ key ∈ path, unit '.' ∉ key)
    (hdots' : ∀ key ∈ path', unit '.' ∉ key) (hpath : path ≠ []) (hpath' : path' ≠ [])
    (h : paramName path = paramName path') : path = path' := by
  rw [← splitOn_paramName hdots hpath, h, splitOn_paramName hdots' hpath']

/-- An object that was there before the options and holds the parameters. -/
structure IsQuery (base : Heap BuiltIn) (query : Ref BuiltIn)
    (params : List (JsString × JsString)) : Prop where
  object : ∃ o, base.objects query = some o ∧ o.Plain ∧ ∀ name text, (name, text) ∈ params →
    o.properties.get? name = some (.data (.string text) true true)
  older : ∀ maker i, base.made ≤ i → query ≠ .made maker i

theorem Shape.Built.get_query {base h : Heap BuiltIn} {shape : Shape} {query : Ref BuiltIn}
    {params : List (JsString × JsString)} {name text : JsString} (hb : shape.Built base h)
    (hquery : IsQuery base query params) (hparam : (name, text) ∈ params) :
    objectRealm.get (.object query) name h = (some (.string text), h) := by
  obtain ⟨o, ho, hplain, hown⟩ := hquery.object
  exact get_own ((hb.kept query (hquery.older h.maker)).trans ho) hplain (hown name text hparam)

/-- A parameter adds its leaf and the nodes on the way to it. -/
theorem Shape.Built.addParam {base h : Heap BuiltIn} {shape : Shape} {query root : Ref BuiltIn}
    {params : List (JsString × JsString)} {keys : List JsString} {lastKey text : JsString}
    (hb : shape.Built base h) (hroot : shape [] = some (.node root))
    (hquery : IsQuery base query params)
    (hparam : (paramName (keys ++ [lastKey]), text) ∈ params)
    (hkeys : ∀ key ∈ keys ++ [lastKey], unit '.' ∉ key ∧ Uninherited base key)
    (hleaf : ∀ path, path <+: keys → ∀ text, shape path ≠ some (.leaf text))
    (hspot : shape (keys ++ [lastKey]) = none ∨ shape (keys ++ [lastKey]) = some (.leaf text)) :
    ∃ (shape' : Shape) (h' : Heap BuiltIn),
      addParam objectRealm (.object query) (.object root) (paramName (keys ++ [lastKey])) h =
        (some (), h') ∧
      shape'.Built base h' ∧ shape' [] = some (.node root) ∧
      (∀ path text', shape' path = some (.leaf text') ↔
        shape path = some (.leaf text') ∨ path = keys ++ [lastKey] ∧ text' = text) ∧
      ∀ path, (∃ r, shape' path = some (.node r)) ↔
        (∃ r, shape path = some (.node r)) ∨ path <+: keys := by
  obtain ⟨r, shape', h', hrun, hb', hr, hnodes, hothers, hstay⟩ := hb.walk hroot
    (fun key hkey => (hkeys key (List.mem_append_left _ hkey)).2) hleaf
  have hnot := Shape.Built.not_prefix_of_concat keys lastKey
  obtain ⟨o, ho, hplain, hown⟩ := hb'.object keys r hr
  have hspot' := (hothers _ hnot).symm ▸ hspot
  have hset : objectRealm.set (.object r) lastKey (.string text) h' =
      (some (), h'.store r (o.put lastKey (.string text))) := set_plain ho hplain <| by
    rcases hspot' with hnone | hsome
    · refine Or.inr ⟨?_, hb'.uninherited (hkeys lastKey (by simp)).2⟩
      rw [hown, hnone]
      rfl
    · refine Or.inl ⟨.string text, ?_⟩
      rw [hown, hsome]
      rfl
  refine ⟨_, _, ?_, hb'.putLeaf hr ho hspot', ?_, fun path text' => ?_, fun path => ?_⟩
  · have hsplit := splitParam_paramName fun key hkey => (hkeys key hkey).1
    rw [DwnServer.addParam, hsplit]
    simp only
    rw [Script.bind_of_some hrun, Script.bind_of_some (hb'.get_query hquery hparam), hset]
  · rw [Function.update_of_ne (by simp)]
    exact hstay [] root hroot
  · by_cases hpath : path = keys ++ [lastKey]
    · subst hpath
      rcases hspot with h | h <;> simp [Function.update_self, h, eq_comm]
    · rw [Function.update_of_ne hpath]
      by_cases hpre : path <+: keys
      · obtain ⟨r', hr'⟩ := hnodes path hpre
        simp [hr', hleaf path hpre, hpath]
      · simp [hothers path hpre, hpath]
  · by_cases hpath : path = keys ++ [lastKey]
    · subst hpath
      rcases hspot with h | h <;> simp [Function.update_self, h, hnot]
    · rw [Function.update_of_ne hpath]
      by_cases hpre : path <+: keys
      · simp [hnodes path hpre, hpre]
      · simp [hothers path hpre, hpre]

/-! ## All of the parameters -/

/-- The shape has the leaves whose parameters are done, and the nodes on the way to them. -/
structure Shape.Shows (shape : Shape) (options : PathTree JsString JsString)
    (root : Ref BuiltIn) (done : List JsString) : Prop where
  root : shape [] = some (.node root)
  leaf : ∀ path text, shape path = some (.leaf text) ↔
    (path, text) ∈ options.flatten ∧ paramName path ∈ done
  node : ∀ path, (∃ r, shape path = some (.node r)) ↔ path = [] ∨ ∃ key rest text,
    (path ++ key :: rest, text) ∈ options.flatten ∧ paramName (path ++ key :: rest) ∈ done

/-- Options that flat parameters can stand for. -/
structure Flattens (base : Heap BuiltIn) (options : PathTree JsString JsString) : Prop where
  proper : options.Proper
  node : ∃ members, options = .node members
  keys : ∀ key ∈ options.keys, unit '.' ∉ key ∧ Uninherited base key

namespace Flattens

variable {base : Heap BuiltIn} {options : PathTree JsString JsString} {path : List JsString}
  {text : JsString}

theorem path_ne_nil (ho : Flattens base options) (h : (path, text) ∈ options.flatten) :
    path ≠ [] := by
  rintro rfl
  obtain ⟨members, rfl⟩ := ho.node
  have hleaf := (PathTree.mem_flatten ho.proper).mp h
  cases hleaf

theorem dotless (ho : Flattens base options) (h : (path, text) ∈ options.flatten) :
    ∀ key ∈ path, unit '.' ∉ key := fun key hkey =>
  (ho.keys key (PathTree.mem_keys_of_mem_flatten h key hkey)).1

theorem path_unique (ho : Flattens base options) (h : (path, text) ∈ options.flatten)
    {path' : List JsString} {text' : JsString} (h' : (path', text') ∈ options.flatten)
    (hname : paramName path' = paramName path) : path' = path :=
  paramName_inj (ho.dotless h') (ho.dotless h) (ho.path_ne_nil h') (ho.path_ne_nil h) hname

variable {h : Heap BuiltIn} {shape : Shape} {query root : Ref BuiltIn} {done : List JsString}

/-- One more parameter. -/
theorem addParam (ho : Flattens base options) (hquery : IsQuery base query (flatParams options))
    (hb : shape.Built base h) (hshows : shape.Shows options root done)
    (hmem : (path, text) ∈ options.flatten) :
    ∃ (shape' : Shape) (h' : Heap BuiltIn),
      addParam objectRealm (.object query) (.object root) (paramName path) h = (some (), h') ∧
      shape'.Built base h' ∧ shape'.Shows options root (paramName path :: done) := by
  obtain ⟨keys, lastKey, rfl⟩ :=
    (List.eq_nil_or_concat' path).resolve_left (ho.path_ne_nil hmem)
  have hleaf : ∀ path, path <+: keys → ∀ text, shape path ≠ some (.leaf text) := by
    rintro path ⟨rest, rfl⟩ text' hsome
    obtain ⟨key, rest', hrest⟩ := List.exists_cons_of_ne_nil (List.concat_ne_nil lastKey rest)
    have hlisted := ((hshows.leaf _ _).mp hsome).1
    refine PathTree.not_mem_flatten_append ho.proper hlisted key rest' text ?_
    rw [← hrest]
    simpa using hmem
  have hspot : shape (keys ++ [lastKey]) = none ∨
      shape (keys ++ [lastKey]) = some (.leaf text) := by
    cases hsome : shape (keys ++ [lastKey]) with
    | none => exact Or.inl rfl
    | some spot =>
      cases spot with
      | leaf text' =>
        rw [PathTree.leaf_unique ho.proper hmem ((hshows.leaf _ _).mp hsome).1]
        exact Or.inr rfl
      | node r =>
        rcases (hshows.node _).mp ⟨r, hsome⟩ with hnil | ⟨key, rest, text', hbelow, -⟩
        · exact absurd hnil (ho.path_ne_nil hmem)
        · exact absurd hbelow (PathTree.not_mem_flatten_append ho.proper hmem key rest text')
  obtain ⟨shape', h', hrun, hb', hroot, hleaves, hnodes⟩ := hb.addParam hshows.root hquery
    (List.mem_map_of_mem hmem)
    (fun key hkey => ho.keys key (PathTree.mem_keys_of_mem_flatten hmem key hkey)) hleaf hspot
  refine ⟨shape', h', hrun, hb', hroot, fun path text' => ?_, fun path => ?_⟩
  · rw [hleaves, hshows.leaf, List.mem_cons]
    constructor
    · rintro (⟨hold, hdone⟩ | ⟨rfl, rfl⟩)
      · exact ⟨hold, Or.inr hdone⟩
      · exact ⟨hmem, Or.inl rfl⟩
    · rintro ⟨hold, hname | hdone⟩
      · obtain rfl := ho.path_unique hmem hold hname
        exact Or.inr ⟨rfl, PathTree.leaf_unique ho.proper hmem hold⟩
      · exact Or.inl ⟨hold, hdone⟩
  · rw [hnodes, hshows.node]
    constructor
    · rintro ((rfl | ⟨key, rest, text', hbelow, hdone⟩) | ⟨rest, rfl⟩)
      · exact Or.inl rfl
      · exact Or.inr ⟨key, rest, text', hbelow, List.mem_cons_of_mem _ hdone⟩
      · obtain ⟨key, rest', hrest⟩ := List.exists_cons_of_ne_nil (List.concat_ne_nil lastKey rest)
        rw [List.append_assoc, hrest] at hmem ⊢
        exact Or.inr ⟨key, rest', text, hmem, List.mem_cons_self⟩
    · rintro (rfl | ⟨key, rest, text', hbelow, hdone⟩)
      · exact Or.inl (Or.inl rfl)
      · rcases List.mem_cons.mp hdone with hname | hdone
        · have hpath := ho.path_unique hmem hbelow hname
          have hpre : path <+: keys ++ [lastKey] := ⟨key :: rest, hpath⟩
          refine Or.inr ((List.prefix_concat_iff.mp hpre).resolve_left ?_)
          rintro rfl
          simp at hpath
        · exact Or.inl (Or.inr ⟨key, rest, text', hbelow, hdone⟩)

/-- The loop over the parameters, in any order. -/
theorem foldlM_addParam (ho : Flattens base options)
    (hquery : IsQuery base query (flatParams options)) {order : List JsString}
    (horder : ∀ name ∈ order, ∃ path text, (path, text) ∈ options.flatten ∧
      paramName path = name)
    (hb : shape.Built base h) (hshows : shape.Shows options root done) :
    ∃ (shape' : Shape) (h' : Heap BuiltIn),
      order.foldlM (fun _ param => DwnServer.addParam objectRealm (.object query) (.object root)
        param) () h = (some (), h') ∧
      shape'.Built base h' ∧ shape'.Shows options root (order.reverse ++ done) := by
  induction order generalizing shape h done with
  | nil => exact ⟨shape, h, rfl, hb, hshows⟩
  | cons name order ih =>
    obtain ⟨⟨path, text, hmem, rfl⟩, hrest⟩ := List.forall_mem_cons.mp horder
    obtain ⟨shape₁, h₁, hrun, hb₁, hshows₁⟩ := ho.addParam hquery hb hshows hmem
    obtain ⟨shape₂, h₂, hrun₂, hb₂, hshows₂⟩ := ih hrest hb₁ hshows₁
    refine ⟨shape₂, h₂, ?_, hb₂, by simpa using hshows₂⟩
    rw [List.foldlM_cons, Script.bind_of_some hrun]
    exact hrun₂

end Flattens

/-- The value is the object that the tree describes: an ordinary object at each node, with the
children of the node as its properties and with no others. -/
inductive IsOptions (h : Heap BuiltIn) : Value BuiltIn → PathTree JsString JsString → Prop
  | leaf (text : JsString) : IsOptions h (.string text) (.leaf text)
  | node {r : Ref BuiltIn} {o : JsObject BuiltIn} {v : JsString → Value BuiltIn}
      {children : List (JsString × PathTree JsString JsString)} (ho : h.objects r = some o)
      (hplain : o.Plain)
      (hown : ∀ key, o.properties.get? key =
        (PathTree.child? children key).map fun _ => .data (v key) true true)
      (hchildren : ∀ key t, PathTree.child? children key = some t → IsOptions h (v key) t) :
      IsOptions h (.object r) (.node children)

namespace Flattens

variable {base h : Heap BuiltIn} {options : PathTree JsString JsString} {shape : Shape}
  {root : Ref BuiltIn} {done : List JsString} {path : List JsString} {spot : Spot}

/-- When all parameters are done, the shape leads below the root where the tree does. -/
theorem exists_spot (ho : Flattens base options) (hshows : shape.Shows options root done)
    (hall : ∀ path text, (path, text) ∈ options.flatten → paramName path ∈ done)
    (path : List JsString) (key : JsString) :
    (∃ spot, shape (path ++ [key]) = some spot) ↔ ∃ t, options.at? (path ++ [key]) = some t := by
  constructor
  · rintro ⟨spot, hspot⟩
    cases spot with
    | leaf text =>
      exact ⟨_, (PathTree.mem_flatten ho.proper).mp ((hshows.leaf _ _).mp hspot).1⟩
    | node r =>
      rcases (hshows.node _).mp ⟨r, hspot⟩ with hnil | ⟨key', rest, text, hbelow, -⟩
      · simp at hnil
      · obtain ⟨children, hnode, -⟩ :=
          (PathTree.exists_mem_flatten_append ho.proper).mp ⟨key', rest, text, hbelow⟩
        exact ⟨_, hnode⟩
  · rintro ⟨t, ht⟩
    cases t with
    | leaf text =>
      have hmem := (PathTree.mem_flatten ho.proper).mpr ht
      exact ⟨_, (hshows.leaf _ _).mpr ⟨hmem, hall _ _ hmem⟩⟩
    | node children =>
      have hne : children ≠ [] := fun h => ho.proper.ne_empty ht (congrArg _ h)
      obtain ⟨key', rest, text, hbelow⟩ :=
        (PathTree.exists_mem_flatten_append ho.proper).mpr ⟨children, ht, hne⟩
      obtain ⟨r, hr⟩ := (hshows.node _).mpr (Or.inr ⟨key', rest, text, hbelow, hall _ _ hbelow⟩)
      exact ⟨_, hr⟩

theorem isOptions (ho : Flattens base options) (hb : shape.Built base h)
    (hshows : shape.Shows options root done)
    (hall : ∀ path text, (path, text) ∈ options.flatten → paramName path ∈ done)
    (t : PathTree JsString JsString) (ht : options.at? path = some t)
    (hspot : shape path = some spot) : IsOptions h spot.value t := by
  induction t using PathTree.ind generalizing path spot with
  | leaf text =>
    have hmem := (PathTree.mem_flatten ho.proper).mpr ht
    rw [(hshows.leaf path text).mpr ⟨hmem, hall path text hmem⟩] at hspot
    cases hspot
    exact .leaf text
  | node children ih =>
    cases spot with
    | leaf text =>
      rw [(PathTree.mem_flatten ho.proper).mp ((hshows.leaf _ _).mp hspot).1] at ht
      cases ht
    | node r =>
      obtain ⟨o, hobject, hplain, hown⟩ := hb.object path r hspot
      have hspots := ho.exists_spot hshows hall path
      simp only [PathTree.at?_concat ht] at hspots
      refine .node (v := fun key => ((shape (path ++ [key])).map Spot.value).getD .undefined)
        hobject hplain (fun key => ?_) fun key t hchild => ?_
      · rw [hown]
        cases hchild : PathTree.child? children key with
        | none =>
          have hnone : ¬ ∃ spot, shape (path ++ [key]) = some spot := by simp [hspots, hchild]
          rw [Option.eq_none_iff_forall_ne_some.mpr fun spot h => hnone ⟨spot, h⟩]
          rfl
        | some t =>
          obtain ⟨spot, hspot'⟩ := (hspots key).mpr ⟨t, hchild⟩
          rw [hspot']
          rfl
      · obtain ⟨spot, hspot'⟩ := (hspots key).mpr ⟨t, hchild⟩
        have hmem := (PathTree.child?_eq_some (ho.proper.at? ht).1).mp hchild
        rw [hspot']
        exact ih _ hmem ((PathTree.at?_concat ht key).trans hchild) hspot'

end Flattens

/-! ## The query of a request -/

theorem materialiseMembers_strings (params : List (JsString × JsString)) (h : Heap BuiltIn) :
    materialise.materialiseMembers objectRealm (params.map fun e => (e.1, .string e.2)) h =
      (some (params.map fun e => (e.1, .string e.2)), h) := by
  induction params with
  | nil => rfl
  | cons e params ih =>
    have hvalue : materialise objectRealm (.string e.2) h = (some (.string e.2), h) := by
      rw [materialise]
      rfl
    rw [List.map_cons, materialise.materialiseMembers, Script.bind_of_some hvalue,
      Script.bind_of_some ih]
    rfl

/-- The heap once `req.query` is on it. -/
def OptionsProcess.withQuery (p : OptionsProcess BuiltIn) (params : List (JsString × JsString)) :
    Heap BuiltIn :=
  { p.begin.store (.made p.served 0)
      (memberObject objectRealm (params.map fun e => (e.1, .string e.2))) with made := 1 }

/-- The heap before the first parameter is added. -/
def OptionsProcess.withOptions (p : OptionsProcess BuiltIn)
    (params : List (JsString × JsString)) : Heap BuiltIn :=
  { (p.withQuery params).store (.made p.served 1) objectRealm.emptyObject with made := 2 }

theorem beginOptions_query (p : OptionsProcess BuiltIn) (params : List (JsString × JsString)) :
    beginOptions objectRealm ⟨.query, params.map fun e => (e.1, .string e.2)⟩ p.begin =
      (some (.object (.made p.served 0), .object (.made p.served 1)), p.withOptions params) := by
  have hquery : materialise objectRealm
      (.object (params.map fun e => (e.1, Json.string e.2))) p.begin =
        (some (.object (.made p.served 0)), p.withQuery params) := by
    rw [materialise, Script.bind_of_some (materialiseMembers_strings params p.begin)]
    rfl
  rw [beginOptions, Script.bind_of_some hquery]
  rfl

namespace Flattens

variable {p : OptionsProcess BuiltIn} {options : PathTree JsString JsString}
  {params : List (JsString × JsString)}

theorem withQuery (ho : Flattens p.heap options) (params : List (JsString × JsString)) :
    Flattens (p.withQuery params) options where
  proper := ho.proper
  node := ho.node
  keys := ho.keys

/-- Each parameter of an object has one value. -/
theorem value_unique {base : Heap BuiltIn} (ho : Flattens base options) {name text text' : JsString}
    (h : (name, text) ∈ flatParams options) (h' : (name, text') ∈ flatParams options) :
    text' = text := by
  obtain ⟨⟨path, _⟩, hmem, heq⟩ := List.mem_map.mp h
  obtain ⟨⟨path', _⟩, hmem', heq'⟩ := List.mem_map.mp h'
  obtain ⟨rfl, rfl⟩ := Prod.mk.inj heq
  obtain ⟨hname, rfl⟩ := Prod.mk.inj heq'
  obtain rfl := ho.path_unique hmem hmem' hname
  exact PathTree.leaf_unique ho.proper hmem hmem'

theorem isQuery (ho : Flattens p.heap options) (hparams : params.Perm (flatParams options)) :
    IsQuery (p.withQuery params) (.made p.served 0) (flatParams options) where
  object := by
    refine ⟨_, Heap.store_self .., ⟨rfl, rfl⟩, fun name text hmem => ?_⟩
    refine OrderedMap.get?_foldl_set_of_mem (Or.inl ⟨(name, .string text), ?_, rfl⟩) ?_
    · exact List.mem_map.mpr ⟨(name, text), hparams.mem_iff.mpr hmem, rfl⟩
    · rintro m hm rfl
      obtain ⟨e, he, rfl⟩ := List.mem_map.mp hm
      rw [ho.value_unique hmem (hparams.mem_iff.mp he)]
  older _ i hi heq := by
    have := (Ref.made.inj heq).2
    have : 1 ≤ i := hi
    omega

end Flattens

/-- An object that nothing has been added to. -/
def Shape.start (root : Ref BuiltIn) : Shape
  | [] => some (.node root)
  | _ :: _ => none

namespace Shape

theorem start_eq_some {root : Ref BuiltIn} {path : List JsString} {spot : Spot} :
    start root path = some spot ↔ path = [] ∧ spot = .node root := by
  cases path <;> simp [start, eq_comm]

theorem built_start (p : OptionsProcess BuiltIn) (params : List (JsString × JsString)) :
    (start (.made p.served 1)).Built (p.withQuery params) (p.withOptions params) where
  object path r hr := by
    obtain ⟨rfl, hroot⟩ := start_eq_some.mp hr
    obtain rfl := Spot.node.inj hroot
    exact ⟨_, Heap.store_self .., ⟨rfl, rfl⟩, fun _ => rfl⟩
  closed path key spot hspot := by simp [start_eq_some] at hspot
  distinct path path' r hr hr' := (start_eq_some.mp hr).1.trans (start_eq_some.mp hr').1.symm
  made path r hr :=
    ⟨1, Nat.le_refl 1, Nat.lt_succ_self 1, Spot.node.inj (start_eq_some.mp hr).2⟩
  kept r hr := Heap.store_of_ne (hr 1 (Nat.le_refl 1))
  grown := Nat.le_succ 1

theorem shows_start (options : PathTree JsString JsString) (root : Ref BuiltIn) :
    (start root).Shows options root [] where
  root := rfl
  leaf path text := by simp [start_eq_some]
  node path := by simp [start_eq_some]

end Shape

/-! ## The options are what was flattened -/

/-- The loop over the names of an object's parameters, whatever their order, ends with
the object. -/
theorem Flattens.run {p : OptionsProcess BuiltIn} {options : PathTree JsString JsString}
    {params : List (JsString × JsString)} {order : List JsString}
    (ho : Flattens p.heap options) (hparams : params.Perm (flatParams options))
    (horder : ∀ name, name ∈ order ↔ name ∈ params.map Prod.fst) :
    ∃ h, order.foldlM (fun _ param => DwnServer.addParam objectRealm (.object (.made p.served 0))
        (.object (.made p.served 1)) param) () (p.withOptions params) = (some (), h) ∧
      IsOptions h (.object (.made p.served 1)) options := by
  have hnames : ∀ name, name ∈ order ↔
      ∃ path text, (path, text) ∈ options.flatten ∧ paramName path = name := by
    intro name
    rw [horder, (hparams.map Prod.fst).mem_iff]
    simp [flatParams]
  have ho' := ho.withQuery params
  obtain ⟨shape, h, hrun, hb, hshows⟩ := ho'.foldlM_addParam (ho.isQuery hparams)
    (fun name hname => (hnames name).mp hname) (Shape.built_start p params)
    (Shape.shows_start options (.made p.served 1))
  refine ⟨h, hrun, ho'.isOptions hb hshows (fun path text hmem => ?_) options (options.at?_nil)
    hshows.root⟩
  simpa using (hnames _).mpr ⟨path, text, hmem, rfl⟩

/-- The loop of `GET /:did/query` rebuilds an object from its flat parameters, in every order in
which they can come. -/
theorem rebuilds_options {p : OptionsProcess BuiltIn} {options : PathTree JsString JsString}
    {params : List (JsString × JsString)} {order : List JsString}
    (ho : Flattens p.heap options) (hparams : params.Perm (flatParams options))
    (horder : order.Perm (params.map Prod.fst)) :
    ∃ query root h₀ h,
      beginOptions objectRealm ⟨.query, params.map fun e => (e.1, .string e.2)⟩ p.begin =
        (some (query, root), h₀) ∧
      order.foldlM (fun _ param => addParam objectRealm query root param) () h₀ = (some (), h) ∧
      IsOptions h root options := by
  obtain ⟨h, hrun, hbuilt⟩ := ho.run hparams fun name => horder.mem_iff
  exact ⟨_, _, _, h, beginOptions_query p params, hrun, hbuilt⟩

/-- `{ filter: { protocol, protocolPath }, dateSort }`. -/
def nestedOptions : PathTree JsString JsString :=
  .node [(js "filter", .node [(js "protocol", .leaf (js "foo")),
      (js "protocolPath", .leaf (js "bar"))]),
    (js "dateSort", .leaf (js "createdAscending"))]

theorem flattens_nestedOptions : Flattens objectRealm.start nestedOptions where
  proper := by
    simp only [nestedOptions, PathTree.Proper, PathTree.Proper.ProperChildren]
    exact ⟨by decide, by simp, ⟨by decide, by simp⟩, by simp⟩
  node := ⟨_, rfl⟩
  keys := by
    have hkeys : ∀ key ∈ nestedOptions.keys,
        unit '.' ∉ key ∧ key ∉ objectPrototypeFunctions ∧ key ≠ protoName := by decide
    exact fun key hkey => ⟨(hkeys key hkey).1, uninherited_start.mpr (hkeys key hkey).2⟩

theorem rebuilds_nestedOptions : ∃ query root h₀ h,
    beginOptions objectRealm
        ⟨.query, (flatParams nestedOptions).map fun e => (e.1, .string e.2)⟩
        (OptionsProcess.fresh objectRealm 0).begin = (some (query, root), h₀) ∧
      ((flatParams nestedOptions).map Prod.fst).reverse.foldlM
        (fun _ param => addParam objectRealm query root param) () h₀ = (some (), h) ∧
      IsOptions h root nestedOptions :=
  rebuilds_options flattens_nestedOptions (List.Perm.refl _) (List.reverse_perm _)

end DwnServer
