import DwnServer.Http.QueryOptions
import DwnServer.Js.Writes

/-!
# Options that are partly built

Each parameter of `GET /:did/query` follows the path in its name from the options object, through
the objects that earlier parameters have put there, and makes those that are missing. The shape
of the options says what each path leads to so far. A path that leads to an object leads to the
same one for good, and a write changes what one path leads to and nothing else.
-/
namespace DwnServer

/-! ## Objects that `{}` made -/

/-- `Object.prototype`, which itself inherits nothing, has nothing under the name. -/
def Uninherited (h : Heap BuiltIn) (name : JsString) : Prop :=
  ∃ o, h.objects (.builtin .objectPrototype) = some o ∧ o.prototype = none ∧ o.own name = none

/-- At the start of the process. -/
theorem uninherited_start {name : JsString} : Uninherited objectRealm.start name ↔
    name ∉ objectPrototypeFunctions ∧ name ≠ protoName := by
  have hown : (builtInObject .objectPrototype).own name =
      (builtInObject .objectPrototype).properties.get? name := rfl
  constructor
  · rintro ⟨o, ho, -, hnone⟩
    obtain rfl := Option.some.inj ho
    rw [show objectRealm.builtins .objectPrototype = builtInObject .objectPrototype from rfl,
      hown, builtInObject, OrderedMap.get?_set] at hnone
    split_ifs at hnone with hproto
    refine ⟨fun hname => ?_, hproto⟩
    rw [OrderedMap.get?_foldl_set_of_mem (Or.inl ⟨name, hname, rfl⟩) <| by
      rintro a - rfl
      rfl] at hnone
    cases hnone
  · rintro ⟨hname, hproto⟩
    refine ⟨_, rfl, rfl, hown.trans ?_⟩
    rw [builtInObject, OrderedMap.get?_set, if_neg hproto]
    refine Option.eq_none_iff_forall_ne_some.mpr fun p hp => ?_
    rcases OrderedMap.get?_foldl_set _ _ hp with ⟨a, ha, rfl, -⟩ | hempty
    · exact hname ha
    · simp at hempty

/-- An ordinary object that inherits from `Object.prototype`. -/
structure JsObject.Plain (o : JsObject BuiltIn) : Prop where
  prototype : o.prototype = some (.builtin .objectPrototype)
  length : o.length = none

section Plain

variable {h : Heap BuiltIn} {r : Ref BuiltIn} {o : JsObject BuiltIn} {name : JsString}
  {x : Value BuiltIn}

theorem lookup_own (ho : h.objects r = some o) (hplain : o.Plain) {p : Property BuiltIn}
    (hp : o.properties.get? name = some p) : objectRealm.lookup h (.object r) name = some p :=
  Realm.lookup_of_own (by decide) ho ((JsObject.own_of_ordinary hplain.length name).trans hp)

theorem lookup_absent (ho : h.objects r = some o) (hplain : o.Plain)
    (hp : o.properties.get? name = none) (hname : Uninherited h name) :
    objectRealm.lookup h (.object r) name = none := by
  obtain ⟨parent, hparent, hroot, hown⟩ := hname
  have hdepth : objectRealm.depth = 14 + 1 + 1 := rfl
  rw [Realm.lookup, hdepth, Heap.find]
  simp only [ho, JsObject.own_of_ordinary hplain.length, hp, hplain.prototype]
  rw [Heap.find]
  simp only [hparent, hown, hroot]

theorem get_own (ho : h.objects r = some o) (hplain : o.Plain)
    (hp : o.properties.get? name = some (.data x true true)) :
    objectRealm.get (.object r) name h = (some x, h) := by
  have hown : o.own name = some (.data x true true) := by
    rw [JsObject.own_of_ordinary hplain.length, hp]
  exact Realm.get_own_data (by decide) ho hown

theorem get_absent (ho : h.objects r = some o) (hplain : o.Plain)
    (hp : o.properties.get? name = none) (hname : Uninherited h name) :
    objectRealm.get (.object r) name h = (some .undefined, h) := by
  rw [Realm.get_object, lookup_absent ho hplain hp hname]
  rfl

/-- A write to an own property, or to one that nothing stands under, is one to the object. -/
theorem set_plain (ho : h.objects r = some o) (hplain : o.Plain)
    (hp : (∃ y, o.properties.get? name = some (.data y true true)) ∨
      o.properties.get? name = none ∧ Uninherited h name) :
    objectRealm.set (.object r) name x h = (some (), h.store r (o.put name x)) := by
  apply Realm.set_writable objectRealm ho hplain.length
  rcases hp with ⟨y, hown⟩ | ⟨habsent, hname⟩
  · exact Or.inr ⟨y, true, lookup_own ho hplain hown⟩
  · exact Or.inl (lookup_absent ho hplain habsent hname)

/-- A write leaves the other properties as they are, and makes one that `{}` can enumerate. -/
theorem get?_put (hp : (∃ y, o.properties.get? name = some (.data y true true)) ∨
    o.properties.get? name = none) (name' : JsString) :
    (o.put name x).properties.get? name' =
      if name' = name then some (.data x true true) else o.properties.get? name' := by
  have henumerable : ((o.properties.get? name).map Property.enumerable).getD true = true := by
    rcases hp with ⟨y, hown⟩ | habsent
    · rw [hown]
      rfl
    · rw [habsent]
      rfl
  rw [JsObject.put, OrderedMap.get?_set, henumerable]

theorem orEmpty_undefined (h : Heap BuiltIn) : orEmpty objectRealm .undefined h =
    (some (.object (.made h.maker h.made)),
      { h.store (.made h.maker h.made) objectRealm.emptyObject with made := h.made + 1 }) :=
  rfl

end Plain

/-! ## Partly built objects -/

/-- What a path leads to while the object is built. -/
inductive Spot where
  | leaf (text : JsString)
  | node (r : Ref BuiltIn)

def Spot.value : Spot → Value BuiltIn
  | .leaf text => .string text
  | .node r => .object r

abbrev Shape := List JsString → Option Spot

/-- The nodes of the shape are objects on the heap, each of its own, with nothing but what the
shape has below them. They were made since `base`, and nothing else has changed since. -/
structure Shape.Built (base : Heap BuiltIn) (shape : Shape) (h : Heap BuiltIn) : Prop where
  object : ∀ path r, shape path = some (.node r) → ∃ o, h.objects r = some o ∧ o.Plain ∧
    ∀ key, o.properties.get? key =
      (shape (path ++ [key])).map fun spot => .data spot.value true true
  closed : ∀ path key spot, shape (path ++ [key]) = some spot → ∃ r, shape path = some (.node r)
  distinct : ∀ path path' r, shape path = some (.node r) → shape path' = some (.node r) →
    path = path'
  made : ∀ path r, shape path = some (.node r) →
    ∃ i, base.made ≤ i ∧ i < h.made ∧ r = .made h.maker i
  kept : ∀ r, (∀ i, base.made ≤ i → r ≠ .made h.maker i) → h.objects r = base.objects r
  grown : base.made ≤ h.made

namespace Shape.Built

variable {base h : Heap BuiltIn} {shape : Shape} {path : List JsString} {key : JsString}
  {r : Ref BuiltIn} {o : JsObject BuiltIn} {spot : Spot}

theorem uninherited (hb : shape.Built base h) (hname : Uninherited base key) :
    Uninherited h key := by
  obtain ⟨parent, hparent, hroot, hown⟩ := hname
  exact ⟨parent, (hb.kept _ fun _ _ h => by cases h).trans hparent, hroot, hown⟩

theorem kept_store (hb : shape.Built base h) (hr : shape path = some (.node r)) {r' : Ref BuiltIn}
    (hr' : ∀ i, base.made ≤ i → r' ≠ .made h.maker i) :
    (h.store r o).objects r' = base.objects r' := by
  obtain ⟨i, hi, -, rfl⟩ := hb.made path r hr
  rw [Heap.store_of_ne (hr' i hi), hb.kept r' hr']

/-- Writing again what a path leads to already. -/
theorem rewrite (hb : shape.Built base h) (hr : shape path = some (.node r))
    (ho : h.objects r = some o) (hspot : shape (path ++ [key]) = some spot) :
    shape.Built base (h.store r (o.put key spot.value)) where
  object path' r' hr' := by
    obtain ⟨o', ho', hplain, hown⟩ := hb.object path' r' hr'
    by_cases hsame : r' = r
    · subst hsame
      obtain rfl := Option.some.inj (ho.symm.trans ho')
      obtain rfl := hb.distinct path path' r' hr hr'
      refine ⟨_, Heap.store_self .., ⟨hplain.prototype, hplain.length⟩, fun key' => ?_⟩
      rw [get?_put (Or.inl ⟨spot.value, by rw [hown, hspot]; rfl⟩)]
      split_ifs with hkey
      · rw [hkey, hspot]
        rfl
      · exact hown key'
    · exact ⟨o', (Heap.store_of_ne hsame).trans ho', hplain, hown⟩
  closed := hb.closed
  distinct := hb.distinct
  made := hb.made
  kept _ := hb.kept_store hr
  grown := hb.grown

/-- Writing what a path does not lead to yet: a leaf, or a new object. -/
theorem write (hb : shape.Built base h) (hr : shape path = some (.node r))
    (ho : h.objects r = some o) (hnone : shape (path ++ [key]) = none)
    (hnew : ∀ r', spot = .node r' → h.objects r' = some objectRealm.emptyObject ∧
      (∀ path', shape path' ≠ some (.node r')) ∧
      ∃ i, base.made ≤ i ∧ i < h.made ∧ r' = .made h.maker i) :
    Shape.Built base (Function.update shape (path ++ [key]) (some spot))
      (h.store r (o.put key spot.value)) := by
  have hnode : ∀ {path' r'}, Function.update shape (path ++ [key]) (some spot) path' =
      some (.node r') → path' = path ++ [key] ∧ spot = .node r' ∨
        path' ≠ path ++ [key] ∧ shape path' = some (.node r') := by
    intro path' r' h'
    by_cases hsame : path' = path ++ [key]
    · rw [hsame, Function.update_self] at h'
      exact Or.inl ⟨hsame, Option.some.inj h'⟩
    · rw [Function.update_of_ne hsame] at h'
      exact Or.inr ⟨hsame, h'⟩
  refine ⟨fun path' r' h' => ?_, fun path' key' spot' h' => ?_, fun path' path'' r' h' h'' => ?_,
    fun path' r' h' => ?_, fun _ => hb.kept_store hr, hb.grown⟩
  · rcases hnode h' with ⟨rfl, hspot⟩ | ⟨hne, hold⟩
    · -- the new object is empty, and nothing is below it
      obtain ⟨hempty, hfresh, -⟩ := hnew r' hspot
      have hother : r' ≠ r := by
        rintro rfl
        exact hfresh path hr
      refine ⟨_, (Heap.store_of_ne hother).trans hempty, ⟨rfl, rfl⟩, fun key' => ?_⟩
      have hbelow : shape (path ++ [key] ++ [key']) = none := by
        by_contra hsome
        obtain ⟨spot', hspot'⟩ := Option.ne_none_iff_exists'.mp hsome
        obtain ⟨r'', hr''⟩ := hb.closed _ _ _ hspot'
        rw [hnone] at hr''
        cases hr''
      rw [Function.update_of_ne (by simp), hbelow]
      rfl
    · obtain ⟨o', ho', hplain, hown⟩ := hb.object path' r' hold
      by_cases hsame : r' = r
      · subst hsame
        obtain rfl := Option.some.inj (ho.symm.trans ho')
        obtain rfl := hb.distinct path path' r' hr hold
        refine ⟨_, Heap.store_self .., ⟨hplain.prototype, hplain.length⟩, fun key' => ?_⟩
        rw [get?_put (Or.inr (by rw [hown, hnone]; rfl))]
        split_ifs with hkey
        · rw [hkey, Function.update_self]
          rfl
        · rw [Function.update_of_ne (by simpa using hkey)]
          exact hown key'
      · refine ⟨o', (Heap.store_of_ne hsame).trans ho', hplain, fun key' => ?_⟩
        rw [Function.update_of_ne, hown]
        intro hpath
        obtain ⟨rfl, -⟩ := List.append_inj' hpath rfl
        exact hsame (Spot.node.inj (Option.some.inj (hold.symm.trans hr)))
  · by_cases hsame : path' ++ [key'] = path ++ [key]
    · obtain ⟨rfl, -⟩ := List.append_inj' hsame rfl
      exact ⟨r, by rw [Function.update_of_ne (by simp), hr]⟩
    · rw [Function.update_of_ne hsame] at h'
      obtain ⟨r', hr'⟩ := hb.closed _ _ _ h'
      refine ⟨r', ?_⟩
      rw [Function.update_of_ne, hr']
      rintro rfl
      rw [hnone] at hr'
      cases hr'
  · rcases hnode h' with ⟨rfl, hspot⟩ | ⟨-, hold⟩ <;>
      rcases hnode h'' with ⟨rfl, hspot'⟩ | ⟨-, hold'⟩
    · rfl
    · exact absurd hold' ((hnew r' hspot).2.1 path'')
    · exact absurd hold ((hnew r' hspot').2.1 path')
    · exact hb.distinct path' path'' r' hold hold'
  · rcases hnode h' with ⟨-, hspot⟩ | ⟨-, hold⟩
    · exact (hnew r' hspot).2.2
    · exact hb.made path' r' hold

/-- A new object changes nothing that is there. -/
theorem allocate (hb : shape.Built base h) (o : JsObject BuiltIn) :
    shape.Built base { h.store (.made h.maker h.made) o with made := h.made + 1 } where
  object path r hr := by
    obtain ⟨o', ho', hrest⟩ := hb.object path r hr
    obtain ⟨i, -, hi, rfl⟩ := hb.made path r hr
    refine ⟨o', (Heap.store_of_ne fun heq => ?_).trans ho', hrest⟩
    have := (Ref.made.inj heq).2
    omega
  closed := hb.closed
  distinct := hb.distinct
  made path r hr := by
    obtain ⟨i, hbase, hi, rfl⟩ := hb.made path r hr
    exact ⟨i, hbase, Nat.lt_succ_of_lt hi, rfl⟩
  kept r hr := (Heap.store_of_ne (hr h.made hb.grown)).trans (hb.kept r hr)
  grown := Nat.le_succ_of_le hb.grown

/-! ## One key after another -/

/-- What one key leads to is a node afterwards: the node that is there, or a new one. -/
theorem nextLevel (hb : shape.Built base h) (hr : shape path = some (.node r))
    (hkey : Uninherited base key) (hleaf : ∀ text, shape (path ++ [key]) ≠ some (.leaf text)) :
    ∃ (r' : Ref BuiltIn) (shape' : Shape) (h' : Heap BuiltIn),
      nextLevel objectRealm (.object r) key h = (some (.object r'), h') ∧
      shape'.Built base h' ∧ shape' (path ++ [key]) = some (.node r') ∧
      (∀ path', path' ≠ path ++ [key] → shape' path' = shape path') ∧
      ∀ path' r', shape path' = some (.node r') → shape' path' = some (.node r') := by
  obtain ⟨o, ho, hplain, hown⟩ := hb.object path r hr
  cases hspot : shape (path ++ [key]) with
  | some spot =>
    cases spot with
    | leaf text => exact absurd hspot (hleaf text)
    | node r' =>
      have hp : o.properties.get? key = some (.data (.object r') true true) := by
        rw [hown, hspot]
        rfl
      refine ⟨r', shape, _, ?_, hb.rewrite hr ho hspot, hspot, fun _ _ => rfl, fun _ _ h => h⟩
      rw [DwnServer.nextLevel, Script.bind_of_some (get_own ho hplain hp)]
      exact Script.bind_of_some (set_plain ho hplain (Or.inl ⟨_, hp⟩))
  | none =>
    have hp : o.properties.get? key = none := by
      rw [hown, hspot]
      rfl
    have hfresh : ∀ path', shape path' ≠ some (.node (.made h.maker h.made)) := by
      intro path' hpath'
      obtain ⟨i, -, hi, heq⟩ := hb.made path' _ hpath'
      have := (Ref.made.inj heq).2
      omega
    have hb' := hb.allocate objectRealm.emptyObject
    have hne : r ≠ .made h.maker h.made := by
      rintro rfl
      exact hfresh path hr
    have ho' : (h.store (.made h.maker h.made) objectRealm.emptyObject).objects r = some o :=
      (Heap.store_of_ne hne).trans ho
    refine ⟨.made h.maker h.made,
      Function.update shape (path ++ [key]) (some (.node (.made h.maker h.made))), _, ?_,
      hb'.write hr ho' hspot ?_, Function.update_self ..,
      fun path' hne => Function.update_of_ne hne .., fun path' r' hr' => ?_⟩
    · rw [DwnServer.nextLevel, Script.bind_of_some (get_absent ho hplain hp (hb.uninherited hkey)),
        Script.bind_of_some (orEmpty_undefined h)]
      exact Script.bind_of_some (set_plain ho' hplain (Or.inr ⟨hp, hb'.uninherited hkey⟩))
    · rintro r' h'
      obtain rfl := Spot.node.inj h'
      exact ⟨Heap.store_self .., hfresh, h.made, hb.grown, Nat.lt_succ_self _, rfl⟩
    · rw [Function.update_of_ne, hr']
      rintro rfl
      rw [hspot] at hr'
      cases hr'

theorem not_prefix_of_concat (keys : List JsString) (key : JsString) :
    ¬ keys ++ [key] <+: keys := by
  intro hpre
  have hlength := hpre.length_le
  simp at hlength

/-- After the keys that lead to a parameter's last one, there is a node at each prefix of them,
and elsewhere nothing has changed. -/
theorem walk {root : Ref BuiltIn} {keys : List JsString} (hb : shape.Built base h)
    (hroot : shape [] = some (.node root)) (hkeys : ∀ key ∈ keys, Uninherited base key)
    (hleaf : ∀ path, path <+: keys → ∀ text, shape path ≠ some (.leaf text)) :
    ∃ (r : Ref BuiltIn) (shape' : Shape) (h' : Heap BuiltIn),
      keys.foldlM (DwnServer.nextLevel objectRealm) (.object root) h = (some (.object r), h') ∧
      shape'.Built base h' ∧ shape' keys = some (.node r) ∧
      (∀ path, path <+: keys → ∃ r, shape' path = some (.node r)) ∧
      (∀ path, ¬ path <+: keys → shape' path = shape path) ∧
      ∀ path r, shape path = some (.node r) → shape' path = some (.node r) := by
  induction keys using List.reverseRecOn with
  | nil =>
    refine ⟨root, shape, h, rfl, hb, hroot, fun path hpath => ?_, fun _ _ => rfl, fun _ _ h => h⟩
    exact ⟨root, List.prefix_nil.mp hpath ▸ hroot⟩
  | append_singleton keys key ih =>
    obtain ⟨r, shape₁, h₁, hrun, hb₁, hr, hnodes, hothers, hstay⟩ :=
      ih (fun k hk => hkeys k (List.mem_append_left _ hk))
        fun path hpath => hleaf path (hpath.trans (List.prefix_append ..))
    obtain ⟨r', shape₂, h₂, hrun', hb₂, hr', hothers', hstay'⟩ :=
      hb₁.nextLevel hr (hkeys key (by simp))
        fun text => hothers _ (not_prefix_of_concat keys key) ▸ hleaf _ List.prefix_rfl text
    refine ⟨r', shape₂, h₂, ?_, hb₂, hr', fun path hpath => ?_, fun path hpath => ?_,
      fun path r hr => hstay' path r (hstay path r hr)⟩
    · rw [Script.foldlM_append_of_some hrun, List.foldlM_cons, Script.bind_of_some hrun']
      rfl
    · rcases List.prefix_concat_iff.mp hpath with rfl | hpre
      · exact ⟨r', hr'⟩
      · obtain ⟨r'', hr''⟩ := hnodes path hpre
        exact ⟨r'', hstay' path r'' hr''⟩
    · rw [hothers' path fun heq => hpath (heq ▸ List.prefix_rfl),
        hothers path fun hpre => hpath (hpre.trans (List.prefix_append ..))]

/-- A leaf at the end of a path that leads nowhere yet, or to that leaf. -/
theorem putLeaf {text : JsString} (hb : shape.Built base h) (hr : shape path = some (.node r))
    (ho : h.objects r = some o)
    (hspot : shape (path ++ [key]) = none ∨ shape (path ++ [key]) = some (.leaf text)) :
    Shape.Built base (Function.update shape (path ++ [key]) (some (.leaf text)))
      (h.store r (o.put key (.string text))) := by
  rcases hspot with hnone | hleaf
  · exact hb.write hr ho hnone fun r' h' => by cases h'
  · rw [← hleaf, Function.update_eq_self]
    exact hb.rewrite hr ho hleaf

end Shape.Built

end DwnServer
