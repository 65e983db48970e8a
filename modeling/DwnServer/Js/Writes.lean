import DwnServer.Js.TwinHeaps

/-!
# What a write does

A write to a property either gives an object an own property, or, under the name `__proto__`,
replaces a prototype: the accessor of that name stands nowhere else, and no code puts it there.
What a write to one name leaves alone is every read of another.
-/
namespace DwnServer

variable {B : Type}

/-- The accessor `__proto__` stands under its own name only. -/
def JsObject.AccessorNamed (o : JsObject B) : Prop :=
  ∀ name, o.properties.get? name = some .protoAccessor → name = protoName

def Heap.AccessorsNamed (h : Heap B) : Prop :=
  ∀ r o, h.objects r = some o → o.AccessorNamed

namespace JsObject

variable {o o' : JsObject B} {name name' : JsString} {v : Value B}

theorem own_put (o : JsObject B) (hname : name ≠ js "length" ∨ o.length = none) (v : Value B) :
    ∃ enumerable, (o.put name v).own name = some (.data v true enumerable) := by
  refine ⟨((o.properties.get? name).map Property.enumerable).getD true, ?_⟩
  have hput : (o.put name v).properties.get? name = some (.data v true
      (((o.properties.get? name).map Property.enumerable).getD true)) := by
    rw [put, OrderedMap.get?_set, if_pos rfl]
  unfold own
  rw [put_length]
  split
  · rename_i n hlength
    have hne : name ≠ js "length" := hname.resolve_right (by simp [hlength])
    rw [if_neg hne, hput]
  · exact hput

theorem own_put_of_ne (o : JsObject B) (hne : name' ≠ name) (v : Value B) :
    (o.put name v).own name' = o.own name' := by
  have hput : (o.put name v).properties.get? name' = o.properties.get? name' := by
    rw [put, OrderedMap.get?_set, if_neg hne]
  unfold own
  rw [put_length, hput]

theorem AccessorNamed.put (h : o.AccessorNamed) (name : JsString) (v : Value B) :
    (o.put name v).AccessorNamed := by
  intro name' hname'
  rw [JsObject.put, OrderedMap.get?_set] at hname'
  split_ifs at hname' with hsame
  · cases hname'
  · exact h name' hname'

theorem AccessorNamed.define (h : o.AccessorNamed) {toLength : Value B → Option Nat}
    (hdefine : o.define toLength name v = some o') : o'.AccessorNamed := by
  unfold JsObject.define at hdefine
  split at hdefine
  · cases hdefine
    exact h.put name v
  · split_ifs at hdefine with hname
    · obtain ⟨m, -, rfl⟩ := Option.map_eq_some_iff.mp hdefine
      exact fun name' hname' => h name' (OrderedMap.get?_filter.mp hname').1
    · split at hdefine <;> cases hdefine
      · exact h.put name v
      · exact h.put name v

theorem AccessorNamed.own (h : o.AccessorNamed) (hname : o.own name = some .protoAccessor) :
    name = protoName := by
  unfold JsObject.own at hname
  split at hname
  · split_ifs at hname
    · cases hname
    · exact h name hname
  · exact h name hname

/-- A name that is no index and not `length` is a property like any other, also of an array. -/
theorem define_of_named {toLength : Value B → Option Nat} (hlength : name ≠ js "length")
    (hindex : arrayIndex? name = none) (o : JsObject B) (v : Value B) :
    o.define toLength name v = some (o.put name v) := by
  unfold define
  split
  · rfl
  · rw [if_neg hlength]
    simp [hindex]

end JsObject

/-- The realm follows chains of prototypes, and `__proto__` is the only accessor of its kind. -/
structure Realm.Standard (realm : Realm B) : Prop where
  depth_pos : 0 < realm.depth
  accessor : ∀ b, (realm.builtins b).AccessorNamed

theorem Realm.Standard.start {realm : Realm B} (standard : realm.Standard) :
    realm.start.AccessorsNamed := by
  intro r o ho
  cases r with
  | builtin b => exact Option.some.inj ho ▸ standard.accessor b
  | made maker index => cases ho

theorem standard_objectRealm : objectRealm.Standard where
  depth_pos := by decide
  accessor b := by
    intro name hname
    cases b with
    | objectPrototype =>
      change (builtInObject .objectPrototype).properties.get? name = _ at hname
      rw [builtInObject, OrderedMap.get?_set] at hname
      split_ifs at hname with hproto
      · exact hproto
      · rcases OrderedMap.get?_foldl_set _ _ hname with ⟨_, _, _, h⟩ | hempty
        · cases h
        · simp at hempty
    | functionPrototype | primitivePrototype | arrayPrototype =>
      simp [objectRealm, builtInObject] at hname
    | objectFunction name' =>
      change (builtInObject (.objectFunction name')).properties.get? name = _ at hname
      rw [builtInObject, OrderedMap.get?_set] at hname
      split_ifs at hname
      · cases hname
      · simp at hname

theorem accessorNamed_emptyObject {realm : Realm B} : realm.emptyObject.AccessorNamed := by
  intro name hname
  simp [Realm.emptyObject] at hname

namespace Heap

variable [DecidableEq B] {h : Heap B} {r r' : Ref B} {o o' : JsObject B} {name : JsString}

theorem AccessorsNamed.store (hh : h.AccessorsNamed) (ho : o.AccessorNamed) (r : Ref B) :
    (h.store r o).AccessorsNamed := by
  intro r' o' ho'
  by_cases hr : r' = r
  · subst hr
    rw [store_self] at ho'
    exact Option.some.inj ho' ▸ ho
  · rw [store_of_ne hr] at ho'
    exact hh r' o' ho'

omit [DecidableEq B] in
theorem AccessorsNamed.find (hh : h.AccessorsNamed) {fuel : Nat}
    (hfind : h.find fuel r name = some .protoAccessor) : name = protoName := by
  induction fuel generalizing r with
  | zero => cases hfind
  | succ fuel ih =>
    rw [Heap.find] at hfind
    split at hfind
    · cases hfind
    · rename_i o ho
      split at hfind
      · rename_i p hp
        obtain rfl := Option.some.inj hfind
        exact (hh r o ho).own hp
      · split at hfind
        · cases hfind
        · exact ih hfind

/-- An object that keeps its prototype and what it has under a name is searched for that name
as before. -/
theorem find_store_of_own_eq (ho : h.objects r = some o) (hprototype : o'.prototype = o.prototype)
    (hown : o'.own name = o.own name) (fuel : Nat) (r' : Ref B) :
    (h.store r o').find fuel r' name = h.find fuel r' name := by
  induction fuel generalizing r' with
  | zero => rfl
  | succ fuel ih =>
    rw [Heap.find, Heap.find]
    by_cases hr : r' = r
    · subst hr
      simp only [store_self, ho, hown, hprototype, ih]
    · simp only [store_of_ne hr, ih]

end Heap

namespace Realm

variable [DecidableEq B] {realm : Realm B} {h t : Heap B} {r : Ref B} {o o' : JsObject B}
  {v x : Value B} {name : JsString}

theorem lookup_store_of_own_eq (ho : h.objects r = some o) (hprototype : o'.prototype = o.prototype)
    (hown : o'.own name = o.own name) (v : Value B) :
    realm.lookup (h.store r o') v name = realm.lookup h v name := by
  cases v with
  | object r' => exact Heap.find_store_of_own_eq ho hprototype hown _ r'
  | primitive p => simp only [lookup, Heap.find_store_of_own_eq ho hprototype hown]

theorem prototypeOf_store (ho : h.objects r = some o) (hprototype : o'.prototype = o.prototype)
    (v : Value B) : realm.prototypeOf (h.store r o') v = realm.prototypeOf h v := by
  cases v with
  | object r' =>
    by_cases hr : r' = r
    · subst hr
      simp only [prototypeOf, Heap.store_self, ho, Option.bind_some, hprototype]
    · simp only [prototypeOf, Heap.store_of_ne hr]
  | primitive p => rfl

omit [DecidableEq B] in
/-- A read answers the value of what stands under the name and writes nothing. -/
theorem get_apply (v : Value B) (name : JsString) (h : Heap B) :
    realm.get v name h =
      if v.isNullish then (none, h) else realm.valueOf v (realm.lookup h v name) h := by
  unfold get
  split_ifs <;> rfl

omit [DecidableEq B] in
theorem valueOf_state (v : Value B) (p : Option (Property B)) (h : Heap B) :
    (realm.valueOf v p h).2 = h := by
  rcases p with _ | ⟨_ | _ | _⟩ <;> rfl

omit [DecidableEq B] in
theorem get_state (v : Value B) (name : JsString) (h : Heap B) : (realm.get v name h).2 = h := by
  rw [get_apply]
  split_ifs
  · rfl
  · exact valueOf_state v _ h

/-- A read of a name is as before a write to another. -/
theorem get_store_of_own_eq (ho : h.objects r = some o) (hprototype : o'.prototype = o.prototype)
    (hown : o'.own name = o.own name) (v : Value B) :
    (realm.get v name (h.store r o')).1 = (realm.get v name h).1 := by
  rw [get_apply, get_apply, lookup_store_of_own_eq ho hprototype hown]
  split_ifs
  · rfl
  · rcases realm.lookup h v name with _ | ⟨_ | _ | _⟩
    · rfl
    · rfl
    · exact congrArg some (prototypeOf_store ho hprototype v)
    · rfl

omit [DecidableEq B] in
/-- The search for a name ends at an object that has it itself. -/
theorem lookup_of_own (hdepth : 0 < realm.depth) (ho : h.objects r = some o) {p : Property B}
    (hown : o.own name = some p) : realm.lookup h (.object r) name = some p := by
  obtain ⟨depth, hdepth⟩ := Nat.exists_eq_succ_of_ne_zero hdepth.ne'
  rw [lookup, hdepth, Heap.find]
  simp only [ho, hown]

omit [DecidableEq B] in
/-- A read of what an object has itself. -/
theorem get_own_data (hdepth : 0 < realm.depth) (ho : h.objects r = some o)
    {writable enumerable : Bool} (hown : o.own name = some (.data x writable enumerable)) :
    realm.get (.object r) name h = (some x, h) := by
  rw [get_apply, lookup_of_own hdepth ho hown]
  rfl

omit [DecidableEq B] in
theorem lookup_protoAccessor (hh : h.AccessorsNamed)
    (hlookup : realm.lookup h v name = some .protoAccessor) : name = protoName := by
  cases v with
  | object r => exact hh.find hlookup
  | primitive p =>
    rw [lookup] at hlookup
    split at hlookup
    · rename_i property hproperty
      obtain rfl := Option.some.inj hlookup
      cases p <;> simp only [ownOfPrimitive] at hproperty
      case string s =>
        split_ifs at hproperty
        · cases hproperty
        · obtain ⟨i, -, hproperty⟩ := Option.bind_eq_some_iff.mp hproperty
          obtain ⟨u, -, hproperty⟩ := Option.bind_eq_some_iff.mp hproperty
          cases hproperty
      all_goals cases hproperty
    · obtain ⟨b, -, hfind⟩ := Option.bind_eq_some_iff.mp hlookup
      exact hh.find hfind

/-- A definition that goes through gives an object an own property. -/
theorem store_of_defineOwn (hdefine : realm.defineOwn r name x h = (some (), t)) :
    ∃ o o', h.objects r = some o ∧ o.define (realm.lengthOf h realm.depth) name x = some o' ∧
      t = h.store r o' := by
  simp only [defineOwn, Script.writes] at hdefine
  split at hdefine
  · rename_i u hu
    obtain ⟨o, ho, hu⟩ := Option.bind_eq_some_iff.mp hu
    obtain ⟨o', ho', hu⟩ := Option.bind_eq_some_iff.mp hu
    cases hdefine
    cases hu
    exact ⟨o, o', ho, ho', rfl⟩
  · cases hdefine

/-- An assignment that goes through where nothing or a value stands defines it on an object. -/
theorem defineOwn_of_assign {property : Option (Property B)}
    (hproperty : ∀ p, property = some p → ∃ y writable enumerable, p = .data y writable enumerable)
    (hassign : realm.assign v name x property h = (some (), t)) :
    ∃ r, v = .object r ∧ realm.defineOwn r name x h = (some (), t) := by
  cases v with
  | object r =>
    refine ⟨r, rfl, ?_⟩
    cases property with
    | none => exact hassign
    | some p =>
      obtain ⟨y, writable, enumerable, rfl⟩ := hproperty p rfl
      cases writable with
      | true => exact hassign
      | false => cases hassign
  | primitive p =>
    cases property with
    | none => cases hassign
    | some p =>
      obtain ⟨y, writable, enumerable, rfl⟩ := hproperty p rfl
      cases writable <;> cases hassign

theorem assign_of_set (hset : realm.set v name x h = (some (), t)) :
    realm.assign v name x (realm.lookup h v name) h = (some (), t) := by
  unfold set at hset
  split_ifs at hset
  · cases hset
  · exact hset

/-- A write that goes through under another name than `__proto__` gives an object an own
property. -/
theorem store_of_set (hh : h.AccessorsNamed) (hname : name ≠ protoName)
    (hset : realm.set v name x h = (some (), t)) :
    ∃ r o o', v = .object r ∧ h.objects r = some o ∧
      o.define (realm.lengthOf h realm.depth) name x = some o' ∧ t = h.store r o' := by
  have hassign := assign_of_set hset
  have hdata : ∀ p, realm.lookup h v name = some p →
      ∃ y writable enumerable, p = .data y writable enumerable := by
    intro p hp
    rcases p with ⟨y, writable, enumerable⟩ | _ | _
    · exact ⟨y, writable, enumerable, rfl⟩
    · exact absurd (lookup_protoAccessor hh hp) hname
    · rw [hp] at hassign
      cases hassign
  obtain ⟨r, rfl, hdefine⟩ := defineOwn_of_assign hdata hassign
  obtain ⟨o, o', ho, ho', ht⟩ := store_of_defineOwn hdefine
  exact ⟨r, o, o', rfl, ho, ho', ht⟩

omit [DecidableEq B] in
/-- A read tells what stands under the name. -/
theorem get_object (realm : Realm B) (h : Heap B) (r : Ref B) (name : JsString) :
    realm.get (.object r) name h = realm.valueOf (.object r) (realm.lookup h (.object r) name) h :=
  rfl

theorem set_object (realm : Realm B) (h : Heap B) (r : Ref B) (name : JsString) (x : Value B) :
    realm.set (.object r) name x h =
      realm.assign (.object r) name x (realm.lookup h (.object r) name) h :=
  rfl

/-- A write to an ordinary object where nothing or something writable stands. -/
theorem set_writable (realm : Realm B) (ho : h.objects r = some o) (hlength : o.length = none)
    (hp : realm.lookup h (.object r) name = none ∨ ∃ y enumerable,
      realm.lookup h (.object r) name = some (.data y true enumerable)) :
    realm.set (.object r) name x h = (some (), h.store r (o.put name x)) := by
  have hdefine : realm.defineOwn r name x h = (some (), h.store r (o.put name x)) := by
    simp [defineOwn, Script.writes, ho, JsObject.define, hlength]
  rw [set_object]
  rcases hp with hnone | ⟨y, enumerable, hdata⟩
  · rw [hnone]
    exact hdefine
  · rw [hdata]
    exact hdefine

/-- A prototype is left as it is, or the write throws, or it is replaced. -/
theorem replacePrototype_cases (realm : Realm B) (ho : h.objects r = some o)
    (parent : Option (Ref B)) :
    o.prototype = parent ∧ realm.replacePrototype r parent h = (some (), h) ∨
      realm.replacePrototype r parent h = (none, h) ∨
      realm.replacePrototype r parent h =
        (some (), h.store r { o with prototype := parent }) := by
  simp only [replacePrototype, Script.writes, ho, Option.bind_eq_bind, Option.bind_some]
  by_cases hsame : o.prototype = parent
  · exact Or.inl ⟨hsame, by rw [if_pos hsame]; rfl⟩
  · rw [if_neg hsame]
    refine Or.inr ?_
    split_ifs
    · exact Or.inl rfl
    · exact Or.inr rfl

/-- A write that throws has written nothing. -/
theorem heap_of_set_none (hset : realm.set v name x h = (none, t)) : t = h := by
  have hwrites : ∀ {f : Heap B → Option (Heap B)}, Script.writes f h = (none, t) → t = h := by
    intro f hf
    unfold Script.writes at hf
    split at hf
    · cases hf
    · exact (Prod.mk.inj hf).2.symm
  have hfails : (Script.fail : Script (Heap B) Unit) h = (none, t) → t = h := fun hf =>
    (Prod.mk.inj hf).2.symm
  have hdefine : ∀ r, realm.defineOwn r name x h = (none, t) → t = h := fun r hf => hwrites hf
  have hreplace : ∀ r parent, realm.replacePrototype r parent h = (none, t) → t = h :=
    fun r parent hf => hwrites hf
  have hassign : realm.assign v name x (realm.lookup h v name) h = (none, t) → t = h := by
    cases v with
    | object r =>
      rcases realm.lookup h (.object r) name with _ | ⟨y, _ | _, enumerable⟩ | _ | _
      · exact hdefine r
      · exact hfails
      · exact hdefine r
      · rcases x with (_ | _ | _ | _ | _) | parent
        case primitive.null => exact hreplace r none
        case object => exact hreplace r (some parent)
        all_goals exact fun hf => by cases hf
      · exact hfails
    | primitive p =>
      rcases realm.lookup h (.primitive p) name with _ | ⟨y, _ | _, enumerable⟩ | _ | _
      case some.protoAccessor => exact fun hf => by cases hf
      all_goals exact hfails
  unfold set at hset
  split_ifs at hset
  · exact hfails hset
  · exact hassign hset

/-! ## The accessor stays where it is -/

omit [DecidableEq B] in
theorem keeps_get (I : Heap B → Prop) (v : Value B) (name : JsString) :
    Script.Keeps I (realm.get v name) := fun h hh => by rwa [get_state]

theorem keeps_defineOwn (r : Ref B) (name : JsString) (x : Value B) :
    Script.Keeps Heap.AccessorsNamed (realm.defineOwn r name x) := by
  refine Script.keeps_writes fun h t hh ht => ?_
  obtain ⟨o, ho, ht⟩ := Option.bind_eq_some_iff.mp ht
  obtain ⟨o', ho', ht⟩ := Option.bind_eq_some_iff.mp ht
  cases ht
  exact hh.store ((hh r o ho).define ho') r

theorem keeps_replacePrototype (r : Ref B) (parent : Option (Ref B)) :
    Script.Keeps Heap.AccessorsNamed (realm.replacePrototype r parent) := by
  refine Script.keeps_writes fun h t hh ht => ?_
  obtain ⟨o, ho, ht⟩ := Option.bind_eq_some_iff.mp ht
  split_ifs at ht
  · cases ht
    exact hh
  · cases ht
    have hnamed : JsObject.AccessorNamed { o with prototype := parent } := hh r o ho
    exact hh.store hnamed r

theorem keeps_setPrototype (v x : Value B) :
    Script.Keeps Heap.AccessorsNamed (realm.setPrototype v x) := by
  cases v with
  | primitive p => exact Script.keeps_pure ()
  | object r =>
    cases x with
    | object parent => exact keeps_replacePrototype r _
    | primitive p =>
      cases p
      case null => exact keeps_replacePrototype r none
      all_goals exact Script.keeps_pure ()

theorem keeps_set (v : Value B) (name : JsString) (x : Value B) :
    Script.Keeps Heap.AccessorsNamed (realm.set v name x) := by
  unfold set
  split_ifs
  · exact Script.keeps_fail
  refine Script.keeps_bind (Script.keeps_reads _) fun p => ?_
  cases v with
  | object r =>
    rcases p with _ | ⟨y, _ | _, enumerable⟩ | _ | _
    · exact keeps_defineOwn r name x
    · exact Script.keeps_fail
    · exact keeps_defineOwn r name x
    · exact keeps_setPrototype (.object r) x
    · exact Script.keeps_fail
  | primitive v =>
    rcases p with _ | ⟨y, _ | _, enumerable⟩ | _ | _
    case some.protoAccessor => exact Script.keeps_pure ()
    all_goals exact Script.keeps_fail

end Realm

theorem keeps_make [DecidableEq B] {o : JsObject B} (ho : o.AccessorNamed) :
    Script.Keeps Heap.AccessorsNamed (make o) := by
  refine Script.keeps_bind (Script.keeps_reads _) fun r => ?_
  refine Script.keeps_bind (Script.keeps_writes fun h t hh ht => ?_) fun _ => Script.keeps_pure _
  obtain rfl := Option.some.inj ht
  exact hh.store ho r

end DwnServer
