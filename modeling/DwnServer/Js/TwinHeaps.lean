import DwnServer.Js.Heap

/-!
# Two heaps that look the same to a task

A task can see the built-in objects and those it made. `Twin n` relates two heaps that
agree on what task `n` can see, where the built-in objects are as the process started
with them and the task's own objects hold only own objects. Every read answers the same
on both heaps, and a write to an own object keeps them twins and leaves every object of
another maker alone.
-/
namespace DwnServer

variable {B : Type}

def Ref.MadeBy (n : Nat) : Ref B → Prop
  | .made m _ => m = n
  | .builtin _ => False

def Ref.VisibleTo (n : Nat) : Ref B → Prop
  | .made m _ => m = n
  | .builtin _ => True

theorem Ref.MadeBy.visible {n : Nat} {r : Ref B} (h : r.MadeBy n) : r.VisibleTo n := by
  cases r with
  | made => exact h
  | builtin => trivial

theorem Ref.IsBuiltin.visible {n : Nat} {r : Ref B} (h : r.IsBuiltin) : r.VisibleTo n := by
  cases r with
  | made => exact h.elim
  | builtin => trivial

@[simp] theorem Value.within_primitive (S : Ref B → Prop) (p : Primitive) :
    (Value.primitive p).Within S := trivial

@[simp] theorem Value.within_object (S : Ref B → Prop) (r : Ref B) :
    (Value.object r).Within S ↔ S r := Iff.rfl

theorem Value.Within.mono {S T : Ref B → Prop} (h : ∀ r, S r → T r) {v : Value B}
    (hv : v.Within S) : v.Within T := by
  cases v with
  | primitive => trivial
  | object r => exact h r hv

theorem Value.Within.visible {n : Nat} {v : Value B} (hv : v.Within (Ref.MadeBy n)) :
    v.Within (Ref.VisibleTo n) :=
  hv.mono fun _ => Ref.MadeBy.visible

theorem Property.Within.mono {S T : Ref B → Prop} (h : ∀ r, S r → T r) {p : Property B}
    (hp : p.Within S) : p.Within T := by
  cases p with
  | data => exact Value.Within.mono h hp
  | protoAccessor | thrower => trivial

/-- The property is a value in `S`, not an accessor. -/
def Property.Holds (S : Ref B → Prop) (p : Property B) : Prop :=
  ∃ v writable enumerable, p = .data v writable enumerable ∧ v.Within S

/-- An object as task `n` makes it: it inherits from what the task can see, and its
properties are values of the task's own. -/
structure JsObject.OwnedBy (n : Nat) (o : JsObject B) : Prop where
  prototype : ∀ r, o.prototype = some r → r.VisibleTo n
  properties : ∀ name p, o.properties.get? name = some p → p.Holds (Ref.MadeBy n)

namespace JsObject

theorem own_of_ordinary {o : JsObject B} (h : o.length = none) (name : JsString) :
    o.own name = o.properties.get? name := by simp [own, h]

theorem OwnedBy.within {n : Nat} {o : JsObject B} (h : o.OwnedBy n) :
    o.Within (Ref.VisibleTo n) (Ref.VisibleTo n) := by
  refine ⟨h.prototype, fun name p hp => ?_⟩
  obtain ⟨v, _, _, rfl, hv⟩ := h.properties name p hp
  exact hv.visible

theorem Within.own {P S : Ref B → Prop} {o : JsObject B} (h : o.Within P S) {name : JsString}
    {p : Property B} (hp : o.own name = some p) : p.Within S := by
  unfold JsObject.own at hp
  split at hp
  · split_ifs at hp with hname
    · cases hp
      trivial
    · exact h.properties name p hp
  · exact h.properties name p hp

@[simp] theorem put_prototype (o : JsObject B) (name : JsString) (v : Value B) :
    (o.put name v).prototype = o.prototype := rfl

@[simp] theorem put_length (o : JsObject B) (name : JsString) (v : Value B) :
    (o.put name v).length = o.length := rfl

theorem OwnedBy.put {n : Nat} {o : JsObject B} (h : o.OwnedBy n) (name : JsString)
    {v : Value B} (hv : v.Within (Ref.MadeBy n)) : (o.put name v).OwnedBy n := by
  refine ⟨h.prototype, fun name' p hp => ?_⟩
  simp only [JsObject.put, OrderedMap.get?_set] at hp
  split_ifs at hp with hname
  · exact ⟨v, _, _, (Option.some.inj hp).symm, hv⟩
  · exact h.properties name' p hp

/-- The names of an ordinary object stay when a property is set. -/
theorem put_keeps {o : JsObject B} {name name' : JsString} {v : Value B} {p : Property B}
    (h : o.properties.get? name' = some p) :
    ∃ q, (o.put name v).properties.get? name' = some q := by
  simp only [JsObject.put, OrderedMap.get?_set]
  split_ifs
  · exact ⟨_, rfl⟩
  · exact ⟨p, h⟩

/-- What a definition can yield: an owned object again, and an ordinary object stays one
and keeps its names. -/
theorem define_cases {n : Nat} {toLength : Value B → Option Nat} {o o' : JsObject B}
    {name : JsString} {v : Value B} (h : o.define toLength name v = some o') (ho : o.OwnedBy n)
    (hv : v.Within (Ref.MadeBy n)) :
    o'.OwnedBy n ∧ (o.length = none → o' = o.put name v) := by
  unfold define at h
  split at h
  · cases h
    exact ⟨ho.put name hv, fun _ => rfl⟩
  · rename_i k hk
    refine ⟨?_, fun hnone => absurd (hnone.symm.trans hk) (by simp)⟩
    split_ifs at h with hname
    · obtain ⟨m, -, rfl⟩ := Option.map_eq_some_iff.mp h
      refine ⟨ho.prototype, fun name' p hp => ?_⟩
      exact ho.properties name' p (OrderedMap.get?_filter.mp hp).1
    · split at h <;> cases h
      · exact ⟨(ho.put name hv).prototype, (ho.put name hv).properties⟩
      · exact ho.put name hv

theorem define_congr {f g : Value B → Option Nat} {v : Value B} (h : f v = g v)
    (o : JsObject B) (name : JsString) : o.define f name v = o.define g name v := by
  simp [define, h]

end JsObject

/-- `h` and `t` look the same to task `n`, which runs on both; `h` has come from `base` by
writes of the task. The names that `kept` lists stay names of ordinary objects. -/
structure Twin (realm : Realm B) (n : Nat) (kept : Ref B → JsString → Prop) (base : Heap B)
    (h t : Heap B) : Prop where
  maker : h.maker = n
  maker' : t.maker = n
  made : h.made = t.made
  unused : ∀ i, h.made ≤ i → h.objects (.made n i) = none
  same : ∀ r, r.VisibleTo n → h.objects r = t.objects r
  builtins : ∀ b, h.objects (.builtin b) = some (realm.builtins b)
  owned : ∀ r o, r.MadeBy n → h.objects r = some o → o.OwnedBy n
  others : ∀ r, ¬ r.MadeBy n → h.objects r = base.objects r
  keeps : ∀ r name, kept r name →
    ∃ o, h.objects r = some o ∧ o.length = none ∧ ∃ p, o.properties.get? name = some p

namespace Twin

variable {realm : Realm B} {n : Nat} {kept : Ref B → JsString → Prop} {base h t : Heap B}

theorem weaken {kept' : Ref B → JsString → Prop} (tw : Twin realm n kept base h t)
    (hk : ∀ r name, kept' r name → kept r name) : Twin realm n kept' base h t :=
  { tw with keeps := fun r name hr => tw.keeps r name (hk r name hr) }

theorem within (tw : Twin realm n kept base h t) {r : Ref B} {o : JsObject B}
    (hr : r.VisibleTo n) (ho : h.objects r = some o) :
    o.Within (Ref.VisibleTo n) (Ref.VisibleTo n) := by
  cases r with
  | made m i => exact (tw.owned (.made m i) o hr ho).within
  | builtin b =>
    obtain rfl : realm.builtins b = o := Option.some.inj ((tw.builtins b).symm.trans ho)
    have closed := realm.closed b
    exact ⟨fun r hr => (closed.prototype r hr).visible,
      fun name p hp => (closed.properties name p hp).mono fun _ => Ref.IsBuiltin.visible⟩

/-! ### Reading -/

theorem find_eq (tw : Twin realm n kept base h t) (name : JsString) :
    ∀ (fuel : Nat) {r : Ref B}, r.VisibleTo n → h.find fuel r name = t.find fuel r name
  | 0, _, _ => rfl
  | fuel + 1, r, hr => by
    have ho := tw.same r hr
    unfold Heap.find
    rw [← ho]
    cases hobj : h.objects r with
    | none => rfl
    | some o =>
      cases hown : o.own name with
      | some p => simp [hown]
      | none =>
        cases hproto : o.prototype with
        | none => simp [hown, hproto]
        | some parent =>
          have up := find_eq tw name fuel ((tw.within hr hobj).prototype parent hproto)
          simpa [hown, hproto] using up

theorem find_within (tw : Twin realm n kept base h t) {name : JsString} {p : Property B} :
    ∀ {fuel : Nat} {r : Ref B}, r.VisibleTo n → h.find fuel r name = some p →
      p.Within (Ref.VisibleTo n)
  | 0, _, _, hp => nomatch hp
  | fuel + 1, r, hr, hp => by
    unfold Heap.find at hp
    cases hobj : h.objects r with
    | none => simp [hobj] at hp
    | some o =>
      cases hown : o.own name with
      | some q =>
        simp only [hobj, hown, Option.some.injEq] at hp
        exact hp ▸ (tw.within hr hobj).own hown
      | none =>
        cases hproto : o.prototype with
        | none => simp [hobj, hown, hproto] at hp
        | some parent =>
          have hparent := (tw.within hr hobj).prototype parent hproto
          exact find_within tw hparent (by simpa [hobj, hown, hproto] using hp)

/-- Along the chain of a built-in object only built-in objects are read. -/
theorem find_builtin (tw : Twin realm n kept base h t) (name : JsString) :
    ∀ (fuel : Nat) (b : B), h.find fuel (.builtin b) name = realm.start.find fuel (.builtin b) name
  | 0, _ => rfl
  | fuel + 1, b => by
    have hstart : realm.start.objects (.builtin b) = some (realm.builtins b) := rfl
    unfold Heap.find
    rw [tw.builtins b, hstart]
    cases hown : (realm.builtins b).own name with
    | some p => simp [hown]
    | none =>
      cases hproto : (realm.builtins b).prototype with
      | none => simp [hown, hproto]
      | some parent =>
        have hb := (realm.closed b).prototype parent hproto
        cases parent with
        | made => exact hb.elim
        | builtin c => simpa [hown, hproto] using find_builtin tw name fuel c

/-- No built-in object adds a name to an enumeration. -/
theorem forIn_builtin (tw : Twin realm n kept base h t) :
    ∀ (fuel : Nat) (hidden : List JsString) (b : B), h.forIn fuel hidden (.builtin b) = []
  | 0, _, _ => rfl
  | fuel + 1, hidden, b => by
    have none_visible : ∀ name, (realm.builtins b).enumerable name = false := by
      intro name
      unfold JsObject.enumerable JsObject.own
      split
      · split_ifs
        · rfl
        · cases hp : (realm.builtins b).properties.get? name with
          | none => rfl
          | some p => exact realm.hidden b name p hp
      · cases hp : (realm.builtins b).properties.get? name with
        | none => rfl
        | some p => exact realm.hidden b name p hp
    unfold Heap.forIn
    rw [tw.builtins b]
    cases hproto : (realm.builtins b).prototype with
    | none => simp [hproto, none_visible]
    | some parent =>
      have hb := (realm.closed b).prototype parent hproto
      cases parent with
      | made => exact hb.elim
      | builtin c => simp [hproto, none_visible, forIn_builtin tw fuel _ c]

theorem forIn_eq (tw : Twin realm n kept base h t) :
    ∀ (fuel : Nat) (hidden : List JsString) {r : Ref B}, r.VisibleTo n →
      h.forIn fuel hidden r = t.forIn fuel hidden r
  | 0, _, _, _ => rfl
  | fuel + 1, hidden, r, hr => by
    unfold Heap.forIn
    rw [← tw.same r hr]
    cases hobj : h.objects r with
    | none => rfl
    | some o =>
      cases hproto : o.prototype with
      | none => simp [hproto]
      | some parent =>
        have hparent := (tw.within hr hobj).prototype parent hproto
        have up := forIn_eq tw fuel (hidden ++ o.names) hparent
        simp [hproto, up]

/-- The names enumerated from an ordinary object that inherits from a built-in one are its
own. -/
theorem own_of_forIn (tw : Twin realm n kept base h t) {r : Ref B} {o : JsObject B} {b : B}
    (ho : h.objects r = some o) (hlength : o.length = none)
    (hproto : o.prototype = some (.builtin b)) {fuel : Nat} {name : JsString}
    (hname : name ∈ h.forIn fuel [] r) : ∃ p, o.properties.get? name = some p := by
  cases fuel with
  | zero => simp [Heap.forIn] at hname
  | succ fuel =>
    simp only [Heap.forIn, ho, hproto, tw.forIn_builtin, List.append_nil, List.mem_filter,
      List.not_mem_nil, not_false_eq_true, decide_true, Bool.and_true] at hname
    have henumerable := hname.2
    rw [JsObject.enumerable, JsObject.own_of_ordinary hlength] at henumerable
    obtain ⟨p, hp, -⟩ := (Option.any_eq_true _ _).mp henumerable
    exact ⟨p, hp⟩

theorem lookup_eq (tw : Twin realm n kept base h t) {v : Value B}
    (hv : v.Within (Ref.VisibleTo n)) (name : JsString) :
    realm.lookup h v name = realm.lookup t v name := by
  cases v with
  | object r => exact tw.find_eq name _ hv
  | primitive p =>
    have same : ∀ b, h.find realm.depth (.builtin b) name = t.find realm.depth (.builtin b) name :=
      fun b => tw.find_eq name _ trivial
    simp only [Realm.lookup, same]

theorem lookup_within (tw : Twin realm n kept base h t) {v : Value B} {name : JsString}
    {p : Property B} (hv : v.Within (Ref.VisibleTo n)) (hp : realm.lookup h v name = some p) :
    p.Within (Ref.VisibleTo n) := by
  cases v with
  | object r => exact tw.find_within hv hp
  | primitive q =>
    cases hown : Realm.ownOfPrimitive (B := B) q name with
    | some p' =>
      obtain rfl : p' = p := by simpa [Realm.lookup, hown] using hp
      unfold Realm.ownOfPrimitive at hown
      split at hown
      · split_ifs at hown
        · cases hown
          trivial
        · obtain ⟨i, -, hi⟩ := Option.bind_eq_some_iff.mp hown
          obtain ⟨u, -, hu⟩ := Option.bind_eq_some_iff.mp hi
          cases hu
          trivial
      · cases hown
    | none =>
      simp only [Realm.lookup, hown] at hp
      obtain ⟨b, -, hb⟩ := Option.bind_eq_some_iff.mp hp
      exact tw.find_within (r := .builtin b) trivial hb

/-- What a primitive value inherits depends on the built-in objects only. -/
theorem lookup_primitive (tw : Twin realm n kept base h t) (p : Primitive) (name : JsString) :
    realm.lookup h (.primitive p) name = realm.lookup realm.start (.primitive p) name := by
  simp only [Realm.lookup, tw.find_builtin name]

theorem prototypeOf_eq (tw : Twin realm n kept base h t) {v : Value B}
    (hv : v.Within (Ref.VisibleTo n)) : realm.prototypeOf h v = realm.prototypeOf t v := by
  cases v with
  | object r => simp only [Realm.prototypeOf, tw.same r hv]
  | primitive p => rfl

theorem prototypeOf_within (tw : Twin realm n kept base h t) {v : Value B}
    (hv : v.Within (Ref.VisibleTo n)) : (realm.prototypeOf h v).Within (Ref.VisibleTo n) := by
  cases v with
  | object r =>
    cases hp : (h.objects r).bind JsObject.prototype with
    | none => simp [Realm.prototypeOf, hp]
    | some parent =>
      obtain ⟨o, ho, hparent⟩ := Option.bind_eq_some_iff.mp hp
      simpa [Realm.prototypeOf, hp] using (tw.within hv ho).prototype parent hparent
  | primitive p =>
    cases hp : realm.primitivePrototype p with
    | none => simp [Realm.prototypeOf, hp, Value.undefined]
    | some b => simp [Realm.prototypeOf, hp, Ref.VisibleTo]

/-- A read answers the same on both heaps, a value the task can see. -/
theorem alike_get (tw : Twin realm n kept base h t) {v : Value B}
    (hv : v.Within (Ref.VisibleTo n)) (name : JsString) :
    Script.Alike (Twin realm n kept base) (fun x _ => x.Within (Ref.VisibleTo n))
      (realm.get v name) h t := by
  unfold Realm.get
  split_ifs
  · exact Script.alike_fail tw
  refine Script.alike_bind (Script.alike_reads (A := fun p _ => ∀ q, p = some q →
    q.Within (Ref.VisibleTo n)) tw (tw.lookup_eq hv name)
    fun q hq => tw.lookup_within hv hq) fun p s' t' _ hp tw' => ?_
  rcases p with _ | p
  · exact Script.alike_pure tw' trivial
  cases p with
  | data x _ _ => exact Script.alike_pure tw' (hp _ rfl)
  | protoAccessor =>
    exact Script.alike_reads tw' (tw'.prototypeOf_eq hv) (tw'.prototypeOf_within hv)
  | thrower => exact Script.alike_fail tw'

/-! ### Writing -/

theorem lengthOf_eq (tw : Twin realm n kept base h t) :
    ∀ (fuel : Nat) {v : Value B}, v.Within (Ref.VisibleTo n) →
      realm.lengthOf h fuel v = realm.lengthOf t fuel v
  | 0, v, _ => by cases v <;> rfl
  | _ + 1, .primitive _, _ => rfl
  | fuel + 1, .object r, hr => by
    unfold Realm.lengthOf
    rw [← tw.same r hr]
    cases hobj : h.objects r with
    | none => rfl
    | some o =>
      rcases hlength : o.length with _ | _ | _ | _
      · simp [hlength]
      · simp [hlength]
      · cases hp : o.properties.get? (js "0") with
        | none => simp [hlength, hp]
        | some p =>
          cases p with
          | data x writable enumerable =>
            have hx : x.Within (Ref.VisibleTo n) := (tw.within hr hobj).properties _ _ hp
            simp [hlength, hp, lengthOf_eq tw fuel hx]
          | protoAccessor | thrower => simp [hlength, hp]
      · simp [hlength]

variable [DecidableEq B]

/-- Storing an owned object in an own place keeps the twins, as long as the names that are
kept stay. -/
theorem storeUpTo (tw : Twin realm n kept base h t) {k : Nat} {r : Ref B} {o : JsObject B}
    (hr : r.MadeBy n) (ho : o.OwnedBy n) (hk : h.made ≤ k) (hplace : ∀ i, k ≤ i → .made n i ≠ r)
    (hkept : ∀ name o', kept r name → h.objects r = some o' → o'.length = none →
      (∃ p, o'.properties.get? name = some p) →
      o.length = none ∧ ∃ p, o.properties.get? name = some p) :
    Twin realm n kept base { h.store r o with made := k } { t.store r o with made := k } where
  maker := tw.maker
  maker' := tw.maker'
  made := rfl
  unused i hi := by simpa [hplace i hi] using tw.unused i (hk.trans hi)
  same r' hr' := by
    by_cases heq : r' = r
    · simp [heq]
    · simpa [heq] using tw.same r' hr'
  builtins b := by
    have hne : Ref.builtin b ≠ r := by
      rintro rfl
      exact hr
    simpa [hne] using tw.builtins b
  owned r' o' hr' ho' := by
    by_cases heq : r' = r
    · simp only [heq, Heap.store_self, Option.some.injEq] at ho'
      exact ho' ▸ ho
    · simp only [ne_eq, heq, not_false_eq_true, Heap.store_of_ne] at ho'
      exact tw.owned r' o' hr' ho'
  others r' hr' := by
    have hne : r' ≠ r := by
      rintro rfl
      exact hr' hr
    simpa [hne] using tw.others r' hr'
  keeps r' name hname := by
    obtain ⟨o', ho', hlength, hp⟩ := tw.keeps r' name hname
    by_cases heq : r' = r
    · subst heq
      exact ⟨o, by simp, hkept name o' hname ho' hlength hp⟩
    · exact ⟨o', by simpa [heq] using ho', hlength, hp⟩

theorem store (tw : Twin realm n kept base h t) {r : Ref B} {o o' : JsObject B}
    (hr : r.MadeBy n) (ho : h.objects r = some o) (ho' : o'.OwnedBy n)
    (hkept : o.length = none → o'.length = none ∧ ∀ name p, o.properties.get? name = some p →
      ∃ q, o'.properties.get? name = some q) :
    Twin realm n kept base (h.store r o') (t.store r o') := by
  have hplace : ∀ i, h.made ≤ i → .made n i ≠ r := by
    rintro i hi rfl
    simp [tw.unused i hi] at ho
  have tw' := tw.storeUpTo hr ho' le_rfl hplace fun name o₁ _ ho₁ hlength ⟨p, hp⟩ => by
    obtain rfl : o = o₁ := Option.some.inj (ho.symm.trans ho₁)
    obtain ⟨hlength', hnames⟩ := hkept hlength
    exact ⟨hlength', hnames name p hp⟩
  have hmade : { t.store r o' with made := h.made } = t.store r o' := by rw [tw.made]; rfl
  exact hmade ▸ tw'

/-- A task makes its objects alike on both heaps, each in a place that nothing holds. -/
theorem alike_make (tw : Twin realm n kept base h t) {o : JsObject B} (ho : o.OwnedBy n) :
    Script.Alike (Twin realm n kept base) (fun v s => ∃ r : Ref B, v = .object r ∧ r.MadeBy n ∧
      s.objects r = some o ∧ ∀ r', h.objects r' ≠ none → s.objects r' = h.objects r')
      (make o) h t := by
  have hplace : (Ref.made t.maker t.made : Ref B) = .made n h.made := by rw [tw.maker', tw.made]
  have runs : make o h = (some (.object (.made n h.made)),
      { h.store (.made n h.made) o with made := h.made + 1 }) := by
    rw [← tw.maker]
    rfl
  have runs' : make o t = (some (.object (.made n h.made)),
      { t.store (.made n h.made) o with made := h.made + 1 }) := by
    rw [← hplace, tw.made]
    rfl
  have absent := tw.unused h.made le_rfl
  refine ⟨by rw [runs, runs'], ?_, ?_⟩
  · rw [runs, runs']
    refine tw.storeUpTo rfl ho (Nat.le_succ _) ?_ ?_
    · rintro i hi heq
      cases heq
      exact absurd hi (by simp)
    · intro name o' _ ho'
      simp [absent] at ho'
  · rw [runs]
    rintro v ⟨⟩
    refine ⟨_, rfl, rfl, by simp, fun r' hr' => ?_⟩
    have hne : r' ≠ .made n h.made := by
      rintro rfl
      exact hr' absent
    simp [hne]

theorem onChain_eq (tw : Twin realm n kept base h t) (r : Ref B) :
    ∀ (fuel : Nat) {start : Ref B}, start.VisibleTo n →
      h.onChain r fuel start = t.onChain r fuel start
  | 0, _, _ => rfl
  | fuel + 1, start, hstart => by
    unfold Heap.onChain
    rw [← tw.same start hstart]
    cases hp : (h.objects start).bind JsObject.prototype with
    | none => rfl
    | some parent =>
      obtain ⟨o, ho, hparent⟩ := Option.bind_eq_some_iff.mp hp
      have up := onChain_eq tw r fuel ((tw.within hstart ho).prototype parent hparent)
      simp [up]

theorem alike_defineOwn (tw : Twin realm n kept base h t) {r : Ref B} (hr : r.MadeBy n)
    (name : JsString) {v : Value B} (hv : v.Within (Ref.MadeBy n)) :
    Script.Alike (Twin realm n kept base) (fun _ _ => True) (realm.defineOwn r name v) h t := by
  refine Script.alike_writes tw ?_
  have hlength := tw.lengthOf_eq realm.depth hv.visible
  rw [← tw.same r hr.visible]
  cases hobj : h.objects r with
  | none => exact Or.inl ⟨rfl, rfl⟩
  | some o =>
    have hsame := JsObject.define_congr hlength o name
    cases ho : o.define (realm.lengthOf h realm.depth) name v with
    | none =>
      rw [ho] at hsame
      exact Or.inl ⟨by simp [ho], by simp [← hsame]⟩
    | some o' =>
      rw [ho] at hsame
      obtain ⟨howned, hordinary⟩ := JsObject.define_cases ho (tw.owned r o hr hobj) hv
      refine Or.inr ⟨h.store r o', t.store r o', by simp [ho], by simp [← hsame],
        tw.store hr hobj howned fun hnone => ?_, trivial⟩
      rw [hordinary hnone]
      exact ⟨hnone, fun name' p hp => JsObject.put_keeps hp⟩

theorem alike_replacePrototype (tw : Twin realm n kept base h t) {r : Ref B} (hr : r.MadeBy n)
    {parent : Option (Ref B)} (hparent : ∀ r', parent = some r' → r'.VisibleTo n) :
    Script.Alike (Twin realm n kept base) (fun _ _ => True) (realm.replacePrototype r parent)
      h t := by
  refine Script.alike_writes tw ?_
  have hchain : parent.any (h.onChain r realm.depth) = parent.any (t.onChain r realm.depth) := by
    cases parent with
    | none => rfl
    | some r' => exact tw.onChain_eq r _ (hparent r' rfl)
  rw [← tw.same r hr.visible, ← hchain]
  cases hobj : h.objects r with
  | none => exact Or.inl ⟨rfl, rfl⟩
  | some o =>
    have howned := tw.owned r o hr hobj
    by_cases heq : o.prototype = parent
    · exact Or.inr ⟨h, t, by simp [heq], by simp [heq], tw, trivial⟩
    have howned' : JsObject.OwnedBy n { o with prototype := parent } :=
      ⟨hparent, howned.properties⟩
    have twins := tw.store hr hobj howned' fun hnone => ⟨hnone, fun _ p hp => ⟨p, hp⟩⟩
    by_cases hfixed : (o.fixedPrototype || parent.any (h.onChain r realm.depth)) = true
    · exact Or.inl ⟨(if_neg heq).trans (if_pos hfixed), (if_neg heq).trans (if_pos hfixed)⟩
    · exact Or.inr ⟨_, _, (if_neg heq).trans (if_neg hfixed), (if_neg heq).trans (if_neg hfixed),
        twins, trivial⟩

theorem alike_setPrototype (tw : Twin realm n kept base h t) {v x : Value B}
    (hv : v.Within (Ref.MadeBy n)) (hx : x.Within (Ref.MadeBy n)) :
    Script.Alike (Twin realm n kept base) (fun _ _ => True) (realm.setPrototype v x) h t := by
  cases v with
  | primitive p => exact Script.alike_pure tw trivial
  | object r =>
    cases x with
    | object parent =>
      refine tw.alike_replacePrototype hv fun r' hr' => ?_
      cases hr'
      exact Ref.MadeBy.visible hx
    | primitive p =>
      cases p with
      | null => exact tw.alike_replacePrototype hv fun r' hr' => nomatch hr'
      | undefined | boolean | number | string => exact Script.alike_pure tw trivial

/-- A write of an own value to an own object. -/
theorem alike_set (tw : Twin realm n kept base h t) {v x : Value B}
    (hv : v.Within (Ref.MadeBy n)) (hx : x.Within (Ref.MadeBy n)) (name : JsString) :
    Script.Alike (Twin realm n kept base) (fun _ _ => True) (realm.set v name x) h t := by
  unfold Realm.set
  split_ifs
  · exact Script.alike_fail tw
  refine Script.alike_bind (Script.alike_reads (A := fun _ _ => True) tw
    (tw.lookup_eq hv.visible name) trivial) fun p s' t' _ _ tw' => ?_
  rcases p with _ | p
  · cases v with
    | primitive q => exact Script.alike_fail tw'
    | object r => exact tw'.alike_defineOwn hv name hx
  cases p with
  | thrower => exact Script.alike_fail tw'
  | protoAccessor => exact tw'.alike_setPrototype hv hx
  | data y writable enumerable =>
    cases writable with
    | false => exact Script.alike_fail tw'
    | true =>
      cases v with
      | primitive q => exact Script.alike_fail tw'
      | object r => exact tw'.alike_defineOwn hv name hx

end Twin

end DwnServer
