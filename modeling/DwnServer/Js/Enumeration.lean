import DwnServer.Js.JsonRoundTrip

/-!
# The members of a parsed object

`JSON.parse` defines the members of an object one by one, so their names are distinct, and they
stand in the order in which JavaScript enumerates them.
-/
namespace DwnServer

namespace Json

variable {members : List (JsString × Json)}

/-! ## Names -/

theorem map_fst_define (members : List (JsString × Json)) (name : JsString) (value : Json) :
    (define members name value).map Prod.fst =
      if name ∈ members.map Prod.fst then members.map Prod.fst
      else members.map Prod.fst ++ [name] := by
  have hany : (members.any fun m => m.1 = name) = true ↔ name ∈ members.map Prod.fst := by
    simp only [List.any_eq_true, decide_eq_true_eq, List.mem_map]
  unfold define
  by_cases hname : name ∈ members.map Prod.fst
  · rw [if_pos (hany.mpr hname), if_pos hname, List.map_map]
    refine List.map_congr_left fun m _ => ?_
    by_cases hm : m.1 = name <;> simp [hm]
  · rw [if_neg (fun h => hname (hany.mp h)), if_neg hname, List.map_append]
    rfl

theorem nodup_define (h : (members.map Prod.fst).Nodup) (name : JsString) (value : Json) :
    ((define members name value).map Prod.fst).Nodup := by
  rw [map_fst_define]
  split_ifs with hname
  · exact h
  · exact List.nodup_append_comm.mp (List.nodup_cons.mpr ⟨hname, h⟩)

theorem nodup_foldl_define {front : List (JsString × Json)} (h : (front.map Prod.fst).Nodup)
    (members : List (JsString × Json)) :
    ((members.foldl (fun ms m => define ms m.1 m.2) front).map Prod.fst).Nodup := by
  induction members generalizing front with
  | nil => exact h
  | cons m members ih => exact ih (nodup_define h m.1 m.2)

/-! ## Order -/

theorem enumerationOrder_perm (members : List (JsString × Json)) :
    (enumerationOrder members).Perm members :=
  ((List.perm_insertionSort _ _).append_right _).trans
    (List.filter_append_perm (fun m => isArrayIndex m.1) members)

theorem filter_enumerationOrder (members : List (JsString × Json)) :
    (enumerationOrder members).filter (fun m => isArrayIndex m.1) =
        (members.filter fun m => isArrayIndex m.1).insertionSort
          (fun m m' => digitsValue m.1 ≤ digitsValue m'.1) ∧
      (enumerationOrder members).filter (fun m => !isArrayIndex m.1) =
        members.filter fun m => !isArrayIndex m.1 := by
  have hindex : ∀ m ∈ (members.filter fun m => isArrayIndex m.1).insertionSort
      (fun m m' => digitsValue m.1 ≤ digitsValue m'.1), isArrayIndex m.1 = true := by
    intro m hm
    exact (List.mem_filter.mp ((List.mem_insertionSort _).mp hm)).2
  rw [enumerationOrder, List.filter_append, List.filter_append]
  constructor
  · rw [List.filter_eq_self.mpr hindex, List.filter_filter]
    simp
  · rw [List.filter_eq_nil_iff.mpr fun m hm => by simp [hindex m hm], List.filter_filter]
    simp

theorem enumerationOrder_idem (members : List (JsString × Json)) :
    enumerationOrder (enumerationOrder members) = enumerationOrder members := by
  obtain ⟨hindices, hothers⟩ := filter_enumerationOrder members
  have hsorted := List.pairwise_insertionSort
    (fun m m' : JsString × Json => digitsValue m.1 ≤ digitsValue m'.1)
    (members.filter fun m => isArrayIndex m.1)
  rw [enumerationOrder, hindices, hothers, hsorted.insertionSort_eq]
  rfl

/-! ## Parsed values -/

theorem enumeratedElements_iff {elements : List Json} :
    Enumerated.EnumeratedElements elements ↔ ∀ j ∈ elements, j.Enumerated := by
  induction elements with
  | nil => simp [Enumerated.EnumeratedElements]
  | cons j elements ih => simp [Enumerated.EnumeratedElements, ih]

theorem enumeratedMembers_iff :
    Enumerated.EnumeratedMembers members ↔ ∀ m ∈ members, m.2.Enumerated := by
  induction members with
  | nil => simp [Enumerated.EnumeratedMembers]
  | cons m members ih => simp [Enumerated.EnumeratedMembers, ih]

theorem enumerated_define {name : JsString} {value : Json} (h : ∀ m ∈ members, m.2.Enumerated)
    (hvalue : value.Enumerated) : ∀ m ∈ define members name value, m.2.Enumerated := by
  intro m hm
  unfold define at hm
  split_ifs at hm
  · obtain ⟨m', hm', rfl⟩ := List.mem_map.mp hm
    split_ifs
    · exact hvalue
    · exact h m' hm'
  · rcases List.mem_append.mp hm with hold | hnew
    · exact h m hold
    · exact List.mem_singleton.mp hnew ▸ hvalue

theorem enumerated_ofMembers (h : ∀ m ∈ members, m.2.Enumerated) :
    (ofMembers members).Enumerated := by
  have hvalues : ∀ front, (∀ m ∈ front, m.2.Enumerated) →
      ∀ m ∈ members.foldl (fun ms m => define ms m.1 m.2) front, m.2.Enumerated := by
    induction members with
    | nil => exact fun _ hfront => hfront
    | cons m members ih =>
      obtain ⟨hm, hrest⟩ := List.forall_mem_cons.mp h
      exact fun front hfront => ih hrest _ (enumerated_define hfront hm)
  have hperm := enumerationOrder_perm (members.foldl (fun ms m => define ms m.1 m.2) [])
  refine ⟨(hperm.map Prod.fst).nodup_iff.mpr (nodup_foldl_define (by simp) members),
    enumerationOrder_idem _, enumeratedMembers_iff.mpr fun m hm => ?_⟩
  exact hvalues [] (List.forall_mem_nil _) m (hperm.mem_iff.mp hm)

/-- The parsers with this fuel yield enumerated values. -/
structure YieldsEnumerated (fuel : ℕ) : Prop where
  value : ∀ {s j rest}, parseValue fuel s = some (j, rest) → j.Enumerated
  elements : ∀ {s elements rest}, parseElements fuel s = some (elements, rest) →
    ∀ j ∈ elements, j.Enumerated
  members : ∀ {s members rest}, parseMembers fuel s = some (members, rest) →
    ∀ m ∈ members, m.2.Enumerated

theorem enumerated_of_parseKeyword {word : String} (value : Json) {j : Json} {s rest : JsString}
    (hvalue : value.Enumerated) (h : parseKeyword word value s = some (j, rest)) :
    j.Enumerated := by
  obtain ⟨-, h⟩ := Option.ite_none_right_eq_some.mp h
  obtain ⟨rfl, -⟩ := Prod.mk.inj (Option.some.inj h)
  exact hvalue

section Step

variable {fuel : ℕ} (ih : YieldsEnumerated fuel) {s rest : JsString}

include ih

theorem YieldsEnumerated.value_step {j : Json}
    (h : parseValue (fuel + 1) s = some (j, rest)) : j.Enumerated := by
  rw [parseValue] at h
  split at h
  · cases h
  split_ifs at h with hbrace hbracket hquote ht hf hn
  · split at h
    · split_ifs at h
      · obtain ⟨rfl, -⟩ := Prod.mk.inj (Option.some.inj h)
        exact enumerated_ofMembers (List.forall_mem_nil _)
      · obtain ⟨⟨members, after⟩, hmembers, hvalue⟩ := Option.map_eq_some_iff.mp h
        obtain ⟨rfl, -⟩ := Prod.mk.inj hvalue
        exact enumerated_ofMembers (ih.members hmembers)
    · cases h
  · split at h
    · split_ifs at h
      · obtain ⟨rfl, -⟩ := Prod.mk.inj (Option.some.inj h)
        trivial
      · obtain ⟨⟨elements, after⟩, helements, hvalue⟩ := Option.map_eq_some_iff.mp h
        obtain ⟨rfl, -⟩ := Prod.mk.inj hvalue
        exact enumeratedElements_iff.mpr (ih.elements helements)
    · cases h
  · obtain ⟨⟨text, after⟩, -, hvalue⟩ := Option.map_eq_some_iff.mp h
    obtain ⟨rfl, -⟩ := Prod.mk.inj hvalue
    trivial
  · exact enumerated_of_parseKeyword (.bool true) trivial h
  · exact enumerated_of_parseKeyword (.bool false) trivial h
  · exact enumerated_of_parseKeyword .null trivial h
  · obtain ⟨⟨n, after⟩, -, hvalue⟩ := Option.map_eq_some_iff.mp h
    obtain ⟨rfl, -⟩ := Prod.mk.inj hvalue
    trivial

theorem YieldsEnumerated.elements_step {elements : List Json}
    (h : parseElements (fuel + 1) s = some (elements, rest)) : ∀ j ∈ elements, j.Enumerated := by
  rw [parseElements] at h
  obtain ⟨⟨element, after⟩, helement, h⟩ := Option.bind_eq_some_iff.mp h
  have hfirst := ih.value helement
  dsimp only at h
  split at h
  · split_ifs at h
    · obtain ⟨rfl, -⟩ := Prod.mk.inj (Option.some.inj h)
      exact List.forall_mem_singleton.mpr hfirst
    · obtain ⟨⟨others, _⟩, hothers, h⟩ := Option.bind_eq_some_iff.mp h
      obtain ⟨rfl, -⟩ := Prod.mk.inj (Option.some.inj h)
      exact List.forall_mem_cons.mpr ⟨hfirst, ih.elements hothers⟩
  · cases h

theorem YieldsEnumerated.members_step {members : List (JsString × Json)}
    (h : parseMembers (fuel + 1) s = some (members, rest)) : ∀ m ∈ members, m.2.Enumerated := by
  rw [parseMembers] at h
  split at h
  case h_2 => cases h
  obtain ⟨-, h⟩ := Option.ite_none_right_eq_some.mp h
  obtain ⟨⟨name, after⟩, -, h⟩ := Option.bind_eq_some_iff.mp h
  dsimp only at h
  split at h
  case h_2 => cases h
  obtain ⟨-, h⟩ := Option.ite_none_right_eq_some.mp h
  obtain ⟨⟨value, _⟩, hvalue, h⟩ := Option.bind_eq_some_iff.mp h
  have hfirst := ih.value hvalue
  dsimp only at h
  split at h
  · split_ifs at h
    · obtain ⟨rfl, -⟩ := Prod.mk.inj (Option.some.inj h)
      exact List.forall_mem_singleton.mpr hfirst
    · obtain ⟨⟨others, _⟩, hothers, h⟩ := Option.bind_eq_some_iff.mp h
      obtain ⟨rfl, -⟩ := Prod.mk.inj (Option.some.inj h)
      exact List.forall_mem_cons.mpr ⟨hfirst, ih.members hothers⟩
  · cases h

end Step

theorem yieldsEnumerated (fuel : ℕ) : YieldsEnumerated fuel := by
  induction fuel with
  | zero =>
    refine ⟨fun h => ?_, fun h => ?_, fun h => ?_⟩
    · simp [parseValue] at h
    · simp [parseElements] at h
    · simp [parseMembers] at h
  | succ fuel ih => exact ⟨ih.value_step, ih.elements_step, ih.members_step⟩

/-- The members of every object that `JSON.parse` reads are distinct and in order. -/
theorem enumerated_of_parse {s : JsString} {j : Json} (h : parse s = some j) : j.Enumerated := by
  obtain ⟨⟨value, rest⟩, hvalue, h⟩ := Option.bind_eq_some_iff.mp h
  obtain ⟨-, h⟩ := Option.ite_none_right_eq_some.mp h
  exact Option.some.inj h ▸ (yieldsEnumerated _).value hvalue

theorem Enumerated.own {j value : Json} {name : JsString} (hj : j.Enumerated)
    (h : j.own name = some value) : value.Enumerated := by
  cases j with
  | object members =>
    obtain ⟨m, hm, rfl⟩ := Option.map_eq_some_iff.mp h
    exact enumeratedMembers_iff.mp hj.2.2 m (List.mem_of_find?_eq_some hm)
  | _ => cases h

/-! ## Members of what is read back -/

/-- The names of a value's own members, in order. -/
def names : Json → List JsString
  | .object members => members.map Prod.fst
  | _ => []

theorem mem_names_of_own {j value : Json} {name : JsString} (h : j.own name = some value) :
    name ∈ j.names := by
  cases j with
  | object members =>
    obtain ⟨m, hfind, -⟩ := Option.map_eq_some_iff.mp h
    have hname : m.1 = name := by simpa using List.find?_some hfind
    exact hname ▸ List.mem_map_of_mem (List.mem_of_find?_eq_some hfind)
  | _ => cases h

theorem own_reparsed {j : Json} (hj : j.Enumerated) (name : JsString) :
    j.reparsed.own name = (j.own name).map reparsed := by
  cases j with
  | object members =>
    rw [reparsed_object hj.1 hj.2.1, reparsedMembers_eq]
    simp only [own, member, List.find?_map, Option.map_map]
    rfl
  | number n => cases n <;> rfl
  | null | bool _ | string _ | array _ => rfl

/-- The member of a name is the one that stands there. -/
theorem member_eq_some_iff (h : (members.map Prod.fst).Nodup) {name : JsString} {value : Json} :
    member members name = some value ↔ (name, value) ∈ members := by
  constructor
  · intro hmember
    obtain ⟨m, hfind, rfl⟩ := Option.map_eq_some_iff.mp hmember
    have hname : m.1 = name := by simpa using List.find?_some hfind
    exact hname ▸ List.mem_of_find?_eq_some hfind
  · intro hmem
    obtain ⟨m, hfind⟩ := Option.isSome_iff_exists.mp
      (List.find?_isSome (p := fun m : JsString × Json => m.1 = name) |>.mpr ⟨_, hmem, by simp⟩)
    have hname : m.1 = name := by simpa using List.find?_some hfind
    obtain rfl : m = (name, value) :=
      List.inj_on_of_nodup_map h (List.mem_of_find?_eq_some hfind) hmem hname
    rw [member, hfind]
    rfl

/-- Members that are distinct are read back, in whichever order they stand. -/
theorem own_reparsed_of_nodup {j : Json} (hj : j.names.Nodup) (name : JsString) :
    j.reparsed.own name = (j.own name).map reparsed := by
  cases j with
  | object members =>
    have hnames : ((members.map fun m => (m.1, m.2.reparsed)).map Prod.fst) =
        members.map Prod.fst := by
      rw [List.map_map]
      rfl
    have hnodup : ((members.map fun m => (m.1, m.2.reparsed)).map Prod.fst).Nodup := hnames ▸ hj
    have hperm := enumerationOrder_perm (members.map fun m => (m.1, m.2.reparsed))
    have hkept : (Json.object members).reparsed =
        .object (enumerationOrder (members.map fun m => (m.1, m.2.reparsed))) := by
      rw [reparsed, reparsedMembers_eq, ofMembers_of_nodup hnodup]
    have hread : member (enumerationOrder (members.map fun m => (m.1, m.2.reparsed))) name =
        member (members.map fun m => (m.1, m.2.reparsed)) name := by
      refine Option.ext fun value => ?_
      rw [member_eq_some_iff ((hperm.map Prod.fst).nodup_iff.mpr hnodup), member_eq_some_iff hnodup]
      exact hperm.mem_iff
    rw [hkept, own, hread]
    simp only [own, member, List.find?_map, Option.map_map]
    rfl
  | number n => cases n <;> rfl
  | null | bool _ | string _ | array _ => rfl

theorem names_reparsed {j : Json} (hj : j.Enumerated) : j.reparsed.names = j.names := by
  cases j with
  | object members =>
    rw [reparsed_object hj.1 hj.2.1, reparsedMembers_eq, names, names, List.map_map]
    rfl
  | number n => cases n <;> rfl
  | null | bool _ | string _ | array _ => rfl

/-- An object whose members are all strings is read back from its text. -/
theorem reparsed_of_strings {j : Json} (hj : j.Enumerated) (hne : j.names ≠ [])
    (h : ∀ name ∈ j.names, ∃ s, j.own name = some (.string s)) : j.reparsed = j := by
  cases j with
  | object members =>
    obtain ⟨hnodup, horder, -⟩ := hj
    have hstrings : ∀ m ∈ members, m.2.reparsed = m.2 := by
      intro m hm
      obtain ⟨s, hs⟩ := h m.1 (List.mem_map_of_mem hm)
      obtain ⟨m', hfind, hstring⟩ := Option.map_eq_some_iff.mp hs
      have hname : m'.1 = m.1 := by simpa using List.find?_some hfind
      obtain rfl : m' = m :=
        List.inj_on_of_nodup_map hnodup (List.mem_of_find?_eq_some hfind) hm hname
      rw [hstring]
      rfl
    rw [reparsed_object hnodup horder, reparsedMembers_eq]
    refine congrArg Json.object ?_
    rw [List.map_congr_left fun m hm => show (m.1, m.2.reparsed) = m by rw [hstrings m hm],
      List.map_id']
  | _ => exact absurd rfl hne

/-- Values with the same text are read back as the same value. -/
theorem reparsed_eq_of_stringify_eq {j j' : Json} (h : j.stringify = j'.stringify) :
    j.reparsed = j'.reparsed := by
  have hread := parse_stringify j
  rw [h, parse_stringify] at hread
  exact (Option.some.inj hread).symm

/-- They have the same names in the same order. -/
theorem names_eq_of_stringify_eq {j j' : Json} (hj : j.Enumerated) (hj' : j'.Enumerated)
    (h : j.stringify = j'.stringify) : j.names = j'.names := by
  rw [← names_reparsed hj, reparsed_eq_of_stringify_eq h, names_reparsed hj']

/-- They have the same strings as members. -/
theorem own_eq_of_stringify_eq {j j' : Json} (hj : j.Enumerated) (hj' : j'.Enumerated)
    (h : j.stringify = j'.stringify) {name : JsString}
    (hstring : ∃ s, j.own name = some (.string s))
    (hstring' : ∃ s, j'.own name = some (.string s)) : j.own name = j'.own name := by
  obtain ⟨s, hs⟩ := hstring
  obtain ⟨s', hs'⟩ := hstring'
  have hread := own_reparsed hj name
  rw [reparsed_eq_of_stringify_eq h, own_reparsed hj', hs, hs'] at hread
  rw [hs, hs']
  exact hread.symm

end Json

end DwnServer
