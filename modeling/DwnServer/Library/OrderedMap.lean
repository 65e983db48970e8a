import Mathlib.Data.List.Nodup

/-!
# Insertion-ordered maps

The `Map` of ECMAScript: distinct keys in insertion order, where setting an existing
key keeps its place. The distinctness of the keys is a field, so `get?` and the
entries determine each other and no caller has to carry an invariant for it.
-/

/-- A finite map that remembers the order in which its keys were first set. -/
structure OrderedMap (κ ν : Type*) where
  entries : List (κ × ν)
  nodup : (entries.map Prod.fst).Nodup
  deriving DecidableEq

namespace OrderedMap

variable {κ ν : Type*}

@[ext] theorem ext {m m' : OrderedMap κ ν} (h : m.entries = m'.entries) : m = m' := by
  cases m; cases m'; cases h; rfl

def empty : OrderedMap κ ν := ⟨[], List.nodup_nil⟩

def size (m : OrderedMap κ ν) : Nat := m.entries.length

def keys (m : OrderedMap κ ν) : List κ := m.entries.map Prod.fst

def values (m : OrderedMap κ ν) : List ν := m.entries.map Prod.snd

/-- Keep the entries that satisfy a predicate, in order. -/
def filter (p : κ → ν → Bool) (m : OrderedMap κ ν) : OrderedMap κ ν where
  entries := m.entries.filter fun e => p e.1 e.2
  nodup := m.nodup.sublist (List.filter_sublist.map _)

@[simp] theorem entries_empty : (empty : OrderedMap κ ν).entries = [] := rfl
@[simp] theorem size_empty : (empty : OrderedMap κ ν).size = 0 := rfl

@[simp] theorem mem_entries_filter {p : κ → ν → Bool} {m : OrderedMap κ ν} {k : κ} {v : ν} :
    (k, v) ∈ (m.filter p).entries ↔ (k, v) ∈ m.entries ∧ p k v = true := by
  simp [filter]

/-- A key has at most one entry. -/
theorem value_unique {m : OrderedMap κ ν} {k : κ} {v w : ν} (hv : (k, v) ∈ m.entries)
    (hw : (k, w) ∈ m.entries) : v = w := by
  have same := List.inj_on_of_nodup_map m.nodup hv hw rfl
  exact (Prod.mk.inj same).2

variable [DecidableEq κ]

def get? (m : OrderedMap κ ν) (k : κ) : Option ν :=
  (m.entries.find? fun e => e.1 = k).map Prod.snd

def has (m : OrderedMap κ ν) (k : κ) : Bool := m.entries.any fun e => e.1 = k

/-- Remove a key; absent keys are ignored. -/
def delete (m : OrderedMap κ ν) (k : κ) : OrderedMap κ ν := m.filter fun k' _ => k' ≠ k

/-- Set a key: an existing entry is overwritten in place, a new one goes last. -/
def set (m : OrderedMap κ ν) (k : κ) (v : ν) : OrderedMap κ ν where
  entries := if m.has k then m.entries.map fun e => if e.1 = k then (k, v) else e
    else m.entries ++ [(k, v)]
  nodup := by
    split_ifs with h
    · have same : (m.entries.map fun e => if e.1 = k then (k, v) else e).map Prod.fst =
          m.entries.map Prod.fst := by
        rw [List.map_map]
        refine List.map_congr_left fun e _ => ?_
        by_cases he : e.1 = k <;> simp [he]
      exact same ▸ m.nodup
    · have fresh : ∀ a ∈ m.entries.map Prod.fst, a ≠ k := by
        rintro a ha rfl
        obtain ⟨e, he, hk⟩ := List.mem_map.mp ha
        exact h (List.any_eq_true.mpr ⟨e, he, by simpa using hk⟩)
      rw [List.map_append]
      exact List.nodup_append.mpr ⟨m.nodup, List.nodup_singleton k, by simpa using fresh⟩

@[simp] theorem get?_empty (k : κ) : (empty : OrderedMap κ ν).get? k = none := rfl

theorem get?_eq_some {m : OrderedMap κ ν} {k : κ} {v : ν} :
    m.get? k = some v ↔ (k, v) ∈ m.entries := by
  constructor
  · intro h
    obtain ⟨⟨k', v'⟩, he, rfl⟩ := Option.map_eq_some_iff.mp h
    have hk := List.find?_some he
    simp only [decide_eq_true_eq] at hk
    exact hk ▸ List.mem_of_find?_eq_some he
  · intro h
    cases he : m.entries.find? fun e => e.1 = k with
    | none => exact absurd (List.find?_eq_none.mp he _ h) (by simp)
    | some e =>
      have hk := List.find?_some he
      simp only [decide_eq_true_eq] at hk
      have hv : (k, e.2) ∈ m.entries := hk ▸ List.mem_of_find?_eq_some he
      simp [get?, he, value_unique hv h]

theorem mem_values {m : OrderedMap κ ν} {v : ν} : v ∈ m.values ↔ ∃ k, m.get? k = some v := by
  simp [values, get?_eq_some]

theorem has_iff {m : OrderedMap κ ν} {k : κ} : m.has k = true ↔ ∃ v, m.get? k = some v := by
  simp [has, get?_eq_some]

theorem has_eq_false {m : OrderedMap κ ν} {k : κ} : m.has k = false ↔ m.get? k = none := by
  rw [← Bool.not_eq_true, has_iff]
  cases m.get? k <;> simp

theorem get?_delete (m : OrderedMap κ ν) (k k' : κ) :
    (m.delete k).get? k' = if k' = k then none else m.get? k' := by
  ext v
  split_ifs with h <;> simp [get?_eq_some, delete, h]

theorem get?_filter {p : κ → ν → Bool} {m : OrderedMap κ ν} {k : κ} {v : ν} :
    (m.filter p).get? k = some v ↔ m.get? k = some v ∧ p k v = true := by
  simp [get?_eq_some]

theorem get?_filter_eq (p : κ → ν → Bool) (m : OrderedMap κ ν) (k : κ) :
    (m.filter p).get? k = (m.get? k).filter (p k) := by
  ext v
  rw [get?_filter, Option.filter_eq_some_iff]

theorem mem_entries_set {m : OrderedMap κ ν} {k k' : κ} {v v' : ν} :
    (k', v') ∈ (m.set k v).entries ↔
      (k' = k ∧ v' = v) ∨ (k' ≠ k ∧ (k', v') ∈ m.entries) := by
  simp only [set]
  split_ifs with h
  · simp only [has, List.any_eq_true, decide_eq_true_eq] at h
    obtain ⟨e, he, hk⟩ := h
    simp only [List.mem_map]
    constructor
    · rintro ⟨e', he', heq⟩
      by_cases hk' : e'.1 = k
      · simp only [hk', if_true, Prod.mk.injEq] at heq
        exact Or.inl ⟨heq.1.symm, heq.2.symm⟩
      · simp only [hk', if_false] at heq
        exact Or.inr ⟨by simpa [heq] using hk', heq ▸ he'⟩
    · rintro (⟨rfl, rfl⟩ | ⟨hne, hmem⟩)
      · exact ⟨e, he, by simp [hk]⟩
      · exact ⟨_, hmem, by simp [hne]⟩
  · have fresh : ∀ w, (k, w) ∉ m.entries := by
      intro w hw
      exact h (has_iff.mpr ⟨w, get?_eq_some.mpr hw⟩)
    simp only [List.mem_append, List.mem_singleton, Prod.mk.injEq]
    constructor
    · rintro (hmem | ⟨rfl, rfl⟩)
      · exact Or.inr ⟨fun hk => fresh v' (hk ▸ hmem), hmem⟩
      · exact Or.inl ⟨rfl, rfl⟩
    · rintro (⟨rfl, rfl⟩ | ⟨_, hmem⟩)
      · exact Or.inr ⟨rfl, rfl⟩
      · exact Or.inl hmem

theorem get?_set (m : OrderedMap κ ν) (k k' : κ) (v : ν) :
    (m.set k v).get? k' = if k' = k then some v else m.get? k' := by
  ext w
  rw [get?_eq_some, mem_entries_set]
  split_ifs with h
  · simp [h, eq_comm]
  · simp [h, get?_eq_some]

@[simp] theorem get?_set_self (m : OrderedMap κ ν) (k : κ) (v : ν) :
    (m.set k v).get? k = some v := by simp [get?_set]

theorem size_set_le (m : OrderedMap κ ν) (k : κ) (v : ν) : (m.set k v).size ≤ m.size + 1 := by
  unfold set size
  split_ifs <;> simp

theorem of_mem_values_set {m : OrderedMap κ ν} {k : κ} {v v' : ν} (h : v' ∈ (m.set k v).values) :
    v' = v ∨ v' ∈ m.values := by
  obtain ⟨k', hk'⟩ := mem_values.mp h
  rw [get?_set] at hk'
  split_ifs at hk'
  · exact Or.inl (Option.some.inj hk').symm
  · exact Or.inr (mem_values.mpr ⟨k', hk'⟩)

theorem of_mem_values_delete {m : OrderedMap κ ν} {k : κ} {v : ν} (h : v ∈ (m.delete k).values) :
    v ∈ m.values := by
  obtain ⟨k', hk'⟩ := mem_values.mp h
  rw [get?_delete] at hk'
  split_ifs at hk'
  exact mem_values.mpr ⟨k', hk'⟩

theorem has_set {m : OrderedMap κ ν} {k k' : κ} {v : ν} :
    (m.set k v).has k' = true ↔ k' = k ∨ m.has k' = true := by
  rw [has_iff, has_iff, get?_set]
  split_ifs with h <;> simp [h]

theorem has_delete {m : OrderedMap κ ν} {k k' : κ} :
    (m.delete k).has k' = true ↔ k' ≠ k ∧ m.has k' = true := by
  rw [has_iff, has_iff, get?_delete]
  split_ifs with h <;> simp [h]

/-- What a map holds after one key after another was set was set or was there before. -/
theorem get?_foldl_set {α : Type*} (key : α → κ) (value : α → ν) {as : List α}
    {m : OrderedMap κ ν} {k : κ} {v : ν}
    (h : (as.foldl (fun m a => m.set (key a) (value a)) m).get? k = some v) :
    (∃ a ∈ as, key a = k ∧ value a = v) ∨ m.get? k = some v := by
  induction as generalizing m with
  | nil => exact Or.inr h
  | cons a as ih =>
    rcases ih h with ⟨b, hb, hk⟩ | hm
    · exact Or.inl ⟨b, List.mem_cons_of_mem _ hb, hk⟩
    · rw [get?_set] at hm
      split_ifs at hm with hk
      · exact Or.inl ⟨a, List.mem_cons_self, hk.symm, Option.some.inj hm⟩
      · exact Or.inr hm

theorem get?_foldl_set_of_mem {α : Type*} {key : α → κ} {value : α → ν} {as : List α}
    {m : OrderedMap κ ν} {k : κ} {v : ν} (h : (∃ a ∈ as, key a = k) ∨ m.get? k = some v)
    (hvalue : ∀ a ∈ as, key a = k → value a = v) :
    (as.foldl (fun m a => m.set (key a) (value a)) m).get? k = some v := by
  induction as generalizing m with
  | nil => simpa using h
  | cons a as ih =>
    refine ih ?_ fun b hb => hvalue b (List.mem_cons_of_mem _ hb)
    by_cases hkey : key a = k
    · rw [← hkey, get?_set_self, hvalue a List.mem_cons_self hkey]
      exact Or.inr rfl
    · rcases h with ⟨b, hb, hk⟩ | hm
      · rcases List.mem_cons.mp hb with rfl | hrest
        · exact absurd hk hkey
        · exact Or.inl ⟨b, hrest, hk⟩
      · exact Or.inr (by rw [get?_set, if_neg (Ne.symm hkey), hm])

/-- Setting an absent key adds one entry, at the end. -/
theorem entries_set_of_absent {m : OrderedMap κ ν} {k : κ} (h : m.get? k = none) (v : ν) :
    (m.set k v).entries = m.entries ++ [(k, v)] := by
  simp [set, has_eq_false.mpr h]

end OrderedMap
