import Mathlib.Data.List.Nodup

/-!
# Trees and the paths to their leaves

A tree whose inner nodes have named children, and the list of its leaves with the paths that lead
to them. Where the children of a node have distinct names and no inner node below the root is
empty, the leaves and their paths determine the tree: a path leads to a leaf exactly if the
leaf is listed under it, and to an inner node exactly if it leads on to a listed one.
-/

inductive PathTree (κ ν : Type) where
  | leaf (value : ν)
  | node (children : List (κ × PathTree κ ν))

namespace PathTree

variable {κ ν : Type}

/-- Induction over a tree: a node is settled once its children are. -/
@[elab_as_elim]
theorem ind {motive : PathTree κ ν → Prop} (leaf : ∀ value, motive (.leaf value))
    (node : ∀ children, (∀ c ∈ children, motive c.2) → motive (.node children)) : ∀ t, motive t
  | .leaf value => leaf value
  | .node children => node children fun c hc =>
    have hlt : sizeOf c.2 < sizeOf (PathTree.node children) := by
      have := List.sizeOf_lt_of_mem hc
      obtain ⟨key, t⟩ := c
      simp only [Prod.mk.sizeOf_spec, PathTree.node.sizeOf_spec] at this ⊢
      omega
    ind leaf node c.2
termination_by t => sizeOf t
decreasing_by exact hlt

/-- The leaves, each with its path. -/
def flatten : PathTree κ ν → List (List κ × ν)
  | .leaf value => [([], value)]
  | .node children => flattenChildren children
where
  flattenChildren : List (κ × PathTree κ ν) → List (List κ × ν)
    | [] => []
    | (key, t) :: rest => (flatten t).map (fun e => (key :: e.1, e.2)) ++ flattenChildren rest

/-- The names on the paths. -/
def keys : PathTree κ ν → List κ
  | .leaf _ => []
  | .node children => childKeys children
where
  childKeys : List (κ × PathTree κ ν) → List κ
    | [] => []
    | (key, t) :: rest => key :: (keys t ++ childKeys rest)

/-- The children of each node have distinct names, and each child that is a node has children. -/
def Proper : PathTree κ ν → Prop
  | .leaf _ => True
  | .node children => (children.map Prod.fst).Nodup ∧ ProperChildren children
where
  ProperChildren : List (κ × PathTree κ ν) → Prop
    | [] => True
    | (_, t) :: rest => t ≠ .node [] ∧ Proper t ∧ ProperChildren rest

theorem mem_flattenChildren {children : List (κ × PathTree κ ν)} {path : List κ} {value : ν} :
    (path, value) ∈ flatten.flattenChildren children ↔
      ∃ key t rest, (key, t) ∈ children ∧ path = key :: rest ∧ (rest, value) ∈ t.flatten := by
  induction children with
  | nil => simp [flatten.flattenChildren]
  | cons c children ih =>
    obtain ⟨key, t⟩ := c
    simp only [flatten.flattenChildren, List.mem_append, ih, List.mem_cons, List.mem_map]
    constructor
    · rintro (⟨e, he, heq⟩ | ⟨key', t', rest, hmem, hpath⟩)
      · obtain ⟨rfl, rfl⟩ := Prod.mk.inj heq
        exact ⟨key, t, e.1, Or.inl rfl, rfl, he⟩
      · exact ⟨key', t', rest, Or.inr hmem, hpath⟩
    · rintro ⟨key', t', rest, heq | hmem, rfl, he⟩
      · obtain ⟨rfl, rfl⟩ := Prod.mk.inj heq
        exact Or.inl ⟨_, he, rfl⟩
      · exact Or.inr ⟨key', t', rest, hmem, rfl, he⟩

theorem properChildren_iff {children : List (κ × PathTree κ ν)} :
    Proper.ProperChildren children ↔ ∀ c ∈ children, c.2 ≠ .node [] ∧ c.2.Proper := by
  induction children with
  | nil => simp [Proper.ProperChildren]
  | cons c children ih => simp [Proper.ProperChildren, ih, and_assoc]

/-- A tree with children all the way has a leaf. -/
theorem exists_mem_flatten : ∀ t : PathTree κ ν, t.Proper → t ≠ .node [] → ∃ e, e ∈ t.flatten
  | .leaf value, _, _ => ⟨([], value), List.mem_singleton_self _⟩
  | .node [], _, hne => absurd rfl hne
  | .node ((key, t) :: _), hproper, _ => by
    obtain ⟨hne, ht, -⟩ := hproper.2
    obtain ⟨e, he⟩ := exists_mem_flatten t ht hne
    exact ⟨(key :: e.1, e.2), mem_flattenChildren.mpr ⟨key, t, e.1, List.mem_cons_self, rfl, he⟩⟩

theorem mem_childKeys {children : List (κ × PathTree κ ν)} {key : κ} {t : PathTree κ ν}
    (h : (key, t) ∈ children) :
    key ∈ keys.childKeys children ∧ ∀ k ∈ t.keys, k ∈ keys.childKeys children := by
  induction children with
  | nil => cases h
  | cons c children ih =>
    rcases List.mem_cons.mp h with rfl | hrest
    · simp +contextual [keys.childKeys]
    · obtain ⟨hkey, hkeys⟩ := ih hrest
      simp +contextual [keys.childKeys, hkey, hkeys]

theorem mem_keys_of_mem_flatten {t : PathTree κ ν} {path : List κ} {value : ν}
    (h : (path, value) ∈ t.flatten) : ∀ key ∈ path, key ∈ t.keys := by
  induction path generalizing t with
  | nil => simp
  | cons key path ih =>
    cases t with
    | leaf => simp [flatten] at h
    | node children =>
      obtain ⟨key', t, rest, hmem, hpath, hrest⟩ := mem_flattenChildren.mp h
      obtain ⟨rfl, rfl⟩ := List.cons.inj hpath
      obtain ⟨hkey, hkeys⟩ := mem_childKeys hmem
      exact List.forall_mem_cons.mpr ⟨hkey, fun k hk => hkeys k (ih hrest k hk)⟩

/-! ## Following a path -/

variable [DecidableEq κ]

def child? (children : List (κ × PathTree κ ν)) (key : κ) : Option (PathTree κ ν) :=
  (children.find? fun c => c.1 = key).map Prod.snd

/-- The subtree that a path leads to. -/
def at? : PathTree κ ν → List κ → Option (PathTree κ ν)
  | t, [] => some t
  | .leaf _, _ :: _ => none
  | .node children, key :: path => (child? children key).bind fun t => t.at? path

@[simp] theorem at?_nil (t : PathTree κ ν) : t.at? [] = some t := by
  cases t <;> rfl

theorem child?_eq_some {children : List (κ × PathTree κ ν)} (h : (children.map Prod.fst).Nodup)
    {key : κ} {t : PathTree κ ν} : child? children key = some t ↔ (key, t) ∈ children := by
  constructor
  · intro hchild
    obtain ⟨c, hfind, rfl⟩ := Option.map_eq_some_iff.mp hchild
    obtain rfl : c.1 = key := by simpa using List.find?_some hfind
    exact List.mem_of_find?_eq_some hfind
  · intro hmem
    cases hfind : children.find? fun c => c.1 = key with
    | none =>
      have := List.find?_eq_none.mp hfind _ hmem
      simp at this
    | some c =>
      have hkey : c.1 = key := by simpa using List.find?_some hfind
      obtain rfl : c = (key, t) :=
        List.inj_on_of_nodup_map h (List.mem_of_find?_eq_some hfind) hmem hkey
      rw [child?, hfind]
      rfl

theorem at?_append (t : PathTree κ ν) (path path' : List κ) :
    t.at? (path ++ path') = (t.at? path).bind fun s => s.at? path' := by
  induction path generalizing t with
  | nil => simp
  | cons key path ih =>
    cases t with
    | leaf => rfl
    | node children =>
      simp only [List.cons_append, at?, Option.bind_assoc, ih]

theorem Proper.at? {t s : PathTree κ ν} {path : List κ} (ht : t.Proper)
    (h : t.at? path = some s) : s.Proper := by
  induction path generalizing t with
  | nil =>
    obtain rfl := Option.some.inj ((at?_nil t).symm.trans h)
    exact ht
  | cons key path ih =>
    cases t with
    | leaf => cases h
    | node children =>
      obtain ⟨c, hc, hrest⟩ := Option.bind_eq_some_iff.mp h
      have hmem := (child?_eq_some ht.1).mp hc
      exact ih (properChildren_iff.mp ht.2 _ hmem).2 hrest

theorem at?_concat {t : PathTree κ ν} {path : List κ} {children : List (κ × PathTree κ ν)}
    (h : t.at? path = some (.node children)) (key : κ) :
    t.at? (path ++ [key]) = child? children key := by
  rw [at?_append, h, Option.bind_some, PathTree.at?]
  cases child? children key <;> simp

/-- What is below the root is not empty. -/
theorem Proper.ne_empty {t s : PathTree κ ν} (ht : t.Proper) {path : List κ} {key : κ}
    (h : t.at? (path ++ [key]) = some s) : s ≠ .node [] := by
  rw [at?_append] at h
  obtain ⟨parent, hparent, hchild⟩ := Option.bind_eq_some_iff.mp h
  have hproper := ht.at? hparent
  cases parent with
  | leaf => cases hchild
  | node children =>
    obtain ⟨c, hc, hlast⟩ := Option.bind_eq_some_iff.mp hchild
    obtain rfl := Option.some.inj ((at?_nil c).symm.trans hlast)
    exact (properChildren_iff.mp hproper.2 _ ((child?_eq_some hproper.1).mp hc)).1

/-- A leaf is listed under the path that leads to it. -/
theorem mem_flatten {t : PathTree κ ν} (ht : t.Proper) {path : List κ} {value : ν} :
    (path, value) ∈ t.flatten ↔ t.at? path = some (.leaf value) := by
  induction path generalizing t with
  | nil =>
    cases t with
    | leaf value' => simp [flatten, eq_comm]
    | node children => simp [flatten, mem_flattenChildren]
  | cons key path ih =>
    cases t with
    | leaf value' => simp [flatten, PathTree.at?]
    | node children =>
      rw [flatten, mem_flattenChildren, PathTree.at?, Option.bind_eq_some_iff]
      constructor
      · rintro ⟨key', t, rest, hmem, hpath, hrest⟩
        obtain ⟨rfl, rfl⟩ := List.cons.inj hpath
        exact ⟨t, (child?_eq_some ht.1).mpr hmem,
          (ih (properChildren_iff.mp ht.2 _ hmem).2).mp hrest⟩
      · rintro ⟨t, hchild, hrest⟩
        have hmem := (child?_eq_some ht.1).mp hchild
        exact ⟨key, t, path, hmem, rfl, (ih (properChildren_iff.mp ht.2 _ hmem).2).mpr hrest⟩

/-- A path leads to a node with children exactly if it leads on to a leaf. -/
theorem exists_mem_flatten_append {t : PathTree κ ν} (ht : t.Proper) {path : List κ} :
    (∃ key rest value, (path ++ key :: rest, value) ∈ t.flatten) ↔
      ∃ children, t.at? path = some (.node children) ∧ children ≠ [] := by
  constructor
  · rintro ⟨key, rest, value, hmem⟩
    have hleaf := (mem_flatten ht).mp hmem
    rw [at?_append] at hleaf
    obtain ⟨s, hs, hrest⟩ := Option.bind_eq_some_iff.mp hleaf
    cases s with
    | leaf => cases hrest
    | node children =>
      refine ⟨children, hs, ?_⟩
      rintro rfl
      cases hrest
  · rintro ⟨children, hnode, hne⟩
    obtain ⟨⟨key, c⟩, others, rfl⟩ := List.exists_cons_of_ne_nil hne
    have hproper := ht.at? hnode
    obtain ⟨hc, hcproper, -⟩ := hproper.2
    obtain ⟨⟨rest, value⟩, he⟩ := exists_mem_flatten c hcproper hc
    refine ⟨key, rest, value, (mem_flatten ht).mpr ?_⟩
    rw [at?_append, hnode, Option.bind_some, PathTree.at?,
      (child?_eq_some hproper.1).mpr List.mem_cons_self, Option.bind_some]
    exact (mem_flatten hcproper).mp he

theorem leaf_unique {t : PathTree κ ν} (ht : t.Proper) {path : List κ} {value value' : ν}
    (h : (path, value) ∈ t.flatten) (h' : (path, value') ∈ t.flatten) : value' = value := by
  have hleaf := (mem_flatten ht).mp h
  rw [(mem_flatten ht).mp h'] at hleaf
  exact leaf.inj (Option.some.inj hleaf)

/-- No path to a leaf leads on to another one. -/
theorem not_mem_flatten_append {t : PathTree κ ν} (ht : t.Proper) {path : List κ} {value : ν}
    (h : (path, value) ∈ t.flatten) (key : κ) (rest : List κ) (value' : ν) :
    (path ++ key :: rest, value') ∉ t.flatten := by
  intro hbelow
  obtain ⟨children, hnode, -⟩ := (exists_mem_flatten_append ht).mp ⟨key, rest, value', hbelow⟩
  rw [(mem_flatten ht).mp h] at hnode
  cases hnode

end PathTree
