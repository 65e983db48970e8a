import Mathlib.Data.List.Basic

/-!
# Things that are numbered by their place in a list

What a system has made, it keeps in a list, so that each thing has a number for good: a new one
is appended, and a change replaces the one at a number.
-/

namespace Numbered

variable {α : Type*} {l : List α} {p : α → Prop} {n : ℕ}

/-- A thing is an old one, or the new one. -/
theorem getElem?_append_singleton {x y : α} {j : ℕ} (h : (l ++ [y])[j]? = some x) :
    l[j]? = some x ∨ j = l.length ∧ y = x := by
  rw [List.getElem?_append] at h
  split_ifs at h with hlt
  · exact Or.inl h
  · rw [List.getElem?_singleton] at h
    obtain ⟨hj, h⟩ := Option.ite_none_right_eq_some.mp h
    exact Or.inr ⟨by omega, Option.some.inj h⟩

theorem forall_append (h : ∀ x ∈ l, p x) (y : α) :
    ∀ j x, (l ++ [y])[j]? = some x → j ≠ l.length → p x := by
  intro j x hj hne
  rcases getElem?_append_singleton hj with hold | ⟨hnew, -⟩
  · exact h x (List.mem_of_getElem? hold)
  · exact absurd hnew hne

theorem forall_modify {f : α → α} (h : ∀ j x, l[j]? = some x → j ≠ n → p x)
    (hn : ∀ x, l[n]? = some x → p (f x)) : ∀ x ∈ l.modify n f, p x := by
  intro x hx
  obtain ⟨j, hj⟩ := List.mem_iff_getElem?.mp hx
  obtain ⟨y, hy, rfl⟩ := Option.map_eq_some_iff.mp ((List.getElem?_modify ..).symm.trans hj)
  split_ifs with hnj
  · exact hn y (hnj ▸ hy)
  · exact h j y hy (Ne.symm hnj)

/-- A change that takes the thing at a number out of those that satisfy `p`. -/
theorem countP_modify_lt {p : α → Bool} {f : α → α} {x : α} (hx : l[n]? = some x)
    (hp : p x = true) (hf : p (f x) = false) : (l.modify n f).countP p < l.countP p := by
  induction l generalizing n with
  | nil => cases hx
  | cons y l ih =>
    cases n with
    | zero =>
      obtain rfl := Option.some.inj hx
      simp [hp, hf]
    | succ n =>
      have hrest : (l.modify n f).countP p < l.countP p := ih hx
      rw [List.modify_succ_cons, List.countP_cons, List.countP_cons]
      omega

/-- A change that a function does not see. -/
theorem map_modify {β : Type*} {f : α → β} {g : α → α} (h : ∀ x, f (g x) = f x) (l : List α)
    (i : ℕ) : (l.modify i g).map f = l.map f := by
  refine List.ext_getElem? fun j => ?_
  rw [List.getElem?_map, List.getElem?_map, List.getElem?_modify]
  cases l[j]? with
  | none => rfl
  | some x =>
    simp only [Option.map_some, Option.map_eq_map]
    split_ifs <;> simp [h]

end Numbered
