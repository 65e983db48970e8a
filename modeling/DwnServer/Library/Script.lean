import Mathlib.Data.List.Basic

/-!
# Computations that may fail and keep the state they reached

A script reads and writes a state and answers a value or fails; a failure stops it and
leaves the state as it stands. `Keeps` says that a predicate of the state survives a script;
`Alike` says that two runs of one script, from related
states, answer alike and end in related states. The rules follow the way scripts are put
together, and a loop is followed as long as each of its iterations meets a guard on the
state before it.
-/

/-- A computation over the state `σ`. -/
def Script (σ α : Type*) := σ → Option α × σ

namespace Script

variable {σ α β : Type}

instance : Monad (Script σ) where
  pure a := fun s => (some a, s)
  bind x f := fun s =>
    match x s with
    | (some a, t) => f a t
    | (none, t) => (none, t)

/-- Read the state. -/
def reads (f : σ → α) : Script σ α := fun s => (some (f s), s)

/-- Write the state that `f` gives, or fail where it gives none. -/
def writes (f : σ → Option σ) : Script σ Unit := fun s =>
  match f s with
  | some t => (some (), t)
  | none => (none, s)

def fail : Script σ α := fun s => (none, s)

@[simp] theorem pure_apply (a : α) (s : σ) : (pure a : Script σ α) s = (some a, s) := rfl

@[simp] theorem reads_apply (f : σ → α) (s : σ) : reads f s = (some (f s), s) := rfl

@[simp] theorem fail_apply (s : σ) : (fail : Script σ α) s = (none, s) := rfl

theorem bind_of_some {x : Script σ α} {f : α → Script σ β} {s t : σ} {a : α}
    (h : x s = (some a, t)) : (x >>= f) s = f a t := by
  change (match x s with | (some a, t) => f a t | (none, t) => (none, t)) = f a t
  rw [h]

theorem bind_of_none {x : Script σ α} {f : α → Script σ β} {s t : σ}
    (h : x s = (none, t)) : (x >>= f) s = (none, t) := by
  change (match x s with | (some a, t) => f a t | (none, t) => (none, t)) = (none, t)
  rw [h]

/-- What a script answers that goes on after another one's answer. -/
theorem exists_of_bind {x : Script σ α} {f : α → Script σ β} {s t : σ} {b : β}
    (h : (x >>= f) s = (some b, t)) : ∃ a u, x s = (some a, u) ∧ f a u = (some b, t) := by
  rcases hx : x s with ⟨_ | a, u⟩
  · rw [bind_of_none hx] at h
    cases h
  · rw [bind_of_some hx] at h
    exact ⟨a, u, rfl, h⟩

/-- An answer found by evaluating the script. -/
theorem exists_of_isSome {x : Script σ α} {s : σ} (h : (x s).1.isSome = true) :
    ∃ a t, x s = (some a, t) := by
  rcases hx : x s with ⟨_ | a, t⟩
  · rw [hx] at h
    cases h
  · exact ⟨a, t, rfl⟩

/-- A loop goes on with the rest of its list from the state the first part ends in. -/
theorem foldlM_append_of_some {f : β → α → Script σ β} {as rest : List α} {b c : β} {s t : σ}
    (h : as.foldlM f b s = (some c, t)) : (as ++ rest).foldlM f b s = rest.foldlM f c t := by
  induction as generalizing b s with
  | nil =>
    obtain ⟨rfl, rfl⟩ : b = c ∧ s = t := by simpa using h
    rfl
  | cons a as ih =>
    rcases hfirst : f b a s with ⟨_ | d, u⟩
    · rw [List.foldlM_cons, bind_of_none hfirst] at h
      cases h
    · rw [List.foldlM_cons, bind_of_some hfirst] at h
      rw [List.cons_append, List.foldlM_cons, bind_of_some hfirst]
      exact ih h

/-! ## What a script keeps -/

/-- A state that meets `I` is left for one that does, also when the script fails. -/
def Keeps (I : σ → Prop) (x : Script σ α) : Prop := ∀ s, I s → I (x s).2

section Keeps

variable {I : σ → Prop}

theorem Keeps.after {x : Script σ α} (hx : Keeps I x) {s t : σ} {a : Option α} (hs : I s)
    (h : x s = (a, t)) : I t := by
  have ht := hx s hs
  rwa [h] at ht

theorem keeps_pure (a : α) : Keeps I (pure a : Script σ α) := fun _ hs => hs

theorem keeps_fail : Keeps I (fail : Script σ α) := fun _ hs => hs

theorem keeps_reads (f : σ → α) : Keeps I (reads f) := fun _ hs => hs

theorem keeps_writes {f : σ → Option σ} (h : ∀ s t, I s → f s = some t → I t) :
    Keeps I (writes f) := by
  intro s hs
  unfold writes
  split
  · rename_i t ht
    exact h s t hs ht
  · exact hs

theorem keeps_bind {x : Script σ α} {f : α → Script σ β} (hx : Keeps I x)
    (hf : ∀ a, Keeps I (f a)) : Keeps I (x >>= f) := by
  intro s hs
  have hmid := hx s hs
  rcases hrun : x s with ⟨_ | a, t⟩ <;> rw [hrun] at hmid
  · rwa [bind_of_none hrun]
  · rw [bind_of_some hrun]
    exact hf a t hmid

theorem keeps_foldlM {f : β → α → Script σ β} (hf : ∀ b a, Keeps I (f b a)) (b : β)
    (as : List α) : Keeps I (as.foldlM f b) := by
  induction as generalizing b with
  | nil => exact keeps_pure b
  | cons a as ih =>
    rw [List.foldlM_cons]
    exact keeps_bind (hf b a) ih

end Keeps

/-! ## Two runs of one script -/

/-- Run from `s` and from `t`, the script answers the same or fails both times, and the
states it ends in are related by `R`; an answer and the state the first run ends in
meet `A`. -/
structure Alike (R : σ → σ → Prop) (A : α → σ → Prop) (x : Script σ α) (s t : σ) : Prop where
  answer : (x s).1 = (x t).1
  states : R (x s).2 (x t).2
  meets : ∀ a, (x s).1 = some a → A a (x s).2

variable {R S : σ → σ → Prop} {A A' : α → σ → Prop} {B : β → σ → Prop} {s t : σ}

theorem Alike.mono {x : Script σ α} (h : Alike R A x s t) (hR : ∀ s t, R s t → S s t)
    (hA : ∀ a s t, R s t → A a s → A' a s) : Alike S A' x s t :=
  ⟨h.answer, hR _ _ h.states, fun a ha => hA a _ _ h.states (h.meets a ha)⟩

theorem alike_pure {a : α} (hR : R s t) (hA : A a s) : Alike R A (pure a : Script σ α) s t :=
  ⟨rfl, hR, fun _ h => Option.some.inj h ▸ hA⟩

theorem alike_fail (hR : R s t) : Alike R A (fail : Script σ α) s t :=
  ⟨rfl, hR, fun _ h => nomatch h⟩

theorem alike_reads {f : σ → α} (hR : R s t) (hf : f s = f t) (hA : A (f s) s) :
    Alike R A (reads f) s t :=
  ⟨congrArg some hf, hR, fun _ h => Option.some.inj h ▸ hA⟩

/-- Two runs that fail together or write related states. -/
theorem alike_writes {f : σ → Option σ} {C : Unit → σ → Prop} (hR : R s t)
    (h : (f s = none ∧ f t = none) ∨
      ∃ s' t', f s = some s' ∧ f t = some t' ∧ R s' t' ∧ C () s') :
    Alike R C (writes f) s t := by
  rcases h with ⟨hs, ht⟩ | ⟨s', t', hs, ht, hR', hC⟩
  · exact ⟨by simp [writes, hs, ht], by simpa [writes, hs, ht] using hR, by simp [writes, hs]⟩
  · exact ⟨by simp [writes, hs, ht], by simpa [writes, hs, ht] using hR', by simp [writes, hs, hC]⟩

theorem alike_bind {x : Script σ α} {f : α → Script σ β} (hx : Alike R A x s t)
    (hf : ∀ a s' t', x s = (some a, s') → A a s' → R s' t' → Alike R B (f a) s' t') :
    Alike R B (x >>= f) s t := by
  obtain ⟨answer, states, meets⟩ := hx
  rcases hs : x s with ⟨o, s'⟩
  rcases ht : x t with ⟨o', t'⟩
  rw [hs, ht] at answer states
  rw [hs] at meets
  obtain rfl : o = o' := answer
  cases o with
  | none =>
    have fails : (x >>= f) s = (none, s') := bind_of_none hs
    have fails' : (x >>= f) t = (none, t') := bind_of_none ht
    exact ⟨by rw [fails, fails'], by rw [fails, fails']; exact states, by simp [fails]⟩
  | some a =>
    have rest := hf a s' t' hs (meets a rfl) states
    have goes : (x >>= f) s = f a s' := bind_of_some hs
    have goes' : (x >>= f) t = f a t' := bind_of_some ht
    exact ⟨by rw [goes, goes']; exact rest.answer, by rw [goes, goes']; exact rest.states,
      by rw [goes]; exact rest.meets⟩

/-! ## Guarded loops -/

/-- Each iteration of a loop finds the guard met in the state before it. -/
def EachMeets (f : β → α → Script σ β) (ok : β → α → σ → Prop) : β → List α → σ → Prop
  | _, [], _ => True
  | b, a :: as, s =>
    ok b a s ∧ match f b a s with
      | (some c, t) => EachMeets f ok c as t
      | (none, _) => True

instance EachMeets.decidable {f : β → α → Script σ β} {ok : β → α → σ → Prop}
    [∀ b a s, Decidable (ok b a s)] :
    ∀ (b : β) (as : List α) (s : σ), Decidable (EachMeets f ok b as s)
  | _, [], _ => .isTrue trivial
  | b, a :: as, s =>
    have _ : Decidable (match f b a s with
        | (some c, t) => EachMeets f ok c as t
        | (none, _) => True) :=
      match f b a s with
      | (some c, t) => EachMeets.decidable c as t
      | (none, _) => .isTrue trivial
    inferInstanceAs (Decidable (_ ∧ _))

theorem alike_foldlM {f : β → α → Script σ β} {ok : β → α → σ → Prop} {P : β → Prop}
    {as : List α}
    (hf : ∀ a ∈ as, ∀ b s t, P b → R s t → ok b a s → Alike R (fun c _ => P c) (f b a) s t)
    {b : β} (hb : P b) (hR : R s t) (guard : EachMeets f ok b as s) :
    Alike R (fun c _ => P c) (as.foldlM f b) s t := by
  induction as generalizing b s t with
  | nil => exact alike_pure hR hb
  | cons a as ih =>
    obtain ⟨hfirst, hrest⟩ := List.forall_mem_cons.mp hf
    obtain ⟨hok, rest⟩ := guard
    refine alike_bind (hfirst b s t hb hR hok) fun c s' t' hc hP hR' => ih hrest hP hR' ?_
    simpa [hc] using rest

end Script
