import Mathlib.Data.List.Basic

/-!
# Labelled transition systems and their runs

A system is a partial step function: `step s a` is the state after action `a`, and
`none` where `a` is not enabled in `s`. `run` folds a list of actions; a state is
reachable when some list of actions leads to it. `Along` says that every step of a
run satisfies a relation, `Throughout` that every state of a run satisfies a
predicate. The rules below carry what one step preserves to whole runs, turn a
step-by-step guard that is necessary and sufficient into an equivalence about runs,
and make a run of a machine a run of the machine it refines.
-/

namespace Transition

variable {σ α : Type*} (step : σ → α → Option σ)

/-- The state after a list of actions, when each of them is enabled in turn. -/
def run : σ → List α → Option σ
  | s, [] => some s
  | s, a :: as => (step s a).bind fun t => run t as

@[simp] theorem run_nil (s : σ) : run step s [] = some s := rfl

@[simp] theorem run_cons (s : σ) (a : α) (as : List α) :
    run step s (a :: as) = (step s a).bind fun t => run step t as := rfl

theorem run_append (s : σ) (as bs : List α) :
    run step s (as ++ bs) = (run step s as).bind fun t => run step t bs := by
  induction as generalizing s with
  | nil => rfl
  | cons a as ih =>
    cases h : step s a with
    | none => simp [h]
    | some t => simp [h, ih]

/-- Every step the run takes satisfies `R`. -/
def Along (R : σ → α → σ → Prop) : σ → List α → Prop
  | _, [] => True
  | s, a :: as => ∀ t, step s a = some t → R s a t ∧ Along R t as

/-- Every state the run visits satisfies `P`, the first one included. -/
def Throughout (P : σ → Prop) (s : σ) (as : List α) : Prop :=
  P s ∧ Along step (fun _ _ t => P t) s as

variable {step}

theorem Along.mono {R S : σ → α → σ → Prop} (h : ∀ s a t, R s a t → S s a t) {s : σ}
    {as : List α} (along : Along step R s as) : Along step S s as := by
  induction as generalizing s with
  | nil => trivial
  | cons a as ih =>
    intro t ht
    obtain ⟨hr, rest⟩ := along t ht
    exact ⟨h _ _ _ hr, ih rest⟩

theorem Along.and {R S : σ → α → σ → Prop} {s : σ} {as : List α} (hR : Along step R s as)
    (hS : Along step S s as) : Along step (fun s a t => R s a t ∧ S s a t) s as := by
  induction as generalizing s with
  | nil => trivial
  | cons a as ih =>
    intro t ht
    obtain ⟨hr, hrestR⟩ := hR t ht
    obtain ⟨hs, hrestS⟩ := hS t ht
    exact ⟨⟨hr, hs⟩, ih hrestR hrestS⟩

theorem Along.of_append {R : σ → α → σ → Prop} {s : σ} {as bs : List α}
    (along : Along step R s (as ++ bs)) : Along step R s as := by
  induction as generalizing s with
  | nil => trivial
  | cons a as ih =>
    intro t ht
    obtain ⟨hr, rest⟩ := along t ht
    exact ⟨hr, ih rest⟩

/-- A step that the run takes satisfies what all its steps satisfy. -/
theorem Along.at {R : σ → α → σ → Prop} {s t u : σ} {as bs : List α} {a : α}
    (along : Along step R s (as ++ a :: bs)) (hrun : run step s as = some t)
    (hstep : step t a = some u) : R t a u := by
  induction as generalizing s with
  | nil =>
    obtain rfl := Option.some.inj hrun
    exact (along u hstep).1
  | cons b as ih =>
    obtain ⟨v, hv, hrest⟩ := Option.bind_eq_some_iff.mp hrun
    exact ih (along v hv).2 hrest

/-- What every step preserves holds after every run. -/
theorem run_invariant {I : σ → Prop} (preserve : ∀ s a t, I s → step s a = some t → I t)
    {s t : σ} {as : List α} (hs : I s) (h : run step s as = some t) : I t := by
  induction as generalizing s with
  | nil => exact Option.some.inj h ▸ hs
  | cons a as ih =>
    obtain ⟨u, hu, hrun⟩ := Option.bind_eq_some_iff.mp h
    exact ih (preserve s a u hs hu) hrun

/-- What the actions of a kind preserve holds after every run of such actions. -/
theorem run_invariant_of_forall {I : σ → Prop} {ok : α → Prop}
    (preserve : ∀ s a t, I s → ok a → step s a = some t → I t) {s t : σ} {as : List α}
    (has : ∀ a ∈ as, ok a) (hs : I s) (h : run step s as = some t) : I t := by
  induction as generalizing s with
  | nil => exact Option.some.inj h ▸ hs
  | cons a as ih =>
    obtain ⟨ha, hrest⟩ := List.forall_mem_cons.mp has
    obtain ⟨u, hu, hrun⟩ := Option.bind_eq_some_iff.mp h
    exact ih hrest (preserve s a u hs ha hu) hrun

/-- What the actions of a kind preserve, about the state and the actions that led to it, holds
after every run of such actions. -/
theorem run_invariant_of_past {I : List α → σ → Prop} {ok : α → Prop}
    (preserve : ∀ past s a t, I past s → ok a → step s a = some t → I (past ++ [a]) t) {s t : σ}
    {past as : List α} (has : ∀ a ∈ as, ok a) (hs : I past s) (h : run step s as = some t) :
    I (past ++ as) t := by
  induction as generalizing past s with
  | nil => simpa using Option.some.inj h ▸ hs
  | cons a as ih =>
    obtain ⟨ha, hrest⟩ := List.forall_mem_cons.mp has
    obtain ⟨u, hu, hrun⟩ := Option.bind_eq_some_iff.mp h
    simpa using ih hrest (preserve past s a u hs ha hu) hrun

/-- What every step after a run preserves, about the state and the actions that led to it. -/
theorem run_history {I : List α → σ → Prop} {s t : σ} {as : List α}
    (preserve : ∀ past u a v, run step s past = some u → I past u → step u a = some v →
      I (past ++ [a]) v)
    (hs : I [] s) (h : run step s as = some t) : I as t := by
  have hrun : run step s as = some t ∧ I as t :=
    run_invariant_of_past (I := fun past u => run step s past = some u ∧ I past u)
      (fun past u a v hu _ hstep =>
        ⟨by rw [run_append, hu.1, Option.bind_some, run_cons, hstep]; rfl,
          preserve past u a v hu.1 hu.2 hstep⟩)
      (fun _ _ => trivial) ⟨rfl, hs⟩ h
  exact hrun.2

/-- An invariant that counts the actions of a kind holds after a guarded run, when these actions
carry it from one count to the next and all others keep it. -/
theorem run_invariant_of_count {I : ℕ → σ → Prop} {R : σ → α → σ → Prop} {counts : α → Bool}
    (counted : ∀ n s a t, I n s → R s a t → step s a = some t → counts a = true → I (n + 1) t)
    (others : ∀ n s a t, I n s → R s a t → step s a = some t → counts a = false → I n t)
    {s t : σ} {n : ℕ} {as : List α} (along : Along step R s as) (hs : I n s)
    (h : run step s as = some t) : I (n + as.countP counts) t := by
  induction as generalizing n s with
  | nil => exact Option.some.inj h ▸ hs
  | cons a as ih =>
    obtain ⟨u, hu, hrun⟩ := Option.bind_eq_some_iff.mp h
    obtain ⟨hR, hrest⟩ := along u hu
    cases ha : counts a with
    | true =>
      rw [List.countP_cons_of_pos ha, Nat.add_comm _ 1, ← Nat.add_assoc]
      exact ih hrest (counted n s a u hs hR hu ha) hrun
    | false =>
      rw [List.countP_cons_of_neg (by simp [ha])]
      exact ih hrest (others n s a u hs hR hu ha) hrun

/-- What happens to a part of the state in a run is a run of the part, when each step makes some
steps of it. -/
theorem exists_run_of_part {τ β : Type*} {p : σ → τ} {step' : τ → β → Option τ}
    {I : List α → List β → σ → Prop}
    (preserve : ∀ past bs s a t, I past bs s → step s a = some t →
      ∃ more, run step' (p s) more = some (p t) ∧ I (past ++ [a]) (bs ++ more) t)
    {s t : σ} {as : List α} (hs : I [] [] s) (h : run step s as = some t) :
    ∃ bs, run step' (p s) bs = some (p t) ∧ I as bs t := by
  refine run_history (I := fun past u => ∃ bs, run step' (p s) bs = some (p u) ∧ I past bs u)
    (fun past u a v _ hu hstep => ?_) ⟨[], rfl, hs⟩ h
  obtain ⟨bs, hbs, hI⟩ := hu
  obtain ⟨more, hmore, hI'⟩ := preserve past bs u a v hI hstep
  exact ⟨bs ++ more, by rw [run_append, hbs]; exact hmore, hI'⟩

/-- An invariant of the history too, where every step of a run meets a guard. -/
theorem run_history_of_along {I : List α → σ → Prop} {R : σ → α → σ → Prop}
    (preserve : ∀ past u a v, I past u → R u a v → step u a = some v → I (past ++ [a]) v) {s t : σ}
    {past as : List α} (along : Along step R s as) (hs : I past s) (h : run step s as = some t) :
    I (past ++ as) t := by
  induction as generalizing past s with
  | nil => simpa using Option.some.inj h ▸ hs
  | cons a as ih =>
    obtain ⟨u, hu, hrun⟩ := Option.bind_eq_some_iff.mp h
    obtain ⟨hR, hrest⟩ := along u hu
    have hI := ih hrest (preserve past s a u hs hR hu) hrun
    rwa [List.append_assoc, List.singleton_append] at hI

/-- With an invariant that guarded steps preserve, the steps of a guarded run satisfy what
the guard gives in the states of the invariant. -/
theorem along_of_invariant {I : σ → Prop} {R S : σ → α → σ → Prop}
    (preserve : ∀ s a t, I s → R s a t → step s a = some t → I t ∧ S s a t) {s : σ}
    {as : List α} (hs : I s) (along : Along step R s as) : Along step S s as := by
  induction as generalizing s with
  | nil => trivial
  | cons a as ih =>
    intro t ht
    obtain ⟨hr, rest⟩ := along t ht
    obtain ⟨ht', hS⟩ := preserve s a t hs hr ht
    exact ⟨hS, ih ht' rest⟩

/-- With an invariant that every step preserves, the steps of every run satisfy what the
invariant gives. -/
theorem along_of_preserved {I : σ → Prop} {S : σ → α → σ → Prop}
    (preserve : ∀ s a t, I s → step s a = some t → I t ∧ S s a t) {s : σ} (hs : I s)
    (as : List α) : Along step S s as := by
  induction as generalizing s with
  | nil => trivial
  | cons a as ih =>
    intro t ht
    obtain ⟨ht', hS⟩ := preserve s a t hs ht
    exact ⟨hS, ih ht'⟩

/-- Where an invariant makes two relations the same, the steps of a run satisfy the one exactly if
they satisfy the other. -/
theorem along_congr {I : σ → Prop} {R S : σ → α → σ → Prop}
    (preserve : ∀ s a t, I s → step s a = some t → I t)
    (h : ∀ s a t, I s → step s a = some t → (R s a t ↔ S s a t)) {s : σ} {as : List α} (hs : I s) :
    Along step R s as ↔ Along step S s as := by
  induction as generalizing s with
  | nil => rfl
  | cons a as ih =>
    exact forall₂_congr fun t ht => and_congr (h s a t hs ht) (ih (preserve s a t hs ht))

/-- A predicate holds throughout a run when it holds after each of its prefixes. -/
theorem throughout_iff {P : σ → Prop} {s : σ} {as : List α} :
    Throughout step P s as ↔ ∀ bs t, bs <+: as → run step s bs = some t → P t := by
  constructor
  · rintro ⟨hs, along⟩ bs t hpre hrun
    induction bs generalizing s as with
    | nil => exact Option.some.inj hrun ▸ hs
    | cons b bs ih =>
      cases as with
      | nil => simp at hpre
      | cons a as =>
        obtain ⟨rfl, htail⟩ := List.cons_prefix_cons.mp hpre
        obtain ⟨u, hu, hrest⟩ := Option.bind_eq_some_iff.mp hrun
        exact ih (along u hu).1 (along u hu).2 htail hrest
  · intro h
    refine ⟨h [] s (List.nil_prefix) rfl, ?_⟩
    induction as generalizing s with
    | nil => trivial
    | cons a as ih =>
      intro t ht
      have step_first : ∀ bs u, bs <+: as → run step t bs = some u → P u := fun bs u hpre hrun =>
        h (a :: bs) u (List.cons_prefix_cons.mpr ⟨rfl, hpre⟩) (by simp [ht, hrun])
      exact ⟨step_first [] t List.nil_prefix rfl, ih step_first⟩

/-- A guard that preserves an invariant makes a run have, throughout, what the invariant
implies. -/
theorem throughout_of_along {I P : σ → Prop} {R : σ → α → σ → Prop} (holds : ∀ s, I s → P s)
    (preserve : ∀ s a t, I s → R s a t → step s a = some t → I t) {s : σ} {as : List α}
    (hs : I s) (along : Along step R s as) : Throughout step P s as := by
  refine ⟨holds s hs, ?_⟩
  induction as generalizing s with
  | nil => trivial
  | cons a as ih =>
    intro t ht
    obtain ⟨hr, rest⟩ := along t ht
    have ht' := preserve s a t hs hr ht
    exact ⟨holds t ht', ih ht' rest⟩

/-- What every step preserves holds throughout every run. -/
theorem throughout_of_invariant {I P : σ → Prop} (holds : ∀ s, I s → P s)
    (preserve : ∀ s a t, I s → step s a = some t → I t) {s : σ} (hs : I s) (as : List α) :
    Throughout step P s as :=
  throughout_iff.mpr fun _ t _ hrun => holds t (run_invariant preserve hs hrun)

/-- When a guard on the state before the step is sufficient for the invariant and
necessary for the property, a run has the property throughout exactly if each of its
steps meets the guard. -/
theorem throughout_iff_along {I P : σ → Prop} {ok : σ → α → Prop}
    (holds : ∀ s, I s → P s)
    (preserve : ∀ s a t, I s → ok s a → step s a = some t → I t)
    (necessary : ∀ s a t, I s → step s a = some t → P t → ok s a)
    {s : σ} {as : List α} (hs : I s) :
    Throughout step P s as ↔ Along step (fun s a _ => ok s a) s as := by
  refine ⟨fun h => ?_, throughout_of_along holds preserve hs⟩
  have along := h.2
  clear h
  induction as generalizing s with
  | nil => trivial
  | cons a as ih =>
    intro t ht
    obtain ⟨hp, rest⟩ := along t ht
    have hok := necessary s a t hs ht hp
    exact ⟨hok, ih (preserve s a t hs hok ht) rest⟩

/-! ## What a run puts out -/

section Outputs

variable {β : Type*}

/-- The outputs of the steps that a run takes, in their order. -/
def outputs (step : σ → α → Option σ) (output : σ → α → Option β) : σ → List α → List β
  | _, [] => []
  | s, a :: as => (output s a).toList ++ (step s a).elim [] fun t => outputs step output t as

variable {output : σ → α → Option β}

theorem outputs_append_singleton {s t : σ} {as : List α} (h : run step s as = some t) (a : α) :
    outputs step output s (as ++ [a]) = outputs step output s as ++ (output t a).toList := by
  induction as generalizing s with
  | nil =>
    obtain rfl := Option.some.inj h
    rw [List.nil_append, outputs, outputs, List.nil_append]
    cases step s a <;> simp [outputs]
  | cons b as ih =>
    obtain ⟨u, hu, hrun⟩ := Option.bind_eq_some_iff.mp h
    rw [List.cons_append, outputs, outputs, hu, Option.elim_some, Option.elim_some, ih hrun,
      List.append_assoc]

/-- What a run puts out, one of its steps does. -/
theorem mem_outputs {s : σ} {as : List α} {x : β} (hx : x ∈ outputs step output s as) :
    ∃ front a back u, as = front ++ a :: back ∧ run step s front = some u ∧
      output u a = some x := by
  induction as generalizing s with
  | nil => cases hx
  | cons a as ih =>
    rcases List.mem_append.mp hx with hfirst | hlater
    · exact ⟨[], a, as, s, rfl, rfl, Option.mem_toList.mp hfirst⟩
    · cases hstep : step s a with
      | none =>
        rw [hstep] at hlater
        cases hlater
      | some t =>
        rw [hstep] at hlater
        obtain ⟨front, b, back, u, rfl, hrun, hout⟩ := ih hlater
        exact ⟨a :: front, b, back, u, rfl, by rw [run_cons, hstep]; exact hrun, hout⟩

theorem mem_outputs_of_step {s u : σ} {front back : List α} {a : α} {x : β}
    (h : run step s front = some u) (hout : output u a = some x) :
    x ∈ outputs step output s (front ++ a :: back) := by
  induction front generalizing s with
  | nil =>
    obtain rfl := Option.some.inj h
    exact List.mem_append_left _ (Option.mem_toList.mpr hout)
  | cons b front ih =>
    obtain ⟨t, ht, hrun⟩ := Option.bind_eq_some_iff.mp h
    refine List.mem_append_right _ ?_
    rw [ht]
    exact ih hrun

/-- When every step puts out an action that another machine can take along with it, the outputs of
a run are a run of that machine. -/
theorem run_outputs {τ : Type*} {step' : τ → β → Option τ} {R : σ → τ → Prop}
    (preserve : ∀ s s' a t, R s s' → step s a = some t →
      ∃ t', run step' s' (output s a).toList = some t' ∧ R t t')
    {s t : σ} {s' : τ} {as : List α} (hs : R s s') (h : run step s as = some t) :
    ∃ t', run step' s' (outputs step output s as) = some t' ∧ R t t' := by
  induction as generalizing s s' with
  | nil => exact ⟨s', rfl, Option.some.inj h ▸ hs⟩
  | cons a as ih =>
    obtain ⟨u, hu, hrun⟩ := Option.bind_eq_some_iff.mp h
    obtain ⟨u', hu', hR⟩ := preserve s s' a u hs hu
    obtain ⟨t', ht', hlast⟩ := ih hR hrun
    refine ⟨t', ?_, hlast⟩
    rw [outputs, hu, Option.elim_some, run_append, hu']
    exact ht'

end Outputs

/-! ## Two runs side by side -/

section Both

/-- Two machines of one kind, each with an action of its own. -/
def both (step : σ → α → Option σ) (s : σ × σ) (a : α × α) : Option (σ × σ) := do
  let t ← step s.1 a.1
  let t' ← step s.2 a.2
  return (t, t')

theorem both_eq_some {s t : σ × σ} {a : α × α} :
    both step s a = some t ↔ step s.1 a.1 = some t.1 ∧ step s.2 a.2 = some t.2 := by
  unfold both
  cases step s.1 a.1 with
  | none => simp
  | some u =>
    cases step s.2 a.2 with
    | none => simp
    | some u' => simp [Prod.ext_iff]

end Both

/-- Steps that meet a guard keep `I`, and a step that does not leads to `D`, which lasts. So a run
from `I` ends in `I` if all of its steps meet the guard, and in `D` if one does not. -/
theorem run_forks {I D : σ → Prop} {R : σ → α → Prop} {ok : α → Prop}
    (keeps : ∀ s a t, I s → ok a → step s a = some t → R s a → I t)
    (leaves : ∀ s a t, I s → ok a → step s a = some t → ¬R s a → D t)
    (lasts : ∀ s a t, D s → step s a = some t → D t) {s t : σ} {as : List α}
    (has : ∀ a ∈ as, ok a) (hs : I s) (h : run step s as = some t) :
    (Along step (fun s a _ => R s a) s as ∧ I t) ∨
      ¬Along step (fun s a _ => R s a) s as ∧ D t := by
  induction as generalizing s with
  | nil => exact Or.inl ⟨trivial, Option.some.inj h ▸ hs⟩
  | cons a as ih =>
    obtain ⟨ha, hrest⟩ := List.forall_mem_cons.mp has
    obtain ⟨u, hu, hrun⟩ := Option.bind_eq_some_iff.mp h
    by_cases hR : R s a
    · rcases ih hrest (keeps s a u hs ha hu hR) hrun with ⟨along, ht⟩ | ⟨stops, ht⟩
      · refine Or.inl ⟨fun v hv => ?_, ht⟩
        obtain rfl := Option.some.inj (hu.symm.trans hv)
        exact ⟨hR, along⟩
      · exact Or.inr ⟨fun along => stops (along u hu).2, ht⟩
    · exact Or.inr ⟨fun along => hR (along u hu).1,
        run_invariant lasts (leaves s a u hs ha hu hR) hrun⟩

/-! ## Steps made of several -/

section Compound

variable {β : Type*}

/-- The actions of a script as one step, if the state they lead to passes `done`. -/
def compound (step : σ → α → Option σ) (script : σ → β → List α) (done : σ → β → σ → Bool) (s : σ)
    (b : β) : Option σ :=
  (run step s (script s b)).filter (done s b)

variable {script : σ → β → List α} {done : σ → β → σ → Bool}

theorem compound_eq_some {s t : σ} {b : β} : compound step script done s b = some t ↔
    run step s (script s b) = some t ∧ done s b t = true :=
  Option.filter_eq_some_iff

end Compound

/-! ## Refinement of a machine -/

section Refinement

variable {τ β : Type*} (step) (label : σ → α → β)

/-- What the steps of a run are in the eyes of another machine. -/
def trace : σ → List α → List β
  | _, [] => []
  | s, a :: as => label s a :: (step s a).elim [] fun t => trace t as

variable {step label} {abs : σ → τ} {next : τ → β → τ}

/-- When each step is, on the abstraction of the state, a step of the other machine, so is each
run. -/
theorem abs_run {I : σ → Prop} {ok : α → Prop}
    (preserve : ∀ s a t, I s → ok a → step s a = some t → I t)
    (refine : ∀ s a t, I s → ok a → step s a = some t → abs t = next (abs s) (label s a))
    {s t : σ} {as : List α} (has : ∀ a ∈ as, ok a) (hs : I s) (h : run step s as = some t) :
    abs t = (trace step label s as).foldl next (abs s) := by
  induction as generalizing s with
  | nil => exact congrArg abs (Option.some.inj h).symm
  | cons a as ih =>
    obtain ⟨ha, hrest⟩ := List.forall_mem_cons.mp has
    obtain ⟨u, hu, hrun⟩ := Option.bind_eq_some_iff.mp h
    rw [trace, hu, Option.elim_some, List.foldl_cons, ← refine s a u hs ha hu]
    exact ih hrest (preserve s a u hs ha hu) hrun

/-- When each step has, on the abstraction of the state, the effect and the output of a step of
another machine, a run has the outputs of the other machine's run. -/
theorem trace_eq_trace {next : τ → α → τ} {out : τ → α → β}
    (total : ∀ s a, ∃ t, step s a = some t) {s : σ} {as : List α}
    (h : Along step (fun s a t => abs t = next (abs s) a ∧ label s a = out (abs s) a) s as) :
    trace step label s as = trace (fun c a => some (next c a)) out (abs s) as := by
  induction as generalizing s with
  | nil => rfl
  | cons a as ih =>
    obtain ⟨t, ht⟩ := total s a
    obtain ⟨⟨habs, hlabel⟩, hrest⟩ := h t ht
    rw [trace, trace, ht, Option.elim_some, Option.elim_some, hlabel, ih hrest, habs]

end Refinement

/-! ## Evaluating runs -/

instance decidableAlong {R : σ → α → σ → Prop} [∀ s a t, Decidable (R s a t)] :
    ∀ (s : σ) (as : List α), Decidable (Along step R s as)
  | _, [] => .isTrue trivial
  | s, a :: as =>
    match h : step s a with
    | none => .isTrue fun t ht => by simp [h] at ht
    | some t =>
      have := decidableAlong (R := R) t as
      decidable_of_iff (R s a t ∧ Along step R t as)
        ⟨fun hr u hu => Option.some.inj (h.symm.trans hu) ▸ hr, fun along => along t h⟩

/-- A state that a list of actions leads to, found by evaluating the run. -/
theorem exists_of_run {P : σ → Prop} [DecidablePred P] {s : σ} {as : List α}
    (h : (run step s as).any (fun t => decide (P t)) = true) :
    ∃ t, run step s as = some t ∧ P t := by
  obtain ⟨t, ht, hp⟩ := (Option.any_eq_true _ _).mp h
  exact ⟨t, ht, of_decide_eq_true hp⟩

end Transition
