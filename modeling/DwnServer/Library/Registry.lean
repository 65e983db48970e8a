import DwnServer.Library.OrderedMap
import Mathlib.Data.List.Nodup
import Mathlib.Logic.Function.Basic

/-!
# A registry of closeable resources

Resources are opened one at a time under ids that a client chooses, and held in a map by
the key of their id until they are closed. Closing takes time: a worker calls the close
function of the resource held under a key, and removes whatever is held under that key
when the call has come back. All held resources can also be closed at once.

The registry keeps the history of its resources, so that what a user of it wants can be
said of one state: `Sole` (a live resource is the one held under its id, and the only
live one of that name), `Released` (nothing opened is left unclosed once the registry is
shut) and `Once` (no close function is called twice, and a removed resource is the one
its remover closed). For each there is a guard on single operations which preserves it,
and which `Sole` and `Once` in turn require.
-/

/-- `ι` are the ids, `κ` their keys, `ρ` the resources and `ω` the workers. `removals`
pairs each removed resource with the one its remover closed. -/
@[ext] structure Registry (ι κ ρ ω : Type*) where
  held : OrderedMap κ ρ
  opened : List (ι × ρ)
  closed : List ρ
  closing : ω → Option (ι × ρ)
  removals : List (ρ × ρ)
  shut : Bool

namespace Registry

variable {ι κ ρ ω ν : Type*}

inductive Op (ι ρ ω : Type*) where
  | idle
  | opens (id : ι) (r : ρ)
  | beginClose (w : ω) (id : ι)
  | endClose (w : ω) (resolved : Bool)
  | closeAll

section Properties

variable [DecidableEq κ] (key : ι → κ) (name : ι → ν) (s : Registry ι κ ρ ω)

/-- What holds of every reachable registry. -/
structure WellFormed : Prop where
  fresh : (s.opened.map Prod.snd).Nodup
  held : ∀ k r, s.held.get? k = some r → ∃ id, (id, r) ∈ s.opened ∧ key id = k
  closed : ∀ r ∈ s.closed, r ∈ s.opened.map Prod.snd
  closing : ∀ w id r, s.closing w = some (id, r) → r ∈ s.closed

/-- A resource that was opened under an id and whose close function was not called. -/
def Live (id : ι) (r : ρ) : Prop := (id, r) ∈ s.opened ∧ r ∉ s.closed

/-- Every live resource is the one held under its id. -/
def Held : Prop := ∀ id r, s.Live id r → s.held.get? (key id) = some r

/-- A live resource is held under its id and is the only live one of its name. -/
def Sole : Prop :=
  s.Held key ∧ ∀ id r id' r', s.Live id r → s.Live id' r' → name id = name id' → r = r'

/-- Once the registry is shut, the close function of everything opened was called. -/
def Released : Prop := s.shut = true → ∀ id r, (id, r) ∈ s.opened → r ∈ s.closed

/-- No close function was called twice, and whatever was removed is what its remover
closed. -/
def Once : Prop := s.closed.Nodup ∧ ∀ p ∈ s.removals, p.1 = p.2 ∧ p.1 ∈ s.closed

/-- What a worker is closing is still held, and by no other worker being closed. -/
def ClosingHeld : Prop :=
  (∀ w id r, s.closing w = some (id, r) → s.held.get? (key id) = some r) ∧
    ∀ w w' id r id' r', s.closing w = some (id, r) → s.closing w' = some (id', r') →
      key id = key id' → w = w'

/-- A resource is opened under an id whose key is free. -/
def OpensFree : Op ι ρ ω → Prop
  | .opens id _ => s.held.has (key id) = false
  | _ => True

/-- A resource is opened under a name that no live one has. -/
def OpensUnnamed : Op ι ρ ω → Prop
  | .opens id _ => ∀ id' r', s.Live id' r' → name id' ≠ name id
  | _ => True

/-- Nothing is opened once the registry is shut. -/
def OpensBeforeShut : Op ι ρ ω → Prop
  | .opens _ _ => s.shut = false
  | _ => True

/-- The entry that the end of a close removes is not live. -/
def RemovesClosed : Op ι ρ ω → Prop
  | .endClose w true => ∀ p ∈ s.closing w, ∀ r ∈ s.held.get? (key p.1), r ∈ s.closed
  | _ => True

/-- No close is begun on a resource whose close function was already called. -/
def ClosesOnce : Op ι ρ ω → Prop
  | .beginClose _ id => ∀ r ∈ s.held.get? (key id), r ∉ s.closed
  | .closeAll => ∀ r ∈ s.held.values, r ∉ s.closed
  | _ => True

/-- The resources whose close functions an operation calls. -/
def closedBy : Op ι ρ ω → List ρ
  | .beginClose _ id => (s.held.get? (key id)).toList
  | .closeAll => s.held.values
  | _ => []

/-- The resource of a close that fails. -/
def failed? : Op ι ρ ω → Option ρ
  | .endClose w false => (s.closing w).map Prod.snd
  | _ => none

/-- A held resource whose close function was called is being closed, or its close has failed. -/
structure Accounted (failed : List ρ) : Prop where
  held : ∀ k r, s.held.get? k = some r → r ∈ s.closed →
    (∃ w id, s.closing w = some (id, r)) ∨ r ∈ failed
  failed : ∀ r ∈ failed, r ∈ s.closed

instance : DecidablePred (s.OpensFree key)
  | .opens _ _ => inferInstanceAs (Decidable (_ = _))
  | .idle | .beginClose _ _ | .endClose _ _ | .closeAll => .isTrue trivial

instance : DecidablePred s.OpensBeforeShut
  | .opens _ _ => inferInstanceAs (Decidable (_ = _))
  | .idle | .beginClose _ _ | .endClose _ _ | .closeAll => .isTrue trivial

instance [DecidableEq ρ] : DecidablePred (s.RemovesClosed key)
  | .endClose w true =>
    inferInstanceAs (Decidable (∀ p ∈ s.closing w, ∀ r ∈ s.held.get? (key p.1), r ∈ s.closed))
  | .endClose _ false | .idle | .opens _ _ | .beginClose _ _ | .closeAll => .isTrue trivial

instance [DecidableEq ρ] : DecidablePred (s.ClosesOnce key)
  | .beginClose _ id => inferInstanceAs (Decidable (∀ r ∈ s.held.get? (key id), r ∉ s.closed))
  | .closeAll => inferInstanceAs (Decidable (∀ r ∈ s.held.values, r ∉ s.closed))
  | .endClose _ _ | .idle | .opens _ _ => .isTrue trivial

variable {key s}

theorem WellFormed.opener_unique (hs : s.WellFormed key) {id id' : ι} {r : ρ}
    (h : (id, r) ∈ s.opened) (h' : (id', r) ∈ s.opened) : id = id' :=
  (Prod.mk.inj (List.inj_on_of_nodup_map hs.fresh h h' rfl)).1

/-- A held resource has one key. -/
theorem WellFormed.key_unique (hs : s.WellFormed key) {k k' : κ} {r : ρ}
    (h : s.held.get? k = some r) (h' : s.held.get? k' = some r) : k = k' := by
  obtain ⟨id, hid, rfl⟩ := hs.held k r h
  obtain ⟨id', hid', rfl⟩ := hs.held k' r h'
  rw [hs.opener_unique hid hid']

theorem WellFormed.values_nodup (hs : s.WellFormed key) : s.held.values.Nodup := by
  refine List.Nodup.map_on ?_ (List.Nodup.of_map _ s.held.nodup)
  rintro ⟨k, r⟩ he ⟨k', r'⟩ he' rfl
  rw [hs.key_unique (OrderedMap.get?_eq_some.mpr he) (OrderedMap.get?_eq_some.mpr he')]

/-- A held resource whose close function was not called is live. -/
theorem WellFormed.live (hs : s.WellFormed key) {k : κ} {r : ρ} (h : s.held.get? k = some r)
    (hr : r ∉ s.closed) : ∃ id, s.Live id r ∧ key id = k := by
  obtain ⟨id, hid, hkey⟩ := hs.held k r h
  exact ⟨id, ⟨hid, hr⟩, hkey⟩

/-- What an operation closes was closed before exactly if a worker is closing it or its close has
failed. -/
theorem Accounted.closesOnce_iff {failed : List ρ} {o : Op ι ρ ω} (hs : s.Accounted failed)
    (hwell : s.WellFormed key) : s.ClosesOnce key o ↔
      ∀ r ∈ s.closedBy key o, (∀ w id, s.closing w ≠ some (id, r)) ∧ r ∉ failed := by
  have hunclaimed (k : κ) (r : ρ) (hk : s.held.get? k = some r) :
      r ∉ s.closed ↔ (∀ w id, s.closing w ≠ some (id, r)) ∧ r ∉ failed := by
    constructor
    · exact fun hr => ⟨fun w id hw => hr (hwell.closing w id r hw), fun hf => hr (hs.failed r hf)⟩
    · rintro ⟨hclosing, hfailed⟩ hr
      rcases hs.held k r hk hr with ⟨w, id, hw⟩ | hf
      · exact hclosing w id hw
      · exact hfailed hf
  cases o with
  | beginClose w id =>
    simp only [ClosesOnce, closedBy, Option.mem_toList]
    exact forall₂_congr fun r hr => hunclaimed _ r hr
  | closeAll =>
    simp only [ClosesOnce, closedBy]
    refine forall₂_congr fun r hr => ?_
    obtain ⟨k, hk⟩ := OrderedMap.mem_values.mp hr
    exact hunclaimed k r hk
  | _ => simp [ClosesOnce, closedBy]

end Properties

variable [DecidableEq κ] [DecidableEq ρ] [DecidableEq ω]

/-- One operation. A resource that finds its key taken is opened all the same, and is
not held. -/
def step (key : ι → κ) (s : Registry ι κ ρ ω) : Op ι ρ ω → Option (Registry ι κ ρ ω)
  | .idle => some s
  | .opens id r =>
    if r ∈ s.opened.map Prod.snd then none
    else some { s with
      held := if s.held.has (key id) then s.held else s.held.set (key id) r
      opened := s.opened ++ [(id, r)] }
  | .beginClose w id =>
    match s.closing w, s.held.get? (key id) with
    | none, some r => some { s with
        closed := s.closed ++ [r], closing := Function.update s.closing w (some (id, r)) }
    | _, _ => none
  | .endClose w resolved =>
    match s.closing w with
    | none => none
    | some (id, r) => some { s with
        held := if resolved then s.held.delete (key id) else s.held
        closing := Function.update s.closing w none
        removals := s.removals ++
          (if resolved then s.held.get? (key id) else none).toList.map fun r' => (r', r) }
  | .closeAll => some { s with
      held := .empty
      closed := s.closed ++ s.held.values
      removals := s.removals ++ s.held.values.map fun r => (r, r)
      shut := true }

variable {key : ι → κ} {name : ι → ν} {s t : Registry ι κ ρ ω} {o : Op ι ρ ω}

theorem step_opens {id : ι} {r : ρ} : step key s (.opens id r) = some t ↔
    r ∉ s.opened.map Prod.snd ∧ { s with
      held := if s.held.has (key id) then s.held else s.held.set (key id) r
      opened := s.opened ++ [(id, r)] } = t := by
  simp only [step]
  split_ifs with h <;> simp [h]

theorem step_beginClose {w : ω} {id : ι} : step key s (.beginClose w id) = some t ↔
    s.closing w = none ∧ ∃ r, s.held.get? (key id) = some r ∧ { s with
      closed := s.closed ++ [r], closing := Function.update s.closing w (some (id, r)) } = t := by
  simp only [step]
  cases s.closing w <;> cases s.held.get? (key id) <;> simp

theorem step_endClose {w : ω} {resolved : Bool} : step key s (.endClose w resolved) = some t ↔
    ∃ id r, s.closing w = some (id, r) ∧ { s with
      held := if resolved then s.held.delete (key id) else s.held
      closing := Function.update s.closing w none
      removals := s.removals ++
        (if resolved then s.held.get? (key id) else none).toList.map fun r' => (r', r) } = t := by
  simp only [step]
  rcases s.closing w with _ | ⟨id, r⟩
  · simp
  · simp only [Option.some.injEq, Prod.mk.injEq]
    exact ⟨fun h => ⟨id, r, ⟨rfl, rfl⟩, h⟩, by rintro ⟨_, _, ⟨rfl, rfl⟩, h⟩; exact h⟩

theorem WellFormed.step (hs : s.WellFormed key) (h : step key s o = some t) :
    t.WellFormed key := by
  cases o with
  | idle => exact Option.some.inj h ▸ hs
  | opens id r =>
    obtain ⟨hr, rfl⟩ := step_opens.mp h
    refine ⟨?_, fun k r' hk => ?_, fun r' hr' => ?_, hs.closing⟩
    · rw [List.map_append]
      exact hs.fresh.append (List.nodup_singleton r) (by simpa using hr)
    · dsimp only at hk
      by_cases hhas : s.held.has (key id)
      · rw [if_pos hhas] at hk
        obtain ⟨id', hid, hkey⟩ := hs.held k r' hk
        exact ⟨id', List.mem_append_left _ hid, hkey⟩
      · rw [if_neg hhas, OrderedMap.get?_set] at hk
        split_ifs at hk with heq
        · exact ⟨id, by simp [Option.some.inj hk], heq.symm⟩
        · obtain ⟨id', hid, hkey⟩ := hs.held k r' hk
          exact ⟨id', List.mem_append_left _ hid, hkey⟩
    · rw [List.map_append]
      exact List.mem_append_left _ (hs.closed r' hr')
  | beginClose w id =>
    obtain ⟨-, r, hr, rfl⟩ := step_beginClose.mp h
    refine ⟨hs.fresh, hs.held, fun r' hr' => ?_, fun w' id' r' hw => ?_⟩
    · rcases List.mem_append.mp hr' with hold | hnew
      · exact hs.closed r' hold
      · obtain ⟨id', hid, -⟩ := hs.held _ _ hr
        exact List.mem_map.mpr ⟨(id', r), hid, (List.mem_singleton.mp hnew).symm⟩
    · dsimp only at hw
      by_cases heq : w' = w
      · subst heq
        rw [Function.update_self] at hw
        simp [(Prod.mk.inj (Option.some.inj hw)).2]
      · rw [Function.update_of_ne heq] at hw
        exact List.mem_append_left _ (hs.closing w' id' r' hw)
  | endClose w resolved =>
    obtain ⟨id, r, hw, rfl⟩ := step_endClose.mp h
    refine ⟨hs.fresh, fun k r' hk => hs.held k r' ?_, hs.closed, fun w' id' r' hw' => ?_⟩
    · dsimp only at hk
      cases resolved with
      | false => exact hk
      | true =>
        rw [if_pos rfl, OrderedMap.get?_delete] at hk
        split_ifs at hk
        exact hk
    · dsimp only at hw'
      by_cases heq : w' = w
      · simp [heq] at hw'
      · rw [Function.update_of_ne heq] at hw'
        exact hs.closing w' id' r' hw'
  | closeAll =>
    obtain rfl := Option.some.inj h
    refine ⟨hs.fresh, by simp, fun r hr => ?_, fun w id r hw =>
      List.mem_append_left _ (hs.closing w id r hw)⟩
    rcases List.mem_append.mp hr with hold | hnew
    · exact hs.closed r hold
    · obtain ⟨k, hk⟩ := OrderedMap.mem_values.mp hnew
      obtain ⟨id, hid, -⟩ := hs.held k r hk
      exact List.mem_map.mpr ⟨(id, r), hid, rfl⟩

/-! ## Live resources are held -/

/-- The only live resource that a step adds is the one it opens. -/
theorem Live.of_step {id : ι} {r : ρ} (hlive : t.Live id r) (h : step key s o = some t) :
    s.Live id r ∨ o = .opens id r := by
  cases o with
  | idle => exact Or.inl (Option.some.inj h ▸ hlive)
  | opens id' r' =>
    obtain ⟨-, rfl⟩ := step_opens.mp h
    rcases List.mem_append.mp hlive.1 with hold | hnew
    · exact Or.inl ⟨hold, hlive.2⟩
    · obtain ⟨rfl, rfl⟩ := Prod.mk.inj (List.mem_singleton.mp hnew)
      exact Or.inr rfl
  | beginClose w id' =>
    obtain ⟨-, r', -, rfl⟩ := step_beginClose.mp h
    exact Or.inl ⟨hlive.1, fun hc => hlive.2 (List.mem_append_left _ hc)⟩
  | endClose w resolved =>
    obtain ⟨id', r', -, rfl⟩ := step_endClose.mp h
    exact Or.inl hlive
  | closeAll =>
    obtain rfl := Option.some.inj h
    exact Or.inl ⟨hlive.1, fun hc => hlive.2 (List.mem_append_left _ hc)⟩

theorem Held.step (hs : s.Held key) (hopen : s.OpensFree key o)
    (hremove : s.RemovesClosed key o) (h : Registry.step key s o = some t) : t.Held key := by
  intro id r hlive
  cases o with
  | idle => exact Option.some.inj h ▸ hs id r (Option.some.inj h ▸ hlive)
  | opens id' r' =>
    have hfree : s.held.has (key id') = false := hopen
    have hold := hlive.of_step h
    obtain ⟨-, rfl⟩ := step_opens.mp h
    dsimp only
    rw [if_neg (by simp [hfree]), OrderedMap.get?_set]
    rcases hold with hold | heq
    · have hheld := hs id r hold
      have hne : key id ≠ key id' := by
        intro heq
        rw [heq, OrderedMap.has_eq_false.mp hfree] at hheld
        cases hheld
      rw [if_neg hne, hheld]
    · cases heq
      rw [if_pos rfl]
  | beginClose w id' =>
    have hold := (hlive.of_step h).resolve_right (by simp)
    obtain ⟨-, r', -, rfl⟩ := step_beginClose.mp h
    exact hs id r hold
  | endClose w resolved =>
    have hold := (hlive.of_step h).resolve_right (by simp)
    obtain ⟨id', r', hw, rfl⟩ := step_endClose.mp h
    have hheld := hs id r hold
    cases resolved with
    | false => exact hheld
    | true =>
      dsimp only
      rw [if_pos rfl, OrderedMap.get?_delete]
      have hne : key id ≠ key id' := by
        intro heq
        exact hlive.2 (hremove (id', r') hw r (heq ▸ hheld))
      rw [if_neg hne, hheld]
  | closeAll =>
    have hheld := hs id r ((hlive.of_step h).resolve_right (by simp))
    obtain rfl := Option.some.inj h
    exact absurd (List.mem_append_right _ (OrderedMap.mem_values.mpr ⟨_, hheld⟩)) hlive.2

/-! ## Nothing is left unclosed -/

theorem Released.step (hs : s.Released) (hheld : s.Held key) (hopen : s.OpensBeforeShut o)
    (h : Registry.step key s o = some t) : t.Released := by
  cases o with
  | idle => exact Option.some.inj h ▸ hs
  | opens id r =>
    obtain ⟨-, rfl⟩ := step_opens.mp h
    exact fun hshut => absurd (hshut.symm.trans hopen) (by simp)
  | beginClose w id =>
    obtain ⟨-, r, -, rfl⟩ := step_beginClose.mp h
    exact fun hshut id' r' hmem => List.mem_append_left _ (hs hshut id' r' hmem)
  | endClose w resolved =>
    obtain ⟨id, r, -, rfl⟩ := step_endClose.mp h
    exact hs
  | closeAll =>
    obtain rfl := Option.some.inj h
    intro _ id r hmem
    by_cases hc : r ∈ s.closed
    · exact List.mem_append_left _ hc
    · exact List.mem_append_right _ (OrderedMap.mem_values.mpr ⟨_, hheld id r ⟨hmem, hc⟩⟩)

/-! ## At most one live resource of a name -/

theorem Sole.step (hs : s.Sole key name) (hopen : s.OpensFree key o)
    (hname : s.OpensUnnamed name o) (hremove : s.RemovesClosed key o)
    (h : Registry.step key s o = some t) : t.Sole key name := by
  refine ⟨hs.1.step hopen hremove h, fun id r id' r' hlive hlive' heq => ?_⟩
  rcases hlive.of_step h with hold | rfl
  · rcases hlive'.of_step h with hold' | rfl
    · exact hs.2 id r id' r' hold hold' heq
    · exact absurd heq (hname id r hold)
  · rcases hlive'.of_step h with hold' | hsame
    · exact absurd heq.symm (hname id' r' hold')
    · cases hsame
      rfl

/-- A resource that was not opened before is live once it is opened. -/
theorem WellFormed.live_opened (hs : s.WellFormed key) {id : ι} {r : ρ}
    (h : Registry.step key s (.opens id r) = some t) : t.Live id r := by
  obtain ⟨hr, rfl⟩ := step_opens.mp h
  exact ⟨by simp, fun hc => hr (hs.closed r hc)⟩

theorem Sole.opensFree (ht : t.Sole key name) (hs : s.WellFormed key)
    (h : Registry.step key s o = some t) : s.OpensFree key o := by
  cases o with
  | opens id r =>
    have hheld := ht.1 id r (hs.live_opened h)
    obtain ⟨hr, rfl⟩ := step_opens.mp h
    by_contra hhas
    dsimp only at hheld
    rw [if_pos (by simpa [OpensFree] using hhas)] at hheld
    obtain ⟨id', hid, -⟩ := hs.held _ _ hheld
    exact hr (List.mem_map.mpr ⟨(id', r), hid, rfl⟩)
  | _ => trivial

theorem Sole.opensUnnamed (ht : t.Sole key name) (hs : s.WellFormed key)
    (h : Registry.step key s o = some t) : s.OpensUnnamed name o := by
  cases o with
  | opens id r =>
    have hnew := hs.live_opened h
    obtain ⟨hr, rfl⟩ := step_opens.mp h
    intro id' r' hlive heq
    have hsame := ht.2 id' r' id r ⟨List.mem_append_left _ hlive.1, hlive.2⟩ hnew heq
    exact hr (List.mem_map.mpr ⟨(id', r'), hlive.1, hsame⟩)
  | _ => trivial

theorem Sole.removesClosed (ht : t.Sole key name) (hs : s.WellFormed key)
    (h : Registry.step key s o = some t) : s.RemovesClosed key o := by
  cases o with
  | endClose w resolved =>
    cases resolved with
    | false => trivial
    | true =>
      obtain ⟨id, r, hw, rfl⟩ := step_endClose.mp h
      rintro p hp r'' hheld
      obtain rfl := Option.some.inj (hw.symm.trans hp)
      by_contra hc
      obtain ⟨id'', hlive, hkey⟩ := hs.live hheld hc
      have hgone := ht.1 id'' r'' hlive
      simp [OrderedMap.get?_delete, hkey] at hgone
  | _ => trivial

/-! ## No close function is called twice -/

theorem Once.step (hs : s.Once) (hwell : s.WellFormed key) (hclosing : s.ClosingHeld key)
    (hguard : s.ClosesOnce key o) (h : Registry.step key s o = some t) : t.Once := by
  cases o with
  | idle => exact Option.some.inj h ▸ hs
  | opens id r =>
    obtain ⟨-, rfl⟩ := step_opens.mp h
    exact hs
  | beginClose w id =>
    obtain ⟨-, r, hr, rfl⟩ := step_beginClose.mp h
    refine ⟨hs.1.append (List.nodup_singleton r) (by simpa using hguard r hr), fun p hp => ?_⟩
    exact ⟨(hs.2 p hp).1, List.mem_append_left _ (hs.2 p hp).2⟩
  | endClose w resolved =>
    obtain ⟨id, r, hw, rfl⟩ := step_endClose.mp h
    refine ⟨hs.1, fun p hp => ?_⟩
    rcases List.mem_append.mp hp with hold | hnew
    · exact hs.2 p hold
    · cases resolved with
      | false => simp at hnew
      | true =>
        have hheld := hclosing.1 w id r hw
        simp only [hheld, if_true, Option.toList_some, List.map_cons, List.map_nil,
          List.mem_singleton] at hnew
        exact hnew ▸ ⟨rfl, hwell.closing w id r hw⟩
  | closeAll =>
    obtain rfl := Option.some.inj h
    refine ⟨hs.1.append hwell.values_nodup fun r hc hr => hguard r hr hc, fun p hp => ?_⟩
    rcases List.mem_append.mp hp with hold | hnew
    · exact ⟨(hs.2 p hold).1, List.mem_append_left _ (hs.2 p hold).2⟩
    · obtain ⟨r, hr, rfl⟩ := List.mem_map.mp hnew
      exact ⟨rfl, List.mem_append_right _ hr⟩

theorem ClosingHeld.step (hs : s.ClosingHeld key) (hwell : s.WellFormed key)
    (hguard : s.ClosesOnce key o) (h : Registry.step key s o = some t) : t.ClosingHeld key := by
  cases o with
  | idle => exact Option.some.inj h ▸ hs
  | opens id r =>
    obtain ⟨-, rfl⟩ := step_opens.mp h
    refine ⟨fun w id' r' hw => ?_, hs.2⟩
    have hheld := hs.1 w id' r' hw
    dsimp only
    split_ifs with hhas
    · exact hheld
    · have hne : key id' ≠ key id := by
        rintro heq
        rw [heq] at hheld
        exact hhas (OrderedMap.has_iff.mpr ⟨r', hheld⟩)
      rw [OrderedMap.get?_set, if_neg hne, hheld]
  | beginClose w id =>
    obtain ⟨-, r, hr, rfl⟩ := step_beginClose.mp h
    -- a worker already closing under this key would hold a resource closed before
    have hfree : ∀ w' id' r', s.closing w' = some (id', r') → key id' ≠ key id := by
      intro w' id' r' hw' heq
      have hheld := hs.1 w' id' r' hw'
      rw [heq] at hheld
      exact hguard r' hheld (hwell.closing w' id' r' hw')
    refine ⟨fun w' id' r' hw' => ?_, fun w₁ w₂ id₁ r₁ id₂ r₂ h₁ h₂ heq => ?_⟩
    · dsimp only at hw' ⊢
      by_cases hsame : w' = w
      · subst hsame
        rw [Function.update_self] at hw'
        obtain ⟨rfl, rfl⟩ := Prod.mk.inj (Option.some.inj hw')
        exact hr
      · rw [Function.update_of_ne hsame] at hw'
        exact hs.1 w' id' r' hw'
    · dsimp only at h₁ h₂
      by_cases hw₁ : w₁ = w <;> by_cases hw₂ : w₂ = w
      · exact hw₁.trans hw₂.symm
      · subst hw₁
        rw [Function.update_self] at h₁
        rw [Function.update_of_ne hw₂] at h₂
        obtain ⟨rfl, rfl⟩ := Prod.mk.inj (Option.some.inj h₁)
        exact absurd heq.symm (hfree w₂ id₂ r₂ h₂)
      · subst hw₂
        rw [Function.update_self] at h₂
        rw [Function.update_of_ne hw₁] at h₁
        obtain ⟨rfl, rfl⟩ := Prod.mk.inj (Option.some.inj h₂)
        exact absurd heq (hfree w₁ id₁ r₁ h₁)
      · rw [Function.update_of_ne hw₁] at h₁
        rw [Function.update_of_ne hw₂] at h₂
        exact hs.2 w₁ w₂ id₁ r₁ id₂ r₂ h₁ h₂ heq
  | endClose w resolved =>
    obtain ⟨id, r, hw, rfl⟩ := step_endClose.mp h
    have hother : ∀ w' id' r', Function.update s.closing w none w' = some (id', r') →
        w' ≠ w ∧ s.closing w' = some (id', r') := by
      intro w' id' r' hw'
      by_cases hsame : w' = w
      · simp [hsame] at hw'
      · rw [Function.update_of_ne hsame] at hw'
        exact ⟨hsame, hw'⟩
    refine ⟨fun w' id' r' hw' => ?_, fun w₁ w₂ id₁ r₁ id₂ r₂ h₁ h₂ heq =>
      hs.2 w₁ w₂ id₁ r₁ id₂ r₂ (hother _ _ _ h₁).2 (hother _ _ _ h₂).2 heq⟩
    obtain ⟨hsame, hold⟩ := hother w' id' r' hw'
    have hheld := hs.1 w' id' r' hold
    cases resolved with
    | false => exact hheld
    | true =>
      dsimp only
      rw [if_pos rfl, OrderedMap.get?_delete,
        if_neg fun heq => hsame (hs.2 w' w id' r' id r hold hw heq), hheld]
  | closeAll =>
    obtain rfl := Option.some.inj h
    have hnone : ∀ w id r, s.closing w ≠ some (id, r) := fun w id r hw =>
      hguard r (OrderedMap.mem_values.mpr ⟨_, hs.1 w id r hw⟩) (hwell.closing w id r hw)
    exact ⟨fun w id r hw => absurd hw (hnone w id r),
      fun w w' id r id' r' hw => absurd hw (hnone w id r)⟩

theorem Accounted.step {failed : List ρ} (hs : s.Accounted failed) (hwell : s.WellFormed key)
    (hclosing : s.ClosingHeld key) (h : Registry.step key s o = some t) :
    t.Accounted (failed ++ (s.failed? o).toList) := by
  cases o with
  | idle =>
    obtain rfl := Option.some.inj h
    simpa [failed?] using hs
  | opens id r =>
    obtain ⟨hr, rfl⟩ := step_opens.mp h
    simp only [failed?, Option.toList_none, List.append_nil]
    refine ⟨fun k r' hk hclosed => ?_, hs.failed⟩
    dsimp only at hk
    by_cases hhas : s.held.has (key id)
    · exact hs.held k r' (by rwa [if_pos hhas] at hk) hclosed
    · rw [if_neg hhas, OrderedMap.get?_set] at hk
      split_ifs at hk with heq
      · exact absurd (hwell.closed r' hclosed) (Option.some.inj hk ▸ hr)
      · exact hs.held k r' hk hclosed
  | beginClose w id =>
    obtain ⟨hidle, r, hr, rfl⟩ := step_beginClose.mp h
    simp only [failed?, Option.toList_none, List.append_nil]
    refine ⟨fun k r' hk hclosed => ?_, fun r' hr' => List.mem_append_left _ (hs.failed r' hr')⟩
    rcases List.mem_append.mp hclosed with hold | hnew
    · rcases hs.held k r' hk hold with ⟨w', id', hw'⟩ | hfailed
      · have hne : w' ≠ w := by
          rintro rfl
          rw [hidle] at hw'
          cases hw'
        exact Or.inl ⟨w', id', (Function.update_of_ne hne _ _).trans hw'⟩
      · exact Or.inr hfailed
    · obtain rfl := List.mem_singleton.mp hnew
      exact Or.inl ⟨w, id, Function.update_self ..⟩
  | endClose w resolved =>
    obtain ⟨id, r, hw, rfl⟩ := step_endClose.mp h
    have hothers (k : κ) (r' : ρ) (hk : s.held.get? k = some r') (hclosed : r' ∈ s.closed)
        (hne : r' ≠ r) : (∃ w' id', Function.update s.closing w none w' = some (id', r')) ∨
          r' ∈ failed := by
      rcases hs.held k r' hk hclosed with ⟨w', id', hw'⟩ | hfailed
      · have hworker : w' ≠ w := by
          rintro rfl
          exact hne (Prod.mk.inj (Option.some.inj (hw'.symm.trans hw))).2
        exact Or.inl ⟨w', id', by rw [Function.update_of_ne hworker, hw']⟩
      · exact Or.inr hfailed
    cases resolved with
    | true =>
      simp only [failed?, Option.toList_none, List.append_nil]
      refine ⟨fun k r' hk hclosed => ?_, hs.failed⟩
      simp only [if_true, OrderedMap.get?_delete] at hk
      split_ifs at hk with hkey
      refine hothers k r' hk hclosed ?_
      -- a resource has one key, and what a worker closes is held under the id it has there
      rintro rfl
      exact hkey (hwell.key_unique (hclosing.1 w id r' hw) hk).symm
    | false =>
      simp only [failed?, hw, Option.map_some, Option.toList_some]
      refine ⟨fun k r' hk hclosed => ?_, fun r' hr' => ?_⟩
      · by_cases hsame : r' = r
        · exact Or.inr (by simp [hsame])
        · exact (hothers k r' hk hclosed hsame).imp_right (List.mem_append_left _)
      · rcases List.mem_append.mp hr' with hold | hnew
        · exact hs.failed r' hold
        · exact List.mem_singleton.mp hnew ▸ hwell.closing w id r hw
  | closeAll =>
    obtain rfl := Option.some.inj h
    simp only [failed?, Option.toList_none, List.append_nil]
    exact ⟨fun k r hk => by simp at hk, fun r hr => List.mem_append_left _ (hs.failed r hr)⟩

theorem Once.closesOnce (ht : t.Once) (h : Registry.step key s o = some t) :
    s.ClosesOnce key o := by
  cases o with
  | beginClose w id =>
    obtain ⟨-, r, hr, rfl⟩ := step_beginClose.mp h
    intro r' hr' hc
    obtain rfl := Option.some.inj (hr.symm.trans hr')
    exact (List.nodup_append.mp ht.1).2.2 r hc r (by simp) rfl
  | closeAll =>
    obtain rfl := Option.some.inj h
    intro r hr hc
    exact (List.nodup_append.mp ht.1).2.2 r hc r hr rfl
  | _ => trivial

end Registry
