import DwnServer.Registration.RegistrationRun

/-!
# Rows written for one proof of work

An accepted request waits for one statement, which writes a row for each element where the
registration data is an array. The terms check reads a member that no array has, so it stops
an array only while terms are in force.
-/
namespace DwnServer

open Transition

/-- The two are one row: they have the same DID, which is the primary key. -/
def RegisteredTenant.SameRow (a b : RegisteredTenant) : Prop := a.did = b.did ∧ a.did ≠ none

namespace UpsertDialect

variable {dialect : UpsertDialect}

/-- The data is no array of two elements or more, unless the database refuses such a statement or
writes all of its rows for one DID. -/
def NamesOneTenant (dialect : UpsertDialect) : Json → Prop
  | .array elements => elements.length ≤ 1 ∨ ∀ tenants, dialect (.array elements) = some tenants →
    tenants.Pairwise RegisteredTenant.SameRow
  | _ => True

theorem pairwise_sameRow_of_length {tenants : List RegisteredTenant} (h : tenants.length ≤ 1) :
    tenants.Pairwise RegisteredTenant.SameRow := by
  match tenants, h with
  | [], _ => exact .nil
  | [tenant], _ => exact List.pairwise_singleton _ _

/-- Exactly the data that names one tenant is written into one row. -/
theorem namesOneTenant_iff (hdialect : dialect.Documented) {registrationData : Json} :
    dialect.NamesOneTenant registrationData ↔
      ∀ tenants, dialect registrationData = some tenants →
        tenants.Pairwise RegisteredTenant.SameRow := by
  cases registrationData with
  | array elements =>
    refine or_iff_right_of_imp fun hlength tenants hrows => pairwise_sameRow_of_length ?_
    rwa [hdialect.array elements tenants hrows]
  | _ =>
    refine iff_of_true trivial fun tenants hrows => pairwise_sameRow_of_length ?_
    exact (hdialect.object _ tenants (by simp) hrows).le

end UpsertDialect

/-- While terms are in force, only data that names one tenant is accepted. -/
theorem RegistrationManager.namesOneTenant_of_termsOfService {sha256 : Sha256}
    {dialect : UpsertDialect} {m m' : RegistrationManager} {now : ℤ}
    {registrationRequest registrationData : Json}
    (h : m.handleRegistrationRequest sha256 now registrationRequest = .ok (m', registrationData))
    (hterms : m.termsOfServiceHash ≠ none) :
    dialect.NamesOneTenant registrationData := by
  obtain ⟨-, hhash, -⟩ := handleRegistrationRequest_ok h
  cases registrationData with
  | array elements =>
    obtain hnone := Option.map_eq_none_iff.mp hhash.symm
    exact absurd hnone hterms
  | _ => trivial

namespace RegistrationRun

variable {sha256 : Sha256} {dialect : UpsertDialect} {w t : RegistrationRun}
  {a : RegistrationAction}

/-- A call that has stored its data stays as it is. -/
def KeepsRegistered (w t : RegistrationRun) : Prop :=
  ∀ i : ℕ, w.calls[i]? = some .registered → t.calls[i]? = some .registered

theorem KeepsRegistered.begin (manager : RegistrationManager) (call : RegistrationCall) :
    w.KeepsRegistered ({ w with manager }.begin call) := by
  intro i hi
  obtain ⟨hlt, -⟩ := List.getElem?_eq_some_iff.mp hi
  exact (List.getElem?_append_left hlt).trans hi

theorem KeepsRegistered.setCall {i : ℕ} {old : RegistrationCall} (hi : w.calls[i]? = some old)
    (hold : old ≠ .registered) (call : RegistrationCall) :
    w.KeepsRegistered (w.setCall i call) := by
  intro j hj
  have hne : i ≠ j := by
    rintro rfl
    exact hold (Option.some.inj (hi.symm.trans hj))
  exact (List.getElem?_set_ne hne).trans hj

/-- Only a statement that is executed for its call stores rows, and these are the rows of the
data that the call waited with. -/
theorem step_rows (h : w.step sha256 dialect a = some t) :
    (t.stored = w.stored ∧ w.KeepsRegistered t) ∨
      ∃ i outcome registrationData store tenants, a = .storeSettles i (.ok outcome) ∧
        w.calls[i]? = some (.storing registrationData) ∧
        w.manager.registrationStore = some store ∧
        dialect registrationData = some tenants ∧
        t.stored = w.stored ++ tenants ∧ t.calls = w.calls.set i .registered := by
  cases steps h with
  | manages hstore hterms ht =>
    rw [ht]
    exact Or.inl ⟨rfl, fun _ => id⟩
  | begins hstore hterms hcall ht =>
    rw [ht]
    exact Or.inl ⟨rfl, .begin _ _⟩
  | advances hi hold hcall ht =>
    rw [ht]
    exact Or.inl ⟨rfl, .setCall hi hold _⟩
  | stores hi hstore hrows ht =>
    rw [ht]
    exact Or.inr ⟨_, _, _, _, _, rfl, hi, hstore, hrows, rfl, rfl⟩

end RegistrationRun

/-- A run that also remembers which rows were written for which call. -/
structure WritingRun where
  registrations : RegistrationRun
  written : List (ℕ × RegisteredTenant)
  deriving DecidableEq

namespace WritingRun

variable (sha256 : Sha256) (dialect : UpsertDialect)

/-- The rows that a step writes, and the call that waited for them. -/
def rowsWritten (w t : RegistrationRun) : RegistrationAction → List (ℕ × RegisteredTenant)
  | .storeSettles call _ => (t.stored.drop w.stored.length).map (call, ·)
  | _ => []

def step (w : WritingRun) (a : RegistrationAction) : Option WritingRun :=
  (w.registrations.step sha256 dialect a).map fun t =>
    ⟨t, w.written ++ rowsWritten w.registrations t a⟩

/-- Each call, and so each accepted proof of work, has written one row at most. -/
def OneRowEach (w : WritingRun) : Prop :=
  w.written.Pairwise fun a b => a.1 = b.1 → a.2.SameRow b.2

/-- The data of a call whose statement is executed names one tenant. -/
def StoresOne (w : WritingRun) : RegistrationAction → Prop
  | .storeSettles call (.ok _) => ∀ registrationData,
    w.registrations.calls[call]? = some (.storing registrationData) →
      w.registrations.manager.registrationStore ≠ none →
        dialect.NamesOneTenant registrationData
  | _ => True

/-- What every step keeps: a call that has written is done, and one row is written for it. -/
structure Written (w : WritingRun) : Prop where
  registered : ∀ entry ∈ w.written, w.registrations.calls[entry.1]? = some .registered
  oneRowEach : w.OneRowEach

variable {sha256 : Sha256} {dialect : UpsertDialect} {w t : WritingRun} {a : RegistrationAction}

/-- A step writes nothing, or the rows of a call's data for a call that had written none. -/
theorem step_written (h : w.step sha256 dialect a = some t) :
    (t.written = w.written ∧ w.registrations.KeepsRegistered t.registrations) ∨
      ∃ i outcome registrationData tenants, a = .storeSettles i (.ok outcome) ∧
        w.registrations.calls[i]? = some (.storing registrationData) ∧
        w.registrations.manager.registrationStore ≠ none ∧
        dialect registrationData = some tenants ∧
        t.written = w.written ++ tenants.map (i, ·) ∧
        t.registrations.calls = w.registrations.calls.set i .registered := by
  obtain ⟨u, hu, rfl⟩ := Option.map_eq_some_iff.mp h
  rcases RegistrationRun.step_rows hu with
    ⟨hstored, hkept⟩ | ⟨i, outcome, registrationData, store, tenants, rfl, hi, hstore, hrows,
      hstored, hcalls⟩
  · refine Or.inl ⟨?_, hkept⟩
    cases a <;> simp [rowsWritten, hstored]
  · refine Or.inr ⟨i, outcome, registrationData, tenants, rfl, hi, by simp [hstore], hrows, ?_,
      hcalls⟩
    simp [rowsWritten, hstored]

theorem Written.not_mem (hw : w.Written) {i : ℕ} {registrationData : Json}
    (hi : w.registrations.calls[i]? = some (.storing registrationData)) :
    ∀ entry ∈ w.written, entry.1 ≠ i := by
  rintro entry hentry rfl
  cases hi.symm.trans (hw.registered entry hentry)

theorem Written.step (hdialect : dialect.Documented) (hw : w.Written)
    (hguard : w.StoresOne dialect a) (h : w.step sha256 dialect a = some t) : t.Written := by
  rcases step_written h with ⟨hwritten, hkept⟩ |
    ⟨i, outcome, registrationData, tenants, rfl, hi, hstore, hrows, hwritten, hcalls⟩
  · refine ⟨?_, ?_⟩
    · rw [hwritten]
      exact fun entry hentry => hkept _ (hw.registered entry hentry)
    · rw [OneRowEach, hwritten]
      exact hw.oneRowEach
  · obtain ⟨hlt, -⟩ := List.getElem?_eq_some_iff.mp hi
    have hone := (UpsertDialect.namesOneTenant_iff hdialect).mp (hguard _ hi hstore) tenants hrows
    refine ⟨?_, ?_⟩
    · rw [hwritten, hcalls]
      intro entry hentry
      rcases List.mem_append.mp hentry with hold | hnew
      · rw [List.getElem?_set_ne (hw.not_mem hi entry hold).symm]
        exact hw.registered entry hold
      · obtain ⟨tenant, -, rfl⟩ := List.mem_map.mp hnew
        rw [List.getElem?_set_self hlt]
    · rw [OneRowEach, hwritten, List.pairwise_append]
      refine ⟨hw.oneRowEach, ?_, ?_⟩
      · rw [List.pairwise_map]
        refine hone.imp ?_
        intro a b hsame _
        exact hsame
      · intro entry hentry entry' hentry' hsame
        obtain ⟨tenant, -, rfl⟩ := List.mem_map.mp hentry'
        exact absurd hsame (hw.not_mem hi entry hentry)

/-- A request with a proof of work for the manager that drew the bytes 1. -/
def request (registrationData : Json) : Json := .object
  [(js "registrationData", registrationData),
    (js "proofOfWork", .object
      [(js "challengeNonce", .string (ProofOfWork.generateNonce 1)),
        (js "responseNonce", .string (List.replicate 64 (unit 'A')))])]

def tenant (did : JsString) : Json := .object [(js "did", .string did)]

/-- A store and no terms, with every proof of work sufficient. -/
def noTerms : RegistrationManager.Input :=
  ⟨some (js "sqlite://"), none, none, some (List.replicate 64 (unit 'F'))⟩

end WritingRun

end DwnServer
