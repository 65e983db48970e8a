import DwnServer.Library.OrderedMap
import DwnServer.DwnError

/-!
# `RegistrationStore`

The table `registeredTenants`, with `did` as its primary key. Each query is atomic. Kysely takes the
members of what it is handed for columns, whatever they are, and it is the database that matches
their names, converts their values or refuses the statement. An `UpsertDialect` is what a database
makes of that, and `Documented` is what the server relies on.
-/
namespace DwnServer

/-- A row of the table, with NULL as `none`. -/
structure RegisteredTenant where
  did : Option JsString
  termsOfServiceHash : Option JsString
  deriving DecidableEq

/-- The rows that the database inserts or updates for `values(registrationData)`, absent where it
refuses the statement. -/
abbrev UpsertDialect := Json → Option (List RegisteredTenant)

/-- ASCII without NUL, which every database keeps as it is. -/
def isPlainText (text : JsString) : Bool := text.all fun u => 0 < u.toNat ∧ u.toNat < 0x80

/-- The row that a value of the type `RegistrationData` declares. Where there are no terms to agree
to, the hash is left out. -/
def declaredRow : Json → Option RegisteredTenant
  | .object members =>
    if members.all fun m => m.1 ∈ [js "did", js "termsOfServiceHash"] then
      match Json.member members (js "did"), Json.member members (js "termsOfServiceHash") with
      | some (.string did), none => if isPlainText did then some ⟨some did, none⟩ else none
      | some (.string did), some (.string hash) =>
        if isPlainText did && isPlainText hash then some ⟨some did, some hash⟩ else none
      | _, _ => none
    else none
  | _ => none

/-- The row has the members of the data. -/
theorem own_of_declaredRow {registrationData : Json} {tenant : RegisteredTenant}
    (h : declaredRow registrationData = some tenant) :
    registrationData.own (js "did") = tenant.did.map .string ∧
      registrationData.own (js "termsOfServiceHash") = tenant.termsOfServiceHash.map .string := by
  cases registrationData with
  | object members =>
    simp only [declaredRow] at h
    split_ifs at h
    show Json.member members (js "did") = _ ∧ Json.member members (js "termsOfServiceHash") = _
    split at h
    · rename_i hdid hhash
      split_ifs at h
      obtain rfl := Option.some.inj h
      exact ⟨hdid, hhash⟩
    · rename_i hdid hhash
      split_ifs at h
      obtain rfl := Option.some.inj h
      exact ⟨hdid, hhash⟩
    · cases h
  | _ => cases h

namespace UpsertDialect

/-- Data of the declared type is stored as it is. Kysely writes one row for an object, and for an
array a row for each element. -/
structure Documented (dialect : UpsertDialect) : Prop where
  declared : ∀ registrationData tenant, declaredRow registrationData = some tenant →
    dialect registrationData = some [tenant]
  object : ∀ registrationData tenants, (∀ elements, registrationData ≠ .array elements) →
    dialect registrationData = some tenants → tenants.length = 1
  array : ∀ elements tenants, dialect (.array elements) = some tenants →
    tenants.length = elements.length

/-- A database that takes data of the declared type, alone or in an array, and no other. -/
def strict : UpsertDialect
  | .array [] => none
  | .array elements => elements.mapM declaredRow
  | registrationData => (declaredRow registrationData).map ([·])

theorem length_of_declaredRows {elements : List Json} {tenants : List RegisteredTenant}
    (h : elements.mapM declaredRow = some tenants) : tenants.length = elements.length := by
  induction elements generalizing tenants with
  | nil =>
    obtain rfl := Option.some.inj h
    rfl
  | cons element elements ih =>
    rw [List.mapM_cons] at h
    obtain ⟨tenant, -, h⟩ := Option.bind_eq_some_iff.mp h
    obtain ⟨rest, hrest, h⟩ := Option.bind_eq_some_iff.mp h
    obtain rfl := Option.some.inj h
    rw [List.length_cons, List.length_cons, ih hrest]

theorem documented_strict : strict.Documented where
  declared registrationData tenant h := by
    cases registrationData with
    | object members => exact congrArg (Option.map ([·])) h
    | _ => cases h
  object registrationData tenants hobject h := by
    cases registrationData with
    | array elements => exact absurd rfl (hobject elements)
    | object members =>
      have hrow : (declaredRow (.object members)).map ([·]) = some tenants := h
      obtain ⟨tenant, -, rfl⟩ := Option.map_eq_some_iff.mp hrow
      rfl
    | _ => cases h
  array elements tenants h := by
    cases elements with
    | nil => cases h
    | cons element elements => exact length_of_declaredRows h

end UpsertDialect

/-- The table: the terms a DID agreed to, and the rows without a DID, which a database may allow.
These are no conflict for one another, and no query finds them. -/
structure RegistrationStore where
  registeredTenants : OrderedMap JsString (Option JsString)
  unnamed : List (Option JsString)
  deriving DecidableEq

namespace RegistrationStore

def empty : RegistrationStore := ⟨.empty, []⟩

/-- The number of rows. -/
def size (store : RegistrationStore) : ℕ := store.registeredTenants.size + store.unnamed.length

/-- One row of the insert, or the update of the row that has its `did`. -/
def insertOrUpdate (store : RegistrationStore) (tenant : RegisteredTenant) : RegistrationStore :=
  match tenant.did with
  | some did =>
    { store with registeredTenants := store.registeredTenants.set did tenant.termsOfServiceHash }
  | none => { store with unnamed := store.unnamed ++ [tenant.termsOfServiceHash] }

def insertOrUpdateTenantRegistration (store : RegistrationStore) (tenants : List RegisteredTenant) :
    RegistrationStore :=
  tenants.foldl insertOrUpdate store

def getTenantRegistration (store : RegistrationStore) (tenantDid : JsString) :
    Option RegisteredTenant :=
  (store.registeredTenants.get? tenantDid).map fun termsOfServiceHash =>
    ⟨some tenantDid, termsOfServiceHash⟩

/-! ## The table and what was stored -/

/-- The agreement in the latest row stored for a DID. -/
def latestAgreement (stored : List RegisteredTenant) (did : JsString) :
    Option (Option JsString) :=
  (stored.reverse.find? fun tenant => tenant.did = some did).map (·.termsOfServiceHash)

/-- A table that holds what was stored, from the first row on. -/
def ofStored (stored : List RegisteredTenant) : RegistrationStore :=
  insertOrUpdateTenantRegistration .empty stored

theorem ofStored_append (stored tenants : List RegisteredTenant) :
    ofStored (stored ++ tenants) = insertOrUpdateTenantRegistration (ofStored stored) tenants := by
  simp [ofStored, insertOrUpdateTenantRegistration]

theorem latestAgreement_append (stored tenants : List RegisteredTenant) (did : JsString) :
    latestAgreement (stored ++ tenants) did =
      (latestAgreement tenants did).or (latestAgreement stored did) := by
  simp only [latestAgreement, List.reverse_append, List.find?_append]
  cases tenants.reverse.find? fun tenant => tenant.did = some did <;> rfl

/-- Rows for other DIDs do not count. -/
theorem latestAgreement_append_of_ne {stored tenants : List RegisteredTenant} {did : JsString}
    (h : ∀ tenant ∈ tenants, tenant.did ≠ some did) :
    latestAgreement (stored ++ tenants) did = latestAgreement stored did := by
  have hnone : latestAgreement tenants did = none := by
    rw [latestAgreement, Option.map_eq_none_iff]
    simpa using h
  rw [latestAgreement_append, hnone, Option.none_or]

theorem latestAgreement_singleton (tenant : RegisteredTenant) (did : JsString) :
    latestAgreement [tenant] did =
      if tenant.did = some did then some tenant.termsOfServiceHash else none := by
  rw [latestAgreement, List.reverse_singleton, List.find?_singleton]
  split_ifs <;> simp_all

theorem get?_insertOrUpdate (store : RegistrationStore) (tenant : RegisteredTenant)
    (did : JsString) :
    (store.insertOrUpdate tenant).registeredTenants.get? did =
      (latestAgreement [tenant] did).or (store.registeredTenants.get? did) := by
  rw [latestAgreement_singleton]
  unfold insertOrUpdate
  cases hdid : tenant.did with
  | none => simp
  | some other =>
    rw [OrderedMap.get?_set]
    by_cases hsame : did = other
    · simp [hsame]
    · simp [hsame, Ne.symm hsame]

/-- The table holds the latest agreement of every DID. -/
theorem get?_ofStored (stored : List RegisteredTenant) (did : JsString) :
    (ofStored stored).registeredTenants.get? did = latestAgreement stored did := by
  induction stored using List.reverseRecOn with
  | nil => rfl
  | append_singleton stored tenant ih =>
    rw [ofStored_append, latestAgreement_append, ← ih]
    exact get?_insertOrUpdate _ tenant did

theorem getTenantRegistration_ofStored (stored : List RegisteredTenant) (did : JsString) :
    (ofStored stored).getTenantRegistration did =
      (latestAgreement stored did).map fun termsOfServiceHash =>
        ⟨some did, termsOfServiceHash⟩ := by
  rw [getTenantRegistration, get?_ofStored]

theorem size_insertOrUpdate_le (store : RegistrationStore) (tenant : RegisteredTenant) :
    (store.insertOrUpdate tenant).size ≤ store.size + 1 := by
  unfold insertOrUpdate size
  cases tenant.did with
  | none => simp [Nat.add_assoc]
  | some did =>
    have hset := store.registeredTenants.size_set_le did tenant.termsOfServiceHash
    dsimp only
    omega

theorem size_ofStored_le (stored : List RegisteredTenant) :
    (ofStored stored).size ≤ stored.length := by
  induction stored using List.reverseRecOn with
  | nil => exact le_rfl
  | append_singleton stored tenant ih =>
    rw [ofStored_append, List.length_append, List.length_singleton]
    exact (size_insertOrUpdate_le _ tenant).trans (Nat.add_le_add_right ih 1)

/-- A row that is the latest agreement of a DID was stored. -/
theorem mem_of_latestAgreement {stored : List RegisteredTenant} {did : JsString}
    {hash : Option JsString} (h : latestAgreement stored did = some hash) :
    ⟨some did, hash⟩ ∈ stored := by
  obtain ⟨tenant, hfind, rfl⟩ := Option.map_eq_some_iff.mp h
  have hdid : tenant.did = some did := by simpa using List.find?_some hfind
  have hmem := List.mem_reverse.mp (List.mem_of_find?_eq_some hfind)
  rwa [← hdid]

/-- The DID that a table lists is one of the rows that were stored. -/
theorem mem_stored_of_key {stored : List RegisteredTenant} {did : JsString}
    (h : did ∈ (ofStored stored).registeredTenants.keys) : some did ∈ stored.map (·.did) := by
  obtain ⟨⟨_, hash⟩, hentry, rfl⟩ := List.mem_map.mp h
  have hget := OrderedMap.get?_eq_some.mpr hentry
  rw [get?_ofStored] at hget
  exact List.mem_map.mpr ⟨_, mem_of_latestAgreement hget, rfl⟩

end RegistrationStore

end DwnServer
