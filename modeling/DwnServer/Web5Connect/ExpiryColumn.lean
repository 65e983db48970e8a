import DwnServer.Web5Connect.SqlTtlCache

/-!
# The column of the expiries

The cache counts expiries in milliseconds since 1970 and stores them in a column that it
declares as `integer`, on whatever database the URL of the cache names.
-/
namespace DwnServer

inductive SqlDialect where
  | sqlite
  | mysql
  | postgres
  deriving DecidableEq

/-- The dialect that a connection URL of this protocol is given; others get none. -/
def getDialectFromUrl (protocol : JsString) : Option SqlDialect :=
  if protocol.dropLast = js "sqlite" then some .sqlite
  else if protocol.dropLast = js "mysql" then some .mysql
  else if protocol.dropLast = js "postgres" then some .postgres
  else none

inductive SqlType where
  | varchar (length : ℕ)
  | text
  | integer
  deriving DecidableEq

structure SqlColumn where
  name : String
  type : SqlType
  primaryKey : Bool
  notNull : Bool
  deriving DecidableEq

/-- The numbers that a column can hold. -/
def SqlDialect.Holds : SqlDialect → SqlType → ℤ → Prop
  | .sqlite, .integer, n => -2 ^ 63 ≤ n ∧ n < 2 ^ 63
  | .mysql, .integer, n | .postgres, .integer, n => -2 ^ 31 ≤ n ∧ n < 2 ^ 31
  | _, .varchar _, _ | _, .text, _ => False

instance : ∀ (d : SqlDialect) (type : SqlType) (n : ℤ), Decidable (d.Holds type n)
  | .sqlite, .integer, n => inferInstanceAs (Decidable (-2 ^ 63 ≤ n ∧ n < 2 ^ 63))
  | .mysql, .integer, n | .postgres, .integer, n =>
    inferInstanceAs (Decidable (-2 ^ 31 ≤ n ∧ n < 2 ^ 31))
  | .sqlite, .varchar _, _ | .sqlite, .text, _ | .mysql, .varchar _, _ | .mysql, .text, _
  | .postgres, .varchar _, _ | .postgres, .text, _ => .isFalse id

namespace SqlTtlCache

/-- The columns that `initialize` declares. -/
def columns : List SqlColumn :=
  [⟨"key", .varchar 512, true, false⟩, ⟨"value", .text, false, true⟩,
    ⟨"expiry", .integer, false, true⟩]

/-- The column of this name can hold the number. -/
def Fits (d : SqlDialect) (name : String) (n : ℤ) : Prop :=
  ∃ column ∈ columns, column.name = name ∧ d.Holds column.type n

instance (d : SqlDialect) (name : String) (n : ℤ) : Decidable (Fits d name n) :=
  inferInstanceAs (Decidable (∃ column ∈ columns, column.name = name ∧ d.Holds column.type n))

/-- The query of a call on a database of the dialect, which rejects a row that it cannot hold. -/
def executeOn (d : SqlDialect) (w : SqlTtlCache) (i : ℕ) : CacheCall → Option SqlTtlCache
  | .inserting key value expiry =>
    if Fits d "expiry" expiry then w.execute i (.inserting key value expiry)
    else some (w.setCall i .failed)
  | call => w.execute i call

end SqlTtlCache

/-- The action stores an object of the connect server. -/
def CacheAction.IsSet : CacheAction → Prop
  | .setWeb5ConnectRequest .. | .setWeb5ConnectResponse .. => True
  | _ => False

namespace SqlTtlCache

/-- At the time `now` the column holds what an insert of the connect server stores, which the
database does not reject, and the clock that `get` and the cleanup compare it with. -/
structure InRange (d : SqlDialect) (now : ℤ) : Prop where
  compared : Fits d "expiry" now
  stored : ∀ (w t : SqlTtlCache) a, w.now = now → a.IsSet → w.step a = some t →
    ∀ key value expiry, t.calls[w.calls.length]? = some (.inserting key value expiry) →
      Fits d "expiry" expiry ∧ ∀ (u : SqlTtlCache) i,
        u.executeOn d i (.inserting key value expiry) = u.execute i (.inserting key value expiry)

/-- From the year 2000 to the year 2100. -/
def DeploymentTime (now : ℤ) : Prop := 946684800000 ≤ now ∧ now < 4133980800000

theorem fits_expiry {d : SqlDialect} {n : ℤ} : Fits d "expiry" n ↔ d.Holds .integer n := by
  simp [Fits, columns]

theorem holds_integer {d : SqlDialect} {n : ℤ} (h : d.Holds .integer n) (hd : d ≠ .sqlite) :
    n < 2 ^ 31 := by
  cases d with
  | sqlite => exact absurd rfl hd
  | mysql | postgres => exact h.2

/-- The connect server computes the expiry ten minutes ahead. -/
theorem expiry_of_step {w t : SqlTtlCache} {a : CacheAction} (ha : a.IsSet)
    (h : w.step a = some t) {key value : JsString} {expiry : ℤ}
    (hcall : t.calls[w.calls.length]? = some (.inserting key value expiry)) :
    expiry = w.now + 600000 := by
  have hinsert : ∀ key' object, (w.insert key' object ttlInSeconds).calls[w.calls.length]? =
      some (.inserting key value expiry) → expiry = w.now + 600000 := by
    intro key' object hcall
    simp [insert, begin, ttlInSeconds] at hcall
    exact hcall.2.2.symm
  cases a with
  | setWeb5ConnectRequest requestId request =>
    obtain rfl := Option.some.inj h
    exact hinsert _ _ hcall
  | setWeb5ConnectResponse state response =>
    obtain rfl := Option.some.inj h
    unfold setWeb5ConnectResponse at hcall
    split at hcall
    · exact hinsert _ _ hcall
    · simp [begin] at hcall
  | _ => exact ha.elim

/-- Of the databases that a URL can name, exactly SQLite holds the times of the cache. -/
theorem inRange_iff {protocol : JsString} {d : SqlDialect} {now : ℤ}
    (hd : getDialectFromUrl protocol = some d) (hnow : DeploymentTime now) :
    InRange d now ↔ protocol.dropLast = js "sqlite" := by
  obtain ⟨hlow, hhigh⟩ := hnow
  have hdialect : protocol.dropLast = js "sqlite" ↔ d = .sqlite := by
    unfold getDialectFromUrl at hd
    split_ifs at hd with hsqlite <;> obtain rfl := Option.some.inj hd <;> simp [hsqlite]
  rw [hdialect]
  constructor
  · intro h
    by_contra hne
    have := holds_integer (fits_expiry.mp h.compared) hne
    omega
  · rintro rfl
    refine ⟨fits_expiry.mpr ⟨by omega, by omega⟩, fun w t a hw ha h key value expiry hcall => ?_⟩
    have hexpiry := expiry_of_step ha h hcall
    have hfits : Fits .sqlite "expiry" expiry := fits_expiry.mpr ⟨by omega, by omega⟩
    exact ⟨hfits, fun u i => if_pos hfits⟩

theorem inRange_sqlite : InRange .sqlite 1700000000000 :=
  (@inRange_iff (js "sqlite:") .sqlite _ (by decide) (by unfold DeploymentTime; decide)).mpr
    (by decide)

/-- In the first millisecond of the year 2000, the clock is beyond a 32-bit column. -/
theorem not_inRange : ¬∀ protocol d now, getDialectFromUrl protocol = some d →
    DeploymentTime now → InRange d now := by
  intro h
  have hrange := h (js "postgres:") .postgres 946684800000 (by decide)
    (by unfold DeploymentTime; decide)
  obtain ⟨-, hlt⟩ := fits_expiry.mp hrange.compared
  revert hlt
  decide

end SqlTtlCache

end DwnServer
