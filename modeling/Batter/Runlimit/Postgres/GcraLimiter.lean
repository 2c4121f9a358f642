import Batter.Library.SortedList
import Batter.Runlimit.Core.Gcra
import Batter.Runlimit.Postgres.Protocol

/-!
# Runlimit Postgres: the GCRA limiter

The durable GCRA limiter keeps one arrival time per key in `runlimit_gcra` and,
for every capacity shard, a row count and the latest committed observation of
the database clock in `runlimit_gcra_shards`.

An admission locks its shards before it reads anything and holds them to its
end, so admissions and cleanups that share a shard are serial; a transaction is
modelled as one function on the tables.  The clock sample is an argument.  What
is committed are the returned tables; a denial and every failure roll back.
-/

namespace Batter.Runlimit.Postgres.Gcra

open RustStd SortedList

/-- A row of `runlimit_gcra`. -/
structure CounterRow where
  tatScaled : Nat
  expiresAtMs : Nat
deriving DecidableEq

/-- A row of `runlimit_gcra_shards`. -/
structure ShardRow where
  rowCount : Nat
  observedAtMs : Nat
deriving DecidableEq

/-- The two tables.  The migration inserts all 256 shard rows and nothing
deletes them. -/
structure Tables where
  counters : Finmap (fun _ : CounterKey => CounterRow)
  shards : CapacityShard → ShardRow

/-- The tables after the migration. -/
def Tables.initial : Tables := ⟨∅, fun _ => ⟨0, 0⟩⟩

/-- Sets the observed time of some shards. -/
def Tables.observe (tables : Tables) (shards : List CapacityShard) (nowMs : Nat) : Tables :=
  { tables with
    shards := fun shard =>
      if shard ∈ shards then { tables.shards shard with observedAtMs := nowMs }
      else tables.shards shard }

/-- What one transaction came to. -/
inductive Outcome (D : Type) where
  /-- A decision of denial; the transaction is rolled back. -/
  | denied (decision : D)
  /-- An allowed decision, the recorded time and the tables to commit. -/
  | allowed (decision : D) (nowMs : Nat) (tables : Tables)

/-- The result of the evaluation of a batch. -/
inductive Pending where
  | allowed (allowances : List Runlimit.Gcra.PendingAllowance)
  | denied (admission : Admission)

section Admission

variable [Sha256]

/-- The loop state of `evaluate`. -/
structure EvaluateState where
  counts : CapacityShard → Nat
  denial : Option Admission
  pending : List Runlimit.Gcra.PendingAllowance

/-- The stored arrival time and expiry of a row as `evaluate` reads them. -/
def readRow (check : Check GcraPolicy) : Option CounterRow → Except CheckError (Option (Nat × Nat))
  | none => .ok none
  | some row =>
    if row.tatScaled > u128Max then
      .error (.storageInvariant "invalid GCRA theoretical arrival time")
    else if row.tatScaled ⌈/⌉ check.policy.quota.get ≠ row.expiresAtMs then
      .error (.storageInvariant "GCRA expiry disagrees with theoretical arrival time")
    else
      .ok (some (row.tatScaled, row.expiresAtMs))

/-- One iteration of the loop of `evaluate`. -/
def evaluateMember (maximum now index : Nat) (check : Check GcraPolicy)
    (row : Option CounterRow) (state : EvaluateState) : Except CheckError EvaluateState := do
  let stored ← readRow check row
  let activeTat := (stored.filter fun stored => stored.2 > now).map Prod.fst
  match Runlimit.Gcra.evaluate check now activeTat with
  | .error _ => throw (.storageInvariant "GCRA arithmetic exceeded exact range")
  | .ok (.denied quota) =>
    let denied :=
      if check.policy.quotaMode = .shadow then Admission.shadowDenied index quota
      else Admission.denied index (.quotaExceeded quota)
    pure { state with denial := state.denial.or (some denied) }
  | .ok (.allowed allowance) =>
    match stored with
    | some _ => pure { state with pending := state.pending ++ [allowance] }
    | none =>
      let shard := capacityShard check.counterKey
      pure
        { counts := Function.update state.counts shard (state.counts shard + 1)
          denial :=
            if state.counts shard ≥ maximum then
              state.denial.or (some (.denied index (.storageCapacity none)))
            else state.denial
          pending := state.pending ++ [allowance] }

def evaluateLoop (maximum now : Nat) : Nat → List (Check GcraPolicy × Option CounterRow) →
    EvaluateState → Except CheckError EvaluateState
  | _, [], state => .ok state
  | index, (check, row) :: rest, state => do
    let next ← evaluateMember maximum now index check row state
    evaluateLoop maximum now (index + 1) rest next

def evaluate (checks : List (Check GcraPolicy)) (rows : List (Option CounterRow))
    (counts : CapacityShard → Nat) (maximum now : Nat) : Except CheckError Pending :=
  if rows.length ≠ checks.length then
    .error (.storageInvariant "GCRA preflight count disagrees with the batch")
  else do
    let state ← evaluateLoop maximum now 0 (checks.zip rows) ⟨counts, none, []⟩
    match state.denial with
    | some denial => pure (.denied denial)
    | none => pure (.allowed state.pending)

/-- One row of `UPSERT`, with the trigger that counts an inserted row and the
constraint on the count. -/
def upsertRow (tables : Tables) (key : CounterKey) (row : CounterRow) : Except CheckError Tables :=
  if tables.counters.lookup key = none then
    let shard := capacityShard key
    let rowCount := (tables.shards shard).rowCount + 1
    if rowCount > hardMaxRowsPerShard then
      .error .definitelyNotConsumed
    else
      .ok
        { counters := tables.counters.insert key row
          shards := Function.update tables.shards shard { tables.shards shard with rowCount } }
  else
    .ok { tables with counters := tables.counters.insert key row }

/-- The rows of `UPSERT` one after the other. -/
def upsertRows : Tables → List (CounterKey × CounterRow) → Except CheckError Tables
  | tables, [] => .ok tables
  | tables, (key, row) :: rest => do
    let next ← upsertRow tables key row
    upsertRows next rest

/-- `UPSERT`: a command must not propose the same key twice. -/
def upsert (tables : Tables) (input : List (CounterKey × CounterRow)) : Except CheckError Tables :=
  if (input.map Prod.fst).Nodup then upsertRows tables input else .error .definitelyNotConsumed

/-- `i64::try_from(allowance.expires_at_millis)` for every allowance. -/
def databaseExpiries (allowances : List Runlimit.Gcra.PendingAllowance) :
    Except CheckError (List Nat) :=
  if allowances.all fun allowance => allowance.expiresAtMillis ≤ i64Max then
    .ok (allowances.map Runlimit.Gcra.PendingAllowance.expiresAtMillis)
  else
    .error (.storageInvariant "GCRA expiry exceeds database range")

/-- The locks of a transaction: its shards in ascending order. -/
def lockedShards (checks : List (Check GcraPolicy)) : List CapacityShard :=
  sortDedup id (checks.map fun check => capacityShard check.counterKey)

/-- The clamped time of a transaction: its sample, but not before the observed
time of a locked shard. -/
def clampedTime (tables : Tables) (locked : List CapacityShard) (sample : Int) : Int :=
  (locked.map fun shard => ((tables.shards shard).observedAtMs : Int)).foldl max sample

def runTransaction {D : Type} (tables : Tables) (checks : List (Check GcraPolicy))
    (config : PostgresConfig) (sample : Int) (build : Admission → Except CheckError D) :
    Except CheckError (Outcome D) :=
  let shards := lockedShards checks
  let counts := fun shard => if shard ∈ shards then (tables.shards shard).rowCount else 0
  let now := clampedTime tables shards sample
  let rows := checks.map fun check => tables.counters.lookup check.counterKey
  if shards.any fun shard => (tables.shards shard).rowCount > hardMaxRowsPerShard then
    .error (.storageInvariant "invalid GCRA capacity ledger")
  else if now < 0 then
    .error (.storageInvariant "negative GCRA database time")
  else do
    match ← evaluate checks rows counts config.maximumRowsPerShard now.toNat with
    | .denied admission => do
      let decision ← build admission
      pure (.denied decision)
    | .allowed allowances => do
      let expiries ← databaseExpiries allowances
      let decision ← build (.allowed (allowances.map Runlimit.Gcra.PendingAllowance.allowance))
      let updated ← upsert tables ((checks.map Check.counterKey).zip
        (.zipWith .mk
          (allowances.map Runlimit.Gcra.PendingAllowance.tatScaled) expiries))
      pure (.allowed decision now.toNat (updated.observe shards now.toNat))

def check (tables : Tables) (config : PostgresConfig) (check : Check GcraPolicy) (sample : Int) :
    Except CheckError (Outcome Decision) :=
  runTransaction tables [check] config sample singleDecision

def checkAll (tables : Tables) (config : PostgresConfig) (checks : List (Check GcraPolicy))
    (sample : Int) : Except BatchCheckError (Outcome BatchDecision) :=
  match validateBatch checks config.maxBatchSize with
  | .error error => .error (.invalidBatch error)
  | .ok () =>
    (runTransaction tables checks config sample (batchDecision checks.length)).mapError .check

end Admission

/-! ### Cleanup -/

/-- `CLEANUP_ADVANCE_TIME`: the locked shards observe the sample, but nothing
earlier than what one of them has observed. -/
def advanceTime (tables : Tables) (locked : List CapacityShard) (sample : Int) : Tables :=
  tables.observe locked (max (clampedTime tables locked sample) 0).toNat

/-- The rows that `CLEANUP_DELETE` may take. -/
def Expired (tables : Tables) (locked : List CapacityShard) (key : CounterKey)
    (row : CounterRow) : Prop :=
  tables.counters.lookup key = some row ∧ capacityShard key ∈ locked ∧
    row.expiresAtMs ≤ (tables.shards (capacityShard key)).observedAtMs

/-- The keys that `CLEANUP_DELETE` chooses: expired rows of locked shards, the
earliest first and at most `maximum` of them. -/
structure IsCleanupBatch (tables : Tables) (locked : List CapacityShard) (maximum : Nat)
    (deleted : List CounterKey) : Prop where
  nodup : deleted.Nodup
  expired : ∀ key ∈ deleted, ∃ row, Expired tables locked key row
  earliest : ∀ key ∈ deleted, ∀ row, Expired tables locked key row →
    ∀ other ∉ deleted, ∀ row', Expired tables locked other row' →
      row.expiresAtMs ≤ row'.expiresAtMs
  length_le : deleted.length ≤ maximum
  length_eq : ∀ other ∉ deleted, ∀ row', Expired tables locked other row' →
    deleted.length = maximum

/-- One row of `CLEANUP_DELETE`, with the trigger that counts a deleted row and
the constraint on the count. -/
def deleteRow (tables : Tables) (key : CounterKey) : Except CheckError Tables :=
  let shard := capacityShard key
  if (tables.shards shard).rowCount = 0 then
    .error .definitelyNotConsumed
  else
    .ok
      { counters := tables.counters.erase key
        shards := Function.update tables.shards shard
          { tables.shards shard with rowCount := (tables.shards shard).rowCount - 1 } }

/-- The rows of `CLEANUP_DELETE` one after the other. -/
def deleteRows : Tables → List CounterKey → Except CheckError Tables
  | tables, [] => .ok tables
  | tables, key :: rest => do
    let next ← deleteRow tables key
    deleteRows next rest

/-- A committed `cleanup_transaction`.  Which shards it locks depends on the
candidates that its first statement saw and on the locks of others, which it
skips; any list of shards is possible here. -/
def Cleanup (tables : Tables) (maximum : Nat) (locked : List CapacityShard) (sample : Int)
    (tables' : Tables) : Prop :=
  0 < maximum ∧
    ∃ deleted, IsCleanupBatch (advanceTime tables locked sample) locked maximum deleted ∧
      deleteRows (advanceTime tables locked sample) deleted = .ok tables'

end Batter.Runlimit.Postgres.Gcra
