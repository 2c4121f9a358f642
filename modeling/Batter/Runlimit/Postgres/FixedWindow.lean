import Batter.Library.AnchoredWindow
import Batter.Library.KeyedTable
import Batter.Library.SortedList
import Batter.Runlimit.Postgres.Protocol

/-!
# Runlimit Postgres: the statements of the fixed-window limiter

One admission is a sequence of statements, and a cleanup is one statement.  This
module has what each of them computes from the rows and ledger counts that it
reads; which locks they wait for and how they interleave is in
`Postgres.LockProtocol`.

A timestamp of the database is a 64-bit number of microseconds.  A row's
identifiers and the start of its window are written but never read again, and
are left out.  A statement that PostgreSQL rejects is `definitelyNotConsumed`.
-/

namespace Batter.Runlimit.Postgres

open RustStd SortedList AnchoredWindow Bytes List

/-- The first number of microseconds beyond 64 bits. -/
def timestampEnd : Int := 0x8000000000000000

/-- A `timestamptz`: microseconds within 64 bits. -/
structure Timestamp where
  micros : Int
  lower : -timestampEnd ≤ micros
  upper : micros < timestampEnd

/-- A row of `runlimit_fixed_windows`. -/
abbrev Row := Window Int

/-- The table `runlimit_fixed_windows` by its primary key. -/
abbrev Rows := Finmap (fun _ : CounterKey => Row)

/-- The two tables.  The migration inserts all ledger rows and nothing deletes
them. -/
structure Tables where
  rows : Rows
  ledger : CapacityShard → Nat

/-- The tables after the migrations. -/
def Tables.initial : Tables := ⟨∅, fun _ => 0⟩

def advisoryLockDomain : List UInt8 :=
  asBytes "runlimit/postgres-advisory-lock/v1\x00"

/-- `CounterKey::to_bytes`. -/
def keyBytes (key : CounterKey) : List UInt8 :=
  toBeBytes 32 key.fingerprint.toNat ++ toBeBytes 32 key.subject.toNat

section

variable [Sha256]

/-- `advisory_lock_id`: the leading eight bytes of a digest as an `i64`. -/
def advisoryLockId (key : CounterKey) : Int :=
  ((Sha256.finalize (advisoryLockDomain ++ keyBytes key)).extractLsb' 192 64).toInt

variable (checks : List (Check FixedWindowPolicy))

/-- `advisory_lock_ids` of a batch. -/
def advisoryLockIds : List Int :=
  sortDedup id (checks.map fun check => advisoryLockId check.counterKey)

/-- The keys of a batch in the order of `lock_input_positions`. -/
def rowLockKeys : List CounterKey :=
  (checks.map Check.counterKey).insertionSort fun a b => a ≤ b

/-- The window of a check's policy in microseconds. -/
def windowMicros (check : Check FixedWindowPolicy) : Int :=
  check.policy.window.millis * 1000

/-- A check with the stored row of its key. -/
abbrev Member := Check FixedWindowPolicy × Option Row

/-- The batch joined with the stored rows. -/
def members (rows : Rows) (checks : List (Check FixedWindowPolicy)) : List Member :=
  checks.map fun check => (check, rows.lookup check.counterKey)

/-! ### Capacity -/

/-- `missing_keys` of `BATCH_CAPACITY_LOCK_SQL`: the input index and the shard of
every check without a row. -/
def missingKeys : Nat → List Member → List (Nat × CapacityShard)
  | _, [] => []
  | index, (check, none) :: rest =>
    (index, capacityShard check.counterKey) :: missingKeys (index + 1) rest
  | index, (_, some _) :: rest => missingKeys (index + 1) rest

end

/-- `target_shards` in the order in which they are locked. -/
def targetShards (missing : List (Nat × CapacityShard)) : List CapacityShard :=
  sortDedup id (missing.map Prod.snd)

/-- The loop of `first_capacity_denial`. -/
def firstCapacityDenial (maximum : Nat) (rowCount : CapacityShard → Nat) :
    (CapacityShard → Nat) → List (Nat × CapacityShard) → Option Nat
  | _, [] => none
  | pendingInsertions, (index, shard) :: rest =>
    let projectedRows := rowCount shard + pendingInsertions shard + 1
    if projectedRows > maximum then
      some index
    else
      firstCapacityDenial maximum rowCount
        (Function.update pendingInsertions shard (pendingInsertions shard + 1)) rest

/-! ### Time -/

def toStd (micros : Int) : Option Duration :=
  if h : 0 ≤ micros ∧ micros.toNat * 1000 ≤ Duration.maxNanos then
    some ⟨micros.toNat * 1000, h.2⟩
  else
    none

def durationUntil (expiresAt databaseNow : Int) : Except CheckError Duration :=
  match toStd (expiresAt - databaseNow) with
  | some duration => .ok duration
  | none => .error (.storageInvariant "stored window is already expired")

def authoritativeElapsed (start finish : Timestamp) : Duration :=
  (toStd (finish.micros - start.micros)).getD .zero

/-! ### Outcomes -/

/-- `PendingAllowance::new`. -/
def pendingAllowance (limit : Capacity) (used : Nat) (resetFromSample : Duration) :
    Except CheckError Allowance :=
  if used > limit.get then
    .error (.storageInvariant "stored usage exceeds its policy limit")
  else
    match Allowance.new limit (limit.get - used) resetFromSample with
    | .ok allowance => .ok allowance
    | .error _ => .error (.storageInvariant "stored usage exceeds its policy limit")

/-- `PendingAllowance::finish`. -/
def finishAllowance (elapsed : Duration) (allowance : Allowance) : Allowance :=
  { allowance with
    replenishesAfter := ⟨allowance.replenishesAfter.duration.saturatingSub elapsed⟩ }

inductive PendingDenial where
  | quota (limit : Capacity) (retryFromSample : Duration)
  | storageCapacity

/-- `PendingQuotaDenial::finish`. -/
def finishQuotaDenial (limit : Capacity) (retryFromSample elapsed : Duration) : QuotaDenial :=
  .new limit (retryFromSample.saturatingSub elapsed)

section

variable [Sha256]

variable (checks : List (Check FixedWindowPolicy))

/-- The admission of a denied batch: the first policy owns the quota mode. -/
def deniedAdmission (index : Nat) (denial : PendingDenial) (elapsed : Duration) : Admission :=
  match denial, checks.head?.map Check.quotaMode with
  | .quota limit retry, some .shadow =>
    .shadowDenied index (finishQuotaDenial limit retry elapsed)
  | .quota limit retry, _ =>
    .denied index (.quotaExceeded (finishQuotaDenial limit retry elapsed))
  | .storageCapacity, _ => .denied index (.storageCapacity none)

/-! ### Preflight -/

/-- `first_denial` of `BATCH_PREFLIGHT_SQL`: its input index and the end of the
full window. -/
def firstQuotaDenial (now : Int) : Nat → List Member → Option (Nat × Int)
  | _, [] => none
  | index, (_, none) :: rest => firstQuotaDenial now (index + 1) rest
  | index, (check, some row) :: rest =>
    if row.expiresAt > now ∧ row.used > check.policy.limit.get - check.cost then
      some (index, row.expiresAt)
    else
      firstQuotaDenial now (index + 1) rest

/-- The denial that `preflight_batch` reads from its row. -/
def preflightDenial (now : Int) :
    Option (Nat × Int) → Except CheckError (Option (Nat × PendingDenial))
  | none => .ok none
  | some (index, expiresAt) =>
    match checks[index]? with
    | none =>
      .error (.storageInvariant "batch preflight returned an out-of-range input index")
    | some check => do
      let retryFromSample ← durationUntil expiresAt now
      pure (some (index, .quota check.policy.limit retryFromSample))

/-- `first_denial` of `execute_batch`. -/
def firstDenial (capacity : Option Nat) (quota : Option (Nat × PendingDenial)) :
    Option (Nat × PendingDenial) :=
  match capacity, quota with
  | some index, some quota =>
    if index < quota.1 then some (index, .storageCapacity) else some quota
  | some index, none => some (index, .storageCapacity)
  | none, quota => quota

/-! ### Upsert -/

/-- A new window; its end has to be a timestamp. -/
def startedRow (now : Int) (check : Check FixedWindowPolicy) : Except CheckError Row :=
  if now + windowMicros check < timestampEnd then
    .ok ⟨check.cost, now + windowMicros check⟩
  else
    .error .definitelyNotConsumed

/-- `BATCH_UPSERT_SQL`: the written rows with their input indexes, in caller
order.  A row that does not satisfy the condition of the update is left as it is
and not returned. -/
def upsertRows (now : Int) : Nat → List Member →
    Except CheckError (List (Nat × Check FixedWindowPolicy × Row))
  | _, [] => .ok []
  | index, (check, none) :: rest => do
    let row ← startedRow now check
    let rows ← upsertRows now (index + 1) rest
    pure ((index, check, row) :: rows)
  | index, (check, some stored) :: rest => do
    if stored.expiresAt ≤ now then
      let row ← startedRow now check
      let rows ← upsertRows now (index + 1) rest
      pure ((index, check, row) :: rows)
    else if stored.used ≤ check.policy.limit.get - check.cost then
      let rows ← upsertRows now (index + 1) rest
      pure ((index, check, ⟨stored.used + check.cost, stored.expiresAt⟩) :: rows)
    else
      upsertRows now (index + 1) rest

/-- The loop of `upsert_batch` over the returned rows. -/
def readAllowances (now : Int) : Nat → List (Nat × Check FixedWindowPolicy × Row) →
    Except CheckError (List Allowance)
  | _, [] => .ok []
  | position, (index, check, row) :: rest => do
    let remaining ← durationUntil row.expiresAt now
    if index ≠ position then
      .error (.storageInvariant "allowed batch decisions were not returned in caller order")
    else
      let allowance ← pendingAllowance check.policy.limit row.used remaining
      let allowances ← readAllowances now (position + 1) rest
      pure (allowance :: allowances)

/-- `upsert_batch`: the written rows by key, and the pending allowances. -/
def upsertBatch (now : Int) (batch : List Member) :
    Except CheckError (List (CounterKey × Row) × List Allowance) := do
  let returned ← upsertRows now 0 batch
  if returned.isEmpty then
    .error (.storageInvariant "allowed batch update returned no decisions")
  else
    let allowances ← readAllowances now 0 returned
    if allowances.length ≠ batch.length then
      .error (.storageInvariant "allowed batch returned an incomplete decision set")
    else
      pure (returned.map fun entry => (entry.2.1.counterKey, entry.2.2), allowances)

end

/-! ### Ledger triggers -/

/-- The loop of the ledger triggers over the shards of the changed rows: the new
ledger counts. -/
def capacityTrigger (rejects : Nat → Nat → Bool) (update : Nat → Nat → Nat)
    (ledger : CapacityShard → Nat) (changed : List CapacityShard) :
    Except CheckError (List (CapacityShard × Nat)) :=
  (sortDedup id changed).mapM fun shard =>
    if rejects (changed.count shard) (ledger shard) then
      .error .definitelyNotConsumed
    else
      .ok (shard, update (ledger shard) (changed.count shard))

/-- `runlimit_fixed_windows_capacity_after_insert`. -/
def capacityAfterInsert : (CapacityShard → Nat) → List CapacityShard →
    Except CheckError (List (CapacityShard × Nat)) :=
  capacityTrigger (fun addedRows rowCount => addedRows > hardMaxRowsPerShard - rowCount)
    fun rowCount addedRows => rowCount + addedRows

/-- `runlimit_fixed_windows_capacity_after_delete`. -/
def capacityAfterDelete : (CapacityShard → Nat) → List CapacityShard →
    Except CheckError (List (CapacityShard × Nat)) :=
  capacityTrigger (fun removedRows rowCount => removedRows > rowCount)
    fun rowCount removedRows => rowCount - removedRows

/-! ### Writing -/

/-- The ledger after some counts were written. -/
def writeLedger (ledger : CapacityShard → Nat) (counts : List (CapacityShard × Nat)) :
    CapacityShard → Nat :=
  fun shard => (counts.lookup shard).getD (ledger shard)

/-! ### What the statements depend on -/

theorem members_congr [Sha256] {rows rows' : Rows} {checks : List (Check FixedWindowPolicy)}
    (h : ∀ check ∈ checks, rows'.lookup check.counterKey = rows.lookup check.counterKey) :
    members rows' checks = members rows checks :=
  map_congr_left fun check hcheck => by rw [h check hcheck]

variable {missing : List (Nat × CapacityShard)} {shard : CapacityShard}

theorem mem_targetShards : shard ∈ targetShards missing ↔ shard ∈ missing.map Prod.snd :=
  mem_sortDedup_id

theorem firstCapacityDenial_congr {maximum : Nat} {rowCount rowCount' pending : CapacityShard → Nat}
    (h : ∀ shard ∈ missing.map Prod.snd, rowCount' shard = rowCount shard) :
    firstCapacityDenial maximum rowCount' pending missing =
      firstCapacityDenial maximum rowCount pending missing := by
  induction missing generalizing pending with
  | nil => rfl
  | cons entry rest ih =>
    rw [map_cons, forall_mem_cons] at h
    simp only [firstCapacityDenial, h.1, ih h.2]

theorem firstDenial_eq_none {cap : Option Nat} {quota : Option (Nat × PendingDenial)} :
    firstDenial cap quota = none ↔ cap = none ∧ quota = none := by
  unfold firstDenial
  cases cap <;> cases quota <;> simp
  split_ifs <;> simp

/-! ### Ledger counts -/

section Trigger

variable {rejects : Nat → Nat → Bool} {update : Nat → Nat → Nat}
  {ledger ledger' : CapacityShard → Nat} {changed : List CapacityShard}
  {counts : List (CapacityShard × Nat)}

theorem capacityTrigger_congr (h : ∀ shard ∈ changed, ledger' shard = ledger shard) :
    capacityTrigger rejects update ledger' changed =
      capacityTrigger rejects update ledger changed :=
  mapM_congr fun shard hshard => by rw [h shard (mem_sortDedup_id.mp hshard)]

variable (h : capacityTrigger rejects update ledger changed = .ok counts)
include h

/-- The counts that a trigger writes. -/
theorem capacityTrigger_eq_ok : counts = (sortDedup id changed).map fun shard =>
      (shard, update (ledger shard) (changed.count shard)) := by
  refine (forall₂_eq_eq_eq ▸ forall₂_map_left_iff.mpr
    ((mapM_eq_ok.mp h).imp fun shard entry hentry => ?_) : _ = counts).symm
  split_ifs at hentry
  exact Except.ok.inj hentry

theorem writeLedger_capacityTrigger (hzero : ∀ rowCount, update rowCount 0 = rowCount)
    (shard : CapacityShard) :
    writeLedger ledger counts shard = update (ledger shard) (changed.count shard) := by
  rw [capacityTrigger_eq_ok h, writeLedger]
  by_cases hmem : shard ∈ changed
  · rw [lookup_graph _ (mem_sortDedup_id.mpr hmem), Option.getD_some]
  · rw [count_eq_zero_of_not_mem hmem, hzero, lookup_eq_none_iff.mpr, Option.getD_none]
    intro entry hentry
    obtain ⟨other, hother, rfl⟩ := mem_map.mp hentry
    rw [bne_iff_ne]
    rintro rfl
    exact hmem (mem_sortDedup_id.mp hother)

end Trigger

/-- A shard never gets more rows than the denied insertions leave room for. -/
theorem add_count_le_of_firstCapacityDenial {maximum : Nat} {rowCount pending : CapacityShard → Nat}
    (h : firstCapacityDenial maximum rowCount pending missing = none)
    (hle : rowCount shard + pending shard ≤ maximum) :
    rowCount shard + pending shard + (missing.map Prod.snd).count shard ≤ maximum := by
  induction missing generalizing pending with
  | nil => exact hle
  | cons entry rest ih =>
    simp only [firstCapacityDenial] at h
    split_ifs at h with hfull
    rw [map_cons, count_cons]
    by_cases hshard : entry.2 = shard
    · have hrest := ih h (by rw [← hshard, Function.update_self]; omega)
      rw [← hshard, Function.update_self] at hrest
      rw [← hshard, beq_self_eq_true, if_pos rfl]
      omega
    · have hrest := ih h (by rwa [Function.update_of_ne (Ne.symm hshard)])
      rw [Function.update_of_ne (Ne.symm hshard)] at hrest
      simpa [hshard] using hrest

/-! ### Written rows -/

section Upsert

variable [Sha256]
variable {checks : List (Check FixedWindowPolicy)} {found : Option (Nat × Int)} {now : Int}
variable {batch : List Member} {returned : List (Nat × Check FixedWindowPolicy × Row)}
variable {allowances : List Allowance}

theorem preflightDenial_eq_ok_some {denial : Nat × PendingDenial}
    (h : preflightDenial checks now found = .ok (some denial)) :
    ∃ expiresAt, found = some (denial.1, expiresAt) := by
  cases found with
  | none => cases h
  | some found =>
    simp only [preflightDenial] at h
    split at h
    · cases h
    · obtain ⟨retry, -, h⟩ := bind_eq_ok.mp h
      cases h
      exact ⟨found.2, rfl⟩

theorem preflightDenial_eq_ok_none (h : preflightDenial checks now found = .ok none) :
    found = none := by
  cases found with
  | none => rfl
  | some found =>
    simp only [preflightDenial] at h
    split at h
    · cases h
    · obtain ⟨retry, -, h⟩ := bind_eq_ok.mp h
      cases h

/-- The row of a member after its charge. -/
def chargedRow (now : Int) (member : Member) : Row :=
  charge now (windowMicros member.1) member.1.cost member.2

theorem startedRow_eq_ok {check : Check FixedWindowPolicy} {stored : Option Row} {row : Row}
    (h : startedRow now check = .ok row) (hinactive : active now stored = none) :
    row = chargedRow now (check, stored) := by
  unfold startedRow at h
  split_ifs at h
  rw [chargedRow, charge_of_inactive hinactive]
  exact (Except.ok.inj h).symm

/-- Without a quota denial every row is charged. -/
theorem upsertRows_eq_ok {index : Nat} (hquota : firstQuotaDenial now index batch = none)
    (h : upsertRows now index batch = .ok returned) :
    returned.map Prod.snd = batch.map fun member => (member.1, chargedRow now member) := by
  induction batch generalizing index returned with
  | nil =>
    cases h
    rfl
  | cons member rest ih =>
    obtain ⟨check, _ | stored⟩ := member
    · obtain ⟨row, hrow, h⟩ := bind_eq_ok.mp h
      obtain ⟨rows, hrows, h⟩ := bind_eq_ok.mp h
      cases h
      have hinactive : active now (none : Option Row) = none := rfl
      rw [map_cons, map_cons, ih hquota hrows, startedRow_eq_ok hrow hinactive]
    · simp only [firstQuotaDenial] at hquota
      split_ifs at hquota with hfull
      simp only [upsertRows] at h
      split_ifs at h with hexp hfits
      · obtain ⟨row, hrow, h⟩ := bind_eq_ok.mp h
        obtain ⟨rows, hrows, h⟩ := bind_eq_ok.mp h
        cases h
        have hinactive : active now (some stored) = none := by
          rw [active_some, if_neg (not_lt.mpr hexp)]
        rw [map_cons, map_cons, ih hquota hrows, startedRow_eq_ok hrow hinactive]
      · obtain ⟨rows, hrows, h⟩ := bind_eq_ok.mp h
        cases h
        have hact : active now (some stored) = some stored := by
          rw [active_some, if_pos (not_le.mp hexp)]
        rw [map_cons, map_cons, ih hquota hrows, chargedRow, charge_of_active hact]
      · exact absurd ⟨not_le.mp hexp, not_le.mp hfits⟩ hfull

theorem readAllowances_eq_ok {pos : Nat} (h : readAllowances now pos returned = .ok allowances) :
    List.Forall₂ (fun (entry : Check FixedWindowPolicy × Row) allowance =>
        ∃ remaining, durationUntil entry.2.expiresAt now = .ok remaining ∧
          pendingAllowance entry.1.policy.limit entry.2.used remaining = .ok allowance)
      (returned.map Prod.snd) allowances := by
  induction returned generalizing pos allowances with
  | nil =>
    cases h
    exact .nil
  | cons entry rest ih =>
    obtain ⟨remaining, hrem, h⟩ := bind_eq_ok.mp h
    split_ifs at h
    obtain ⟨allowance, hallow, h⟩ := bind_eq_ok.mp h
    obtain ⟨others, hothers, h⟩ := bind_eq_ok.mp h
    cases h
    exact .cons ⟨remaining, hrem, hallow⟩ (ih hothers)

/-- What an upsert writes and returns when the preflight found no denial. -/
theorem upsertBatch_eq_ok {rows : List (CounterKey × Row)}
    (hquota : firstQuotaDenial now 0 batch = none)
    (h : upsertBatch now batch = .ok (rows, allowances)) :
    rows = batch.map (fun member => (member.1.counterKey, chargedRow now member)) ∧
      List.Forall₂ (fun member allowance =>
          ∃ remaining, durationUntil (chargedRow now member).expiresAt now = .ok remaining ∧
            pendingAllowance member.1.policy.limit (chargedRow now member).used remaining =
              .ok allowance)
        batch allowances := by
  obtain ⟨returned, hreturned, h⟩ := bind_eq_ok.mp h
  have hrows := upsertRows_eq_ok hquota hreturned
  split_ifs at h
  obtain ⟨allowances', hallows, h⟩ := bind_eq_ok.mp h
  split_ifs at h
  cases h
  constructor
  · have hkeyed := congrArg (List.map fun entry : Check FixedWindowPolicy × Row =>
      (entry.1.counterKey, entry.2)) hrows
    rwa [map_map, map_map] at hkeyed
  · have hforall := readAllowances_eq_ok hallows
    rw [hrows] at hforall
    exact forall₂_map_left_iff.mp hforall

end Upsert

end Batter.Runlimit.Postgres
