import Batter.Runlimit.Memory.Topology

/-!
# Runlimit memory store: fixed windows

`MemoryStore::check` and `MemoryStore::check_all` as the source computes them.
The clock is an argument: every call receives the reading it would take under
its locks.  A call returns its result together with the store it leaves; the
functions that contain an `expect` or an index into a vector return
`Except Panic`.

Observers and the measured cleanup time do not influence a decision and are not
modelled.
-/

namespace Batter.Runlimit

open RustStd

namespace MemoryStore

/-- The counter of one key. -/
structure Entry where
  used : Nat
deriving DecidableEq

/-- A check with its route. -/
structure PreparedCheck where
  inputIndex : Nat
  counterKey : CounterKey
  shardPosition : Nat
  limit : Capacity
  windowMillis : Nat
  cost : Nat

def remainingQuota (limit : Capacity) (used : Nat) : Nat :=
  limit.get - used

def durationFromMillis (millis : Nat) : Except Panic Duration :=
  Shard.durationFromMillis
    "a counter's remaining duration cannot exceed its portable policy window" millis

def quotaDenial (shard : Shard Entry) (check : PreparedCheck) (nowMillis : Nat) :
    Except Panic (Option QuotaDenial) :=
  match shard.activeEntry check.counterKey nowMillis with
  | none => .ok none
  | some (entry, expiresAtMillis) =>
    if check.cost > remainingQuota check.limit entry.used then do
      let retryAfter ← durationFromMillis (expiresAtMillis - nowMillis)
      pure (some (.new check.limit retryAfter))
    else
      .ok none

def allowance (limit : Capacity) (available : Nat) (replenishesAfter : Duration) :
    Except Panic Allowance :=
  expectOk "remaining quota is derived from the limit and cannot exceed it"
    (Allowance.new limit available replenishesAfter)

def consume (shard : Shard Entry) (check : PreparedCheck) (nowMillis : Nat) :
    Except Panic (Allowance × Shard Entry) :=
  match shard.activeEntry check.counterKey nowMillis with
  | some (entry, activeExpiresAtMillis) => do
    let remaining := remainingQuota check.limit entry.used
    let updated ← expectSome "the active entry was present"
      (shard.updateValue check.counterKey fun entry =>
        ⟨saturatingAdd u64Max entry.used check.cost⟩)
    let replenishesAfter ← durationFromMillis (activeExpiresAtMillis - nowMillis)
    let granted ← allowance check.limit (remaining - check.cost) replenishesAfter
    pure (granted, updated)
  | none => do
    let expiresAtMillis := nowMillis + check.windowMillis
    let replaced := (shard.replace check.counterKey ⟨check.cost⟩ expiresAtMillis).1
    let replenishesAfter ← durationFromMillis (expiresAtMillis - nowMillis)
    let granted ← allowance check.limit (remainingQuota check.limit check.cost) replenishesAfter
    pure (granted, replaced)

variable [Sha256]

def PreparedCheck.new (inputIndex : Nat) (check : Check FixedWindowPolicy) (shardPosition : Nat) :
    PreparedCheck :=
  { inputIndex
    counterKey := check.counterKey
    shardPosition
    limit := check.policy.limit
    windowMillis := check.policy.window.millis
    cost := check.cost }

/-- The decision of `check_inner` in a locked and pruned shard. -/
def decideLocked (shard : Shard Entry) (check : Check FixedWindowPolicy) (nowMillis : Nat) :
    Except Panic (Decision × Shard Entry) := do
  let prepared := .new 0 check 0
  match ← quotaDenial shard prepared nowMillis with
  | some denial => pure (.quotaDenied check.quotaMode denial, shard)
  | none =>
    if !shard.containsKey check.counterKey && shard.used ≥ shard.capacity then do
      let denial ← shard.storageCapacityDenial nowMillis
      pure (.denied denial, shard)
    else do
      let consumed ← consume shard prepared nowMillis
      pure (.allowed consumed.1, consumed.2)

end MemoryStore

/-- A sharded, hard-bounded, process-local fixed-window store. -/
abbrev MemoryStore (config : MemoryStoreConfig) := BoundedShards config MemoryStore.Entry

namespace MemoryStore

variable {config : MemoryStoreConfig} [Sha256]

def build (config : MemoryStoreConfig) : MemoryStore config :=
  .new config Entry

variable (store : MemoryStore config)

def checkInner (check : Check FixedWindowPolicy) (reading : Duration) : Except Panic
      (Reply PoisonedShardError (Evaluation Decision ShardEffect) (MemoryStore config)) :=
  match store.lockShard (shardIndex config check.counterKey) with
  | .error error => .ok (.error error, store)
  | .ok index => do
    let shard := store.values index
    let nowMillis := max reading.asMillis shard.latestObservedMillis
    let requested := config.maxExpiredRemovalsPerCheck
    let pruned := (shard.recordObservedMillis nowMillis).pruneExpired nowMillis requested
    let decided ← decideLocked pruned.1 check nowMillis
    pure (.ok
      { value := decided.1
        effect := ⟨index, ⟨requested, pruned.2⟩, decided.2.used, decided.2.capacity⟩ },
      store.withValues (Function.update store.values index decided.2))

def check (store : MemoryStore config) (check : Check FixedWindowPolicy) (reading : Duration) :
    Except Panic (Reply PoisonedShardError Decision (MemoryStore config)) := do
  let result ← checkInner store check reading
  pure (result.1.map Evaluation.value, result.2)

/-- The first loop over the prepared checks: the denial that ends the call, if
there is one.  `pendingInsertions` counts the earlier members that will need a
new entry in each locked shard. -/
def firstDenial (checks : List (Check FixedWindowPolicy))
    (values : Fin config.shardCount → Shard Entry) (locked : List (Fin config.shardCount))
    (nowMillis : Nat) :
    List PreparedCheck → List Nat → Except Panic (Option BatchDecision)
  | [], _ => .ok none
  | check :: rest, pendingInsertions => do
    let index ← indexVec locked check.shardPosition
    let shard := values index
    match ← quotaDenial shard check nowMillis with
    | some denial => do
      let input ← indexVec checks check.inputIndex
      let value ← expectOk "a prepared check's input index is below the batch size"
        (BatchDecision.newQuotaDenied input.quotaMode check.inputIndex checks.length denial)
      pure (some value)
    | none => do
      match ← reserveInsertion shard check.counterKey check.shardPosition
          pendingInsertions with
      | some reserved => firstDenial checks values locked nowMillis rest reserved
      | none => do
        let denial ← shard.storageCapacityDenial nowMillis
        let value ← expectOk "a prepared check's input index is below the batch size"
          (BatchDecision.newDenied check.inputIndex checks.length denial)
        pure (some value)

/-- The second loop over the prepared checks. -/
def consumeAll (locked : List (Fin config.shardCount)) (nowMillis : Nat) :
    List PreparedCheck → (Fin config.shardCount → Shard Entry) →
      Except Panic (List Allowance × (Fin config.shardCount → Shard Entry))
  | [], values => .ok ([], values)
  | check :: rest, values => do
    let index ← indexVec locked check.shardPosition
    let consumed ← consume (values index) check nowMillis
    let remaining ← consumeAll locked nowMillis rest (Function.update values index consumed.2)
    pure (consumed.1 :: remaining.1, remaining.2)

variable (checks : List (Check FixedWindowPolicy))

/-- The part of `check_all_inner` that runs under the locks. -/
def checkAllLocked (topology : BatchTopology config) (prepared : List PreparedCheck)
    (locked : List (Fin config.shardCount)) (reading : Duration) :
    Except Panic (Evaluation BatchDecision (List ShardEffect) × MemoryStore config) := do
  let nowMillis := (locked.map fun index => (store.values index).latestObservedMillis).foldl max
    reading.asMillis
  let cleaned := cleanupLocked config nowMillis (locked.zip topology.checkCounts) store.values
  match ← firstDenial checks cleaned.1 locked nowMillis prepared
      (.replicate locked.length 0) with
  | some value =>
    pure (⟨value, collectShardEffects cleaned.1 locked cleaned.2⟩, store.withValues cleaned.1)
  | none => do
    let consumed ← consumeAll locked nowMillis prepared cleaned.1
    let value ← expectOk "batch validation rejected the empty batch"
      (BatchDecision.newAllowed consumed.1)
    pure (⟨value, collectShardEffects consumed.2 locked cleaned.2⟩, store.withValues consumed.2)

def checkAllInner (reading : Duration) :
    Except Panic (Reply MemoryBatchError (Evaluation BatchDecision (List ShardEffect))
      (MemoryStore config)) :=
  withLockedBatch .new id store checks fun topology prepared locked => do
    let evaluated ← checkAllLocked store checks topology prepared locked reading
    pure (.ok evaluated.1, evaluated.2)

def checkAll (reading : Duration) :
    Except Panic (Reply MemoryBatchError BatchDecision (MemoryStore config)) := do
  let result ← checkAllInner store checks reading
  pure (result.1.map Evaluation.value, result.2)

end MemoryStore

end Batter.Runlimit
