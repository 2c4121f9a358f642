import Batter.Runlimit.Core.Gcra
import Batter.Runlimit.Memory.Store

/-!
# Runlimit memory store: generic cell rate algorithm

`GcraStore::check` and `GcraStore::check_all` as the source computes them.
Compared with the fixed-window store every member is evaluated before anything
is changed, because the evaluation can overflow; only then do the touched
shards record the time, prune, and look for room.
-/

namespace Batter.Runlimit

open RustStd

/-- Failure of a single GCRA memory-store check. -/
inductive GcraCheckError where
  | poisonedShard (error : PoisonedShardError)
  | arithmeticOverflow
deriving DecidableEq

/-- Failure of a GCRA memory-store atomic batch. -/
inductive GcraBatchError where
  | store (error : MemoryBatchError)
  | arithmeticOverflow
deriving DecidableEq

namespace GcraStore

/-- The stored theoretical arrival time of one key. -/
structure Entry where
  tatScaled : Nat
deriving DecidableEq

variable [Sha256]

/-- A check with its route. -/
structure PreparedCheck where
  inputIndex : Nat
  counterKey : CounterKey
  shardPosition : Nat
  check : Check GcraPolicy
  quotaMode : QuotaMode

def PreparedCheck.new (inputIndex : Nat) (check : Check GcraPolicy) (shardPosition : Nat) :
    PreparedCheck :=
  { inputIndex
    counterKey := check.counterKey
    shardPosition
    check
    quotaMode := check.policy.quotaMode }

def evaluate (shard : Shard Entry) (check : PreparedCheck) (nowMillis : Nat) :
    Except Gcra.ArithmeticOverflow Gcra.Evaluation :=
  let activeTat := (shard.activeEntry check.counterKey nowMillis).map
    fun active => active.1.tatScaled
  Gcra.evaluate check.check nowMillis activeTat

def consume (shard : Shard Entry) (check : PreparedCheck) (pending : Gcra.PendingAllowance) :
    Allowance × Shard Entry :=
  (pending.allowance,
    (shard.replace check.counterKey ⟨pending.tatScaled⟩ pending.expiresAtMillis).1)

/-- The decision of `check_inner` in a locked and pruned shard. -/
def decideLocked (shard : Shard Entry) (prepared : PreparedCheck) (nowMillis : Nat) :
    Gcra.Evaluation → Except Panic (Decision × Shard Entry)
  | .allowed pending =>
    if !shard.containsKey prepared.counterKey && shard.used ≥ shard.capacity then do
      let denial ← shard.storageCapacityDenial nowMillis
      pure (.denied denial, shard)
    else
      let consumed := consume shard prepared pending
      pure (.allowed consumed.1, consumed.2)
  | .denied denial => pure (.quotaDenied prepared.quotaMode denial, shard)

end GcraStore

/-- A hard-bounded, process-local generic-cell-rate-algorithm store. -/
abbrev GcraStore (config : MemoryStoreConfig) := BoundedShards config GcraStore.Entry

namespace GcraStore

variable {config : MemoryStoreConfig} [Sha256]

def build (config : MemoryStoreConfig) : GcraStore config :=
  .new config Entry

variable (store : GcraStore config)

def checkInner (check : Check GcraPolicy) (reading : Duration) :
    Except Panic (Reply GcraCheckError (Evaluation Decision ShardEffect) (GcraStore config)) :=
  match store.lockShard (shardIndex config check.counterKey) with
  | .error error => .ok (.error (.poisonedShard error), store)
  | .ok index =>
    let prepared := .new 0 check 0
    let shard := store.values index
    let nowMillis := max reading.asMillis shard.latestObservedMillis
    match evaluate shard prepared nowMillis with
    | .error _ => .ok (.error .arithmeticOverflow, store)
    | .ok evaluated => do
      let requested := config.maxExpiredRemovalsPerCheck
      let pruned := (shard.recordObservedMillis nowMillis).pruneExpired nowMillis requested
      let decided ← decideLocked pruned.1 prepared nowMillis evaluated
      pure (.ok
        { value := decided.1
          effect := ⟨index, ⟨requested, pruned.2⟩, decided.2.used, decided.2.capacity⟩ },
        store.withValues (Function.update store.values index decided.2))

def check (store : GcraStore config) (check : Check GcraPolicy) (reading : Duration) :
    Except Panic (Reply GcraCheckError Decision (GcraStore config)) := do
  let result ← checkInner store check reading
  pure (result.1.map Evaluation.value, result.2)

/-- The evaluation loop of `check_all_inner`, which stops at an overflow. -/
def evaluateAll (values : Fin config.shardCount → Shard Entry)
    (locked : List (Fin config.shardCount)) (nowMillis : Nat) :
    List PreparedCheck → Except Panic (Except Gcra.ArithmeticOverflow (List Gcra.Evaluation))
  | [] => .ok (.ok [])
  | check :: rest => do
    let index ← indexVec locked check.shardPosition
    match evaluate (values index) check nowMillis with
    | .error overflow => pure (.error overflow)
    | .ok evaluated => do
      let evaluations ← evaluateAll values locked nowMillis rest
      pure (evaluations.map (evaluated :: ·))

/-- The loop over the evaluated checks: the denial that ends the call, or the
pending allowances of all members. -/
def firstDenial (batchSize : Nat) (values : Fin config.shardCount → Shard Entry)
    (locked : List (Fin config.shardCount)) (nowMillis : Nat) :
    List (PreparedCheck × Gcra.Evaluation) → List Nat →
      Except Panic (Except BatchDecision (List Gcra.PendingAllowance))
  | [], _ => .ok (.ok [])
  | (check, evaluation) :: rest, pendingInsertions => do
    let index ← indexVec locked check.shardPosition
    let shard := values index
    match evaluation with
    | .denied denial => do
      let value ← expectOk "a prepared check's input index is below the batch size"
        (BatchDecision.newQuotaDenied check.quotaMode check.inputIndex batchSize denial)
      pure (.error value)
    | .allowed allowance => do
      match ← reserveInsertion shard check.counterKey check.shardPosition
          pendingInsertions with
      | some reserved => do
        let allowances ← firstDenial batchSize values locked nowMillis rest reserved
        pure (allowances.map (allowance :: ·))
      | none => do
        let denial ← shard.storageCapacityDenial nowMillis
        let value ← expectOk "a prepared check's input index is below the batch size"
          (BatchDecision.newDenied check.inputIndex batchSize denial)
        pure (.error value)

/-- The last loop of `check_all_inner`. -/
def consumeAll (locked : List (Fin config.shardCount)) :
    List (PreparedCheck × Gcra.PendingAllowance) → (Fin config.shardCount → Shard Entry) →
      Except Panic (List Allowance × (Fin config.shardCount → Shard Entry))
  | [], values => .ok ([], values)
  | (check, pending) :: rest, values => do
    let index ← indexVec locked check.shardPosition
    let consumed := consume (values index) check pending
    let remaining ← consumeAll locked rest (Function.update values index consumed.2)
    pure (consumed.1 :: remaining.1, remaining.2)

/-- The part of `check_all_inner` that runs under the locks. -/
def checkAllLocked (batchSize : Nat)
    (topology : BatchTopology config) (prepared : List PreparedCheck)
    (locked : List (Fin config.shardCount)) (reading : Duration) :
    Except Panic (Reply GcraBatchError (Evaluation BatchDecision (List ShardEffect))
      (GcraStore config)) := do
  let nowMillis := (locked.map fun index => (store.values index).latestObservedMillis).foldl max
    reading.asMillis
  match ← evaluateAll store.values locked nowMillis prepared with
  | .error _ => pure (.error .arithmeticOverflow, store)
  | .ok evaluations => do
    let cleaned := cleanupLocked config nowMillis (locked.zip topology.checkCounts) store.values
    match ← firstDenial batchSize cleaned.1 locked nowMillis (prepared.zip evaluations)
        (.replicate locked.length 0) with
    | .error value =>
      pure (.ok ⟨value, collectShardEffects cleaned.1 locked cleaned.2⟩,
        store.withValues cleaned.1)
    | .ok allowances => do
      let consumed ← consumeAll locked (prepared.zip allowances) cleaned.1
      let value ← expectOk "batch validation rejected the empty batch"
        (BatchDecision.newAllowed consumed.1)
      pure (.ok ⟨value, collectShardEffects consumed.2 locked cleaned.2⟩,
        store.withValues consumed.2)

def checkAllInner (checks : List (Check GcraPolicy)) (reading : Duration) :
    Except Panic (Reply GcraBatchError (Evaluation BatchDecision (List ShardEffect))
      (GcraStore config)) :=
  withLockedBatch .new .store store checks fun topology prepared locked =>
    checkAllLocked store checks.length topology prepared locked reading

def checkAll (checks : List (Check GcraPolicy)) (reading : Duration) :
    Except Panic (Reply GcraBatchError BatchDecision (GcraStore config)) := do
  let result ← checkAllInner store checks reading
  pure (result.1.map Evaluation.value, result.2)

end GcraStore

end Batter.Runlimit
