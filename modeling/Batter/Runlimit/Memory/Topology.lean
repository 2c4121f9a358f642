import Batter.Library.SortedList
import Batter.Runlimit.Memory.Shards

/-!
# Runlimit memory store: sharding, locks and batch routes

A store is a fixed family of shards, each behind a mutex that can be poisoned.
A key belongs to the shard that its hash names.

`BatchTopology.new` resolves the route of every member of a batch: the touched
shards in increasing order, which is the order in which they are locked, and
for every member the position of its shard in that order.  What a caller may
rely on is `BatchTopology.Resolves`; `BatchTopology.new_spec` proves it.
-/

namespace Batter.Runlimit

open RustStd SortedList List

variable {config : MemoryStoreConfig} {E : Type}

/-- A shard mutex was poisoned by a panic and remains unavailable. -/
structure PoisonedShardError where
  shardIndex : Nat
deriving DecidableEq

/-- A fail-closed failure of an in-memory atomic batch. -/
inductive MemoryBatchError where
  | invalidBatch (error : BatchError)
  | batchExceedsShardCapacity (shardIndex keyCount capacity : Nat)
  | poisonedShard (error : PoisonedShardError)
deriving DecidableEq

/-- Current bounded-store usage. -/
structure MemoryStoreStats where
  entries : Nat
  capacity : Nat
  shardCount : Nat
deriving DecidableEq

/-! ### Key hashing -/

/-- `leading_u64`: the first eight bytes, little-endian. -/
def leadingU64 (bytes : Bytes32) : BitVec 64 :=
  BitVec.ofNat 64 (((List.range 8).map fun i => (bytes.byte i).toNat * 256 ^ i).sum)

def counterKeyHash (key : CounterKey) : BitVec 64 :=
  leadingU64 key.subject ^^^ (leadingU64 key.fingerprint).rotateLeft 32

/-- `shard_index`: the shard of a key. -/
def shardIndex (config : MemoryStoreConfig) (key : CounterKey) : Fin config.shardCount :=
  ⟨(counterKeyHash key).toNat % config.shardCount, Nat.mod_lt _ config.shardCount_pos⟩

/-! ### Mutexes -/

/-- A value behind a mutex. -/
structure Mutex (α : Type) where
  value : α
  poisoned : Bool

/-- The shards of a store. -/
abbrev BoundedShards (config : MemoryStoreConfig) (E : Type) :=
  Fin config.shardCount → Mutex (Shard E)

namespace BoundedShards

def new (config : MemoryStoreConfig) (E : Type) : BoundedShards config E :=
  fun index => ⟨.new (config.shardCapacity index), false⟩

section

variable (shards : BoundedShards config E)

/-- The data of the shards, without their mutexes. -/
def values : Fin config.shardCount → Shard E :=
  fun index => (shards index).value

variable (values : Fin config.shardCount → Shard E)

/-- The same mutexes around other data. -/
def withValues : BoundedShards config E :=
  fun index => { shards index with value := values index }

/-- `lock_shard`.  A guard is the index of the shard it gives access to. -/
def lockShard (index : Fin config.shardCount) : Except PoisonedShardError (Fin config.shardCount) :=
  if (shards index).poisoned then .error ⟨index⟩ else .ok index

/-- `lock_shards`: the guards in the order of the indexes. -/
def lockShards (shards : BoundedShards config E) :
    List (Fin config.shardCount) → Except PoisonedShardError (List (Fin config.shardCount))
  | [] => .ok []
  | index :: rest => do
    let guard ← shards.lockShard index
    let locked ← lockShards shards rest
    pure (guard :: locked)

def stats : Except PoisonedShardError MemoryStoreStats := do
  let locked ← shards.lockShards (.finRange config.shardCount)
  pure ⟨(locked.map fun index => (shards index).value.used).sum,
    config.maxKeys, config.shardCount⟩

def clear : Except PoisonedShardError (BoundedShards config E) := do
  let locked ← shards.lockShards (.finRange config.shardCount)
  pure (locked.foldl
    (fun cleared index =>
      Function.update cleared index { cleared index with value := (cleared index).value.clear })
    shards)

/-- `recover_poisoned`: the recovered store and the number of rebuilt shards. -/
def recoverPoisoned : BoundedShards config E × Nat :=
  (fun index =>
      if (shards index).poisoned then ⟨.new (config.shardCapacity index), false⟩
      else shards index,
    (List.finRange config.shardCount).countP fun index => (shards index).poisoned)

@[simp] theorem values_withValues :
    (shards.withValues values).values = values :=
  rfl

end

variable {shards : BoundedShards config E}

/-- Locking succeeds exactly when no requested shard is poisoned. -/
theorem lockShards_eq_ok_iff {indexes locked : List (Fin config.shardCount)} :
    shards.lockShards indexes = .ok locked ↔
      locked = indexes ∧ ∀ index ∈ indexes, (shards index).poisoned = false := by
  induction indexes generalizing locked with
  | nil =>
    simp only [lockShards, Except.ok.injEq, not_mem_nil, false_imp_iff, implies_true, and_true]
    exact eq_comm
  | cons index rest ih =>
    cases hpoison : (shards index).poisoned with
    | true =>
      simp [lockShards, lockShard, hpoison, bind, Except.bind]
    | false =>
      have hguard : shards.lockShard index = .ok index := by simp [lockShard, hpoison]
      simp only [lockShards, hguard, mem_cons, forall_eq_or_imp, hpoison, true_and]
      change (shards.lockShards rest >>= fun tail => pure (index :: tail)) = _ ↔ _
      constructor
      · intro hok
        obtain ⟨tail, htail, hcons⟩ := bind_eq_ok.mp hok
        obtain ⟨rfl, hrest⟩ := ih.mp htail
        cases hcons
        exact ⟨rfl, hrest⟩
      · rintro ⟨rfl, hrest⟩
        exact bind_eq_ok.mpr ⟨rest, ih.mpr ⟨rfl, hrest⟩, rfl⟩

/-- Locking fails on a poisoned shard among the requested ones. -/
theorem lockShards_eq_error {indexes : List (Fin config.shardCount)} {error : PoisonedShardError}
    (h : shards.lockShards indexes = .error error) :
    ∃ index ∈ indexes, (shards index).poisoned = true := by
  by_contra hnone
  push Not at hnone
  have hok : shards.lockShards indexes = .ok indexes :=
    lockShards_eq_ok_iff.mpr ⟨rfl, fun index hmem => by simpa using hnone index hmem⟩
  rw [h] at hok
  cases hok

end BoundedShards

/-! ### Routes of a batch -/

/-- A shard touched by a batch and the number of members that target it. -/
structure BatchShard (config : MemoryStoreConfig) where
  index : Fin config.shardCount
  checkCount : Nat
deriving DecidableEq

/-- The touched shards in lock order, and the position in that order of the
shard of each member. -/
structure BatchTopology (config : MemoryStoreConfig) where
  shards : List (BatchShard config)
  inputPositions : List Nat
deriving DecidableEq

namespace BatchTopology

/-- The loop of `BatchTopology::new` that replaces every shard index by its
position and counts the members of each shard. -/
def resolvePositions : List (Fin config.shardCount) → List (BatchShard config) →
      Except Panic (List (BatchShard config) × List Nat)
  | [], shards => .ok (shards, [])
  | shardIndex :: rest, shards => do
    let position := partitionPoint BatchShard.index shards shardIndex
    let shard ← indexVec shards position
    let resolved ← resolvePositions rest
      (shards.set position { shard with checkCount := shard.checkCount + 1 })
    pure (resolved.1, position :: resolved.2)

variable (topology : BatchTopology config)

/-- The last loop of `BatchTopology::new`: the first shard with more members than
it can ever store rejects the batch. -/
def withinCapacities : Except MemoryBatchError (BatchTopology config) :=
  match topology.shards.find? fun shard =>
      shard.checkCount > config.shardCapacity shard.index with
  | some shard =>
    .error (.batchExceedsShardCapacity shard.index shard.checkCount
      (config.shardCapacity shard.index))
  | none => .ok topology

def new (config : MemoryStoreConfig) (shardIndexes : List (Fin config.shardCount)) :
    Except Panic (Except MemoryBatchError (BatchTopology config)) := do
  let shards := sortDedup BatchShard.index (shardIndexes.map fun index => ⟨index, 0⟩)
  let resolved ← resolvePositions shardIndexes shards
  pure (withinCapacities ⟨resolved.1, resolved.2⟩)

def shardPosition (inputIndex : Nat) : Except Panic Nat :=
  indexVec topology.inputPositions inputIndex

/-- The shards in lock order. -/
def indexes : List (Fin config.shardCount) :=
  topology.shards.map BatchShard.index

def checkCounts : List Nat :=
  topology.shards.map BatchShard.checkCount

/-- What a resolved topology says about the shards of the members. -/
structure Resolves (shardIndexes : List (Fin config.shardCount))
    (topology : BatchTopology config) : Prop where
  sorted : topology.shards.Pairwise fun a b => a.index < b.index
  mem_indexes : ∀ index, index ∈ topology.indexes ↔ index ∈ shardIndexes
  checkCount_eq : ∀ shard ∈ topology.shards, shard.checkCount = shardIndexes.count shard.index
  positions_eq :
    topology.inputPositions.map (fun position => topology.indexes[position]?) =
      shardIndexes.map some

variable {shardIndexes : List (Fin config.shardCount)}

/-- No shard is locked twice. -/
theorem Resolves.nodup {topo : BatchTopology config} (h : topo.Resolves shardIndexes) :
    topo.indexes.Nodup :=
  (pairwise_map.mpr h.sorted).imp ne_of_lt

/-- Counting the members leaves the order of the shards alone. -/
theorem resolvePositions_eq {shards : List (BatchShard config)}
    (hsorted : shards.Pairwise fun a b => a.index < b.index)
    (hmem : ∀ index ∈ shardIndexes, index ∈ shards.map BatchShard.index) :
    ∃ positions,
      resolvePositions shardIndexes shards =
        .ok (shards.map fun shard =>
          { shard with checkCount := shard.checkCount + shardIndexes.count shard.index },
          positions) ∧
      positions.map (fun pos => (shards.map BatchShard.index)[pos]?) =
        shardIndexes.map some := by
  induction shardIndexes generalizing shards with
  | nil =>
    exact ⟨[], by simp [resolvePositions], rfl⟩
  | cons shardIndex rest ih =>
    have hpoint := getElem?_partitionPoint hsorted (hmem shardIndex (by simp))
    obtain ⟨shard, hshard, rfl⟩ := Option.map_eq_some_iff.mp hpoint
    have hset := set_eq_map hsorted hshard
      fun shard => { shard with checkCount := shard.checkCount + 1 }
    set next := shards.map fun other =>
      if other.index = shard.index then { other with checkCount := other.checkCount + 1 }
      else other with hnext
    have hindexes : next.map BatchShard.index = shards.map BatchShard.index := by
      rw [hnext, map_map]
      refine map_congr_left fun other _ => ?_
      simp only [Function.comp_apply]
      split_ifs <;> rfl
    have hsortedNext : next.Pairwise fun a b => a.index < b.index := by
      rw [← pairwise_map (f := BatchShard.index) (R := (· < ·)), hindexes]
      exact pairwise_map.mpr hsorted
    obtain ⟨positions, hrest, hpositions⟩ := ih hsortedNext fun index hin =>
      hindexes ▸ hmem index (mem_cons_of_mem _ hin)
    refine ⟨partitionPoint BatchShard.index shards shard.index :: positions, ?_, ?_⟩
    · rw [resolvePositions, bind_eq_ok]
      refine ⟨shard, indexVec_eq_ok hshard, ?_⟩
      rw [hset, hrest]
      simp only [bind, Except.bind, pure, Except.pure, hnext, map_map, Except.ok.injEq,
        Prod.mk.injEq, and_true]
      refine map_congr_left fun other _ => ?_
      by_cases hother : other.index = shard.index
      · simp [hother, Nat.add_comm, Nat.add_left_comm]
      · simp [hother, Ne.symm hother]
    · rw [hindexes] at hpositions
      rw [map_cons, hpositions, getElem?_map, hshard]
      rfl

/-- The topology of a batch resolves its routes; it is rejected exactly when a
shard can never hold the members that target it. -/
theorem new_spec (shardIndexes : List (Fin config.shardCount)) : (∃ topo : BatchTopology config,
        new config shardIndexes = .ok (.ok topo) ∧ topo.Resolves shardIndexes ∧
        ∀ index, shardIndexes.count index ≤ config.shardCapacity index) ∨
      ∃ index : Fin config.shardCount,
        config.shardCapacity index < shardIndexes.count index ∧
        new config shardIndexes =
          .ok (.error (.batchExceedsShardCapacity index (shardIndexes.count index)
            (config.shardCapacity index))) := by
  set shards := sortDedup BatchShard.index (shardIndexes.map fun index => ⟨index, 0⟩)
    with hshards
  have hsorted : shards.Pairwise fun a b => a.index < b.index := pairwise_sortDedup _ _
  have hmem : ∀ index, index ∈ shards.map BatchShard.index ↔ index ∈ shardIndexes := by
    intro index
    rw [hshards, mem_map_sortDedup, map_map]
    simp [Function.comp_def]
  have hzero : ∀ shard ∈ shards, shard.checkCount = 0 := by
    intro shard hshard
    have hsub := (destutter_sublist _ _).subset hshard
    rw [mem_insertionSort, mem_map] at hsub
    obtain ⟨_, -, rfl⟩ := hsub
    rfl
  obtain ⟨positions, hresolved, hpositions⟩ :=
    resolvePositions_eq hsorted fun index h => (hmem index).mpr h
  set counted := shards.map fun shard =>
    { shard with checkCount := shard.checkCount + shardIndexes.count shard.index } with hcounted
  have hindexes : counted.map BatchShard.index = shards.map BatchShard.index := by
    rw [hcounted, map_map]
    rfl
  have hcount : ∀ shard ∈ counted, shard.checkCount = shardIndexes.count shard.index := by
    intro shard hshard
    obtain ⟨old, hold, rfl⟩ := mem_map.mp hshard
    simp [hzero old hold]
  have hnew : new config shardIndexes = .ok (withinCapacities ⟨counted, positions⟩) :=
    bind_eq_ok.mpr ⟨_, hresolved, rfl⟩
  rw [hnew, withinCapacities]
  cases hfind : counted.find? fun shard => shard.checkCount > config.shardCapacity shard.index with
  | some shard =>
    right
    have hshard := mem_of_find?_eq_some hfind
    have hover := find?_some hfind
    rw [decide_eq_true_eq, hcount shard hshard] at hover
    refine ⟨shard.index, hover, ?_⟩
    simp [hcount shard hshard]
  | none =>
    left
    refine ⟨⟨counted, positions⟩, ?_, ?_, ?_⟩
    · rfl
    · refine ⟨pairwise_map.mp (hindexes ▸ pairwise_map.mpr hsorted), ?_, hcount, ?_⟩
      · intro index
        rw [← hmem, ← hindexes]
        rfl
      · simp only [indexes, hindexes, hpositions]
    · intro index
      by_cases hin : index ∈ shardIndexes
      · rw [← hmem, ← hindexes] at hin
        obtain ⟨shard, hshard, rfl⟩ := mem_map.mp hin
        have hle := find?_eq_none.mp hfind shard hshard
        rw [decide_eq_true_eq, hcount shard hshard] at hle
        omega
      · rw [count_eq_zero_of_not_mem hin]
        exact Nat.zero_le _

end BatchTopology

/-- The preparation loop of `check_all_inner`: every check with its input index
and the position of its shard. -/
def prepareAll {P Q : Type} [RateLimitPolicy P] {config : MemoryStoreConfig}
    (prepare : Nat → Check P → Nat → Q)
    (topology : BatchTopology config) : Nat → List (Check P) → Except Panic (List Q)
  | _, [] => .ok []
  | inputIndex, check :: rest => do
    let position ← topology.shardPosition inputIndex
    let prepared ← prepareAll prepare topology (inputIndex + 1) rest
    pure (prepare inputIndex check position :: prepared)

/-- The result of a call and the state it leaves. -/
abbrev Reply (ε α S : Type) := Except ε α × S

/-- The head of `check_all_inner`, the same in both stores: the batch is
validated, its routes are resolved, its checks are prepared and its shards are
locked, in this order; `body` runs under the locks. -/
def withLockedBatch {P Q E ε α : Type} [RateLimitPolicy P] {config : MemoryStoreConfig}
    (prepare : Nat → Check P → Nat → Q) (fromStoreError : MemoryBatchError → ε)
    (store : BoundedShards config E) (checks : List (Check P))
    (body : BatchTopology config → List Q → List (Fin config.shardCount) →
      Except Panic (Reply ε α (BoundedShards config E))) :
    Except Panic (Reply ε α (BoundedShards config E)) :=
  match validateBatch checks config.maxBatchSize with
  | .error error => .ok (.error (fromStoreError (.invalidBatch error)), store)
  | .ok () => do
    match ← BatchTopology.new config
        (checks.map fun check => shardIndex config check.counterKey) with
    | .error error => pure (.error (fromStoreError error), store)
    | .ok topology => do
      let prepared ← prepareAll prepare topology 0 checks
      match store.lockShards topology.indexes with
      | .error error => pure (.error (fromStoreError (.poisonedShard error)), store)
      | .ok locked => body topology prepared locked

/-- The room test in the loops of `check_all_inner`: the counts of pending
insertions with one more for a key that is not stored, or nothing when its shard
is full. -/
def reserveInsertion {E : Type} (shard : Shard E) (key : CounterKey) (shardPosition : Nat)
    (pendingInsertions : List Nat) : Except Panic (Option (List Nat)) :=
  if shard.containsKey key then
    .ok (some pendingInsertions)
  else do
    let pending ← indexVec pendingInsertions shardPosition
    if shard.used + pending ≥ shard.capacity then
      pure none
    else
      pure (some (pendingInsertions.set shardPosition (pending + 1)))

/-! ### Cleanup under the locks -/

/-- Expired entries that a call was allowed to remove and did remove. -/
structure CleanupEffect where
  requested : Nat
  removed : Nat
deriving DecidableEq

/-- What a call left in one touched shard. -/
structure ShardEffect where
  shardIndex : Nat
  cleanup : CleanupEffect
  used : Nat
  capacity : Nat
deriving DecidableEq

/-- A value together with the effects reported to an observer. -/
structure Evaluation (T F : Type) where
  value : T
  effect : F

def collectShardEffects (values : Fin config.shardCount → Shard E)
    (locked : List (Fin config.shardCount)) (cleanupEffects : List CleanupEffect) :
    List ShardEffect :=
  (locked.zip cleanupEffects).map fun (index, cleanup) =>
    ⟨index, cleanup, (values index).used, (values index).capacity⟩

/-- The cleanup loop of `check_all_inner`: every locked shard records the time
and removes expired entries, as many as its members are allowed. -/
def cleanupLocked (config : MemoryStoreConfig) (nowMillis : Nat) :
    List (Fin config.shardCount × Nat) → (Fin config.shardCount → Shard E) →
      (Fin config.shardCount → Shard E) × List CleanupEffect
  | [], values => (values, [])
  | (index, checkCount) :: rest, values =>
    let requested := saturatingMul usizeMax config.maxExpiredRemovalsPerCheck checkCount
    let pruned := ((values index).recordObservedMillis nowMillis).pruneExpired nowMillis requested
    let cleaned := cleanupLocked config nowMillis rest (Function.update values index pruned.1)
    (cleaned.1, ⟨requested, pruned.2⟩ :: cleaned.2)

end Batter.Runlimit
