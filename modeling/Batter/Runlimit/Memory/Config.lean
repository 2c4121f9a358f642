import Batter.Library.RustStd

/-!
# Runlimit memory store: configuration

The global key capacity of a store is divided into fixed per-shard capacities.
`MemoryStoreConfig.sum_shardCapacity` says that nothing is lost or added by
the division.
-/

namespace Batter.Runlimit

open RustStd Finset

/-- Configuration of a hard-bounded memory store, as its setters admit it. -/
structure MemoryStoreConfig where
  maxKeys : Nat
  shardCount : Nat
  maxExpiredRemovalsPerCheck : Nat
  maxBatchSize : Nat
  shardCount_pos : 0 < shardCount
  shardCount_le : shardCount ≤ maxKeys
  removals_pos : 0 < maxExpiredRemovalsPerCheck
  batchSize_pos : 0 < maxBatchSize
  maxKeys_le : maxKeys ≤ usizeMax
  batchSize_le : maxBatchSize ≤ usizeMax

namespace MemoryStoreConfig

variable (config : MemoryStoreConfig)

def shardCapacity (shardIndex : Nat) : Nat :=
  config.maxKeys / config.shardCount +
    if shardIndex < config.maxKeys % config.shardCount then 1 else 0

/-- The shard capacities add up to the global capacity. -/
theorem sum_shardCapacity :
    ∑ i : Fin config.shardCount, config.shardCapacity i = config.maxKeys := by
  have hmod : config.maxKeys % config.shardCount < config.shardCount :=
    Nat.mod_lt _ config.shardCount_pos
  have hextra : ((Finset.range config.shardCount).filter
      (fun i => i < config.maxKeys % config.shardCount)) =
        Finset.range (config.maxKeys % config.shardCount) := by
    ext i
    simp only [mem_filter, mem_range]
    omega
  unfold shardCapacity
  rw [Fin.sum_univ_eq_sum_range (fun i => config.maxKeys / config.shardCount +
    if i < config.maxKeys % config.shardCount then 1 else 0)]
  rw [sum_add_distrib, sum_boole, hextra]
  simp only [sum_const, card_range, smul_eq_mul, Nat.cast_id]
  exact Nat.div_add_mod _ _

end MemoryStoreConfig

/-- A store with one shard of one key. -/
def singleKeyConfig : MemoryStoreConfig :=
  ⟨1, 1, 1, 8, Nat.one_pos, by decide, Nat.one_pos, by decide, by decide, by decide⟩

end Batter.Runlimit
