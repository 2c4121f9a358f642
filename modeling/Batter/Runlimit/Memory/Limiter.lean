import Batter.Library.Runs
import Batter.Runlimit.Memory.GcraSteps
import Batter.Runlimit.Memory.StoreSteps

/-!
# Runlimit memory store: runs of a store

A `MemoryLimiter` is a memory store together with the fact that its calls take
the steps of its meter; the fixed-window store and the GCRA store are the two
instances.  `Operation` lists everything that can happen to a store, including a
panic of application code that poisons the shards whose locks it holds.

`MemoryLimiter.execute_invariant` shows that no sequence of operations panics
and that every reachable store satisfies the representation invariant.
-/

namespace Batter.Runlimit

open RustStd Runs

/-- A memory store whose calls take the steps of a meter. -/
structure MemoryLimiter (config : MemoryStoreConfig) (P : Type) [RateLimitPolicy P] (E : Type) where
  CheckError : Type
  BatchError : Type
  meter : Meter P E
  check : BoundedShards config E → Check P → Duration →
    Except Panic (Reply CheckError Decision (BoundedShards config E))
  checkAll : BoundedShards config E → List (Check P) → Duration →
    Except Panic (Reply BatchError BatchDecision (BoundedShards config E))
  check_call : ∀ {store}, Invariant store.values → ∀ target reading,
    ∃ result store', check store target reading = .ok (result, store') ∧
      CheckCall meter store target reading result.toOption store'
  checkAll_call : ∀ {store}, Invariant store.values → ∀ checks reading,
    ∃ result store', checkAll store checks reading = .ok (result, store') ∧
      BatchCall meter store checks reading result.toOption store'

/-- The fixed-window store. -/
def MemoryStore.limiter [Sha256] (config : MemoryStoreConfig) :
    MemoryLimiter config FixedWindowPolicy MemoryStore.Entry where
  CheckError := PoisonedShardError
  BatchError := MemoryBatchError
  meter := MemoryStore.windowMeter
  check := MemoryStore.check
  checkAll := MemoryStore.checkAll
  check_call := MemoryStore.check_call
  checkAll_call := MemoryStore.checkAll_call

def GcraStore.limiter [Sha256] (config : MemoryStoreConfig) :
    MemoryLimiter config GcraPolicy GcraStore.Entry where
  CheckError := GcraCheckError
  BatchError := GcraBatchError
  meter := GcraStore.gcraMeter
  check := GcraStore.check
  checkAll := GcraStore.checkAll
  check_call := GcraStore.check_call
  checkAll_call := GcraStore.checkAll_call

/-- What can happen to a store. -/
inductive Operation (config : MemoryStoreConfig) (P : Type) [RateLimitPolicy P] where
  | check (target : Check P) (reading : Duration)
  | checkAll (checks : List (Check P)) (reading : Duration)
  | clear
  | stats
  | recoverPoisoned
  /-- Application code panics while it holds the locks of these shards. -/
  | panicked (locked : List (Fin config.shardCount))

/-- The answer to an operation. -/
inductive Answer (CheckError BatchError : Type) where
  | decision (result : Except CheckError Decision)
  | batchDecision (result : Except BatchError BatchDecision)
  | cleared (result : Except PoisonedShardError Unit)
  | stats (result : Except PoisonedShardError MemoryStoreStats)
  | recovered (count : Nat)
  | unwound

/-- The mutexes of the locked shards are poisoned, their data is as it was. -/
def BoundedShards.poison {config : MemoryStoreConfig} {E : Type} (store : BoundedShards config E)
    (locked : List (Fin config.shardCount)) : BoundedShards config E :=
  fun index => { store index with poisoned := (store index).poisoned || decide (index ∈ locked) }

variable {config : MemoryStoreConfig} {P E : Type} [RateLimitPolicy P]
variable {limiter : MemoryLimiter config P E} {store store' : BoundedShards config E}

/-- One operation on a store. -/
def MemoryLimiter.step (limiter : MemoryLimiter config P E) (store : BoundedShards config E) :
    Operation config P → Except Panic
      (Answer limiter.CheckError limiter.BatchError × BoundedShards config E)
  | .check target reading => do
    let reply ← limiter.check store target reading
    pure (.decision reply.1, reply.2)
  | .checkAll checks reading => do
    let reply ← limiter.checkAll store checks reading
    pure (.batchDecision reply.1, reply.2)
  | .clear =>
    match store.clear with
    | .error error => pure (.cleared (.error error), store)
    | .ok cleared => pure (.cleared (.ok ()), cleared)
  | .stats => pure (.stats store.stats, store)
  | .recoverPoisoned => pure (.recovered store.recoverPoisoned.2, store.recoverPoisoned.1)
  | .panicked locked => pure (.unwound, store.poison locked)

/-! ### The invariant along operations -/

variable {meter : Meter P E} {reading : Duration}

theorem CheckCall.invariant {target : Check P} {result : Option Decision}
    (h : CheckCall meter store target reading result store') (hinv : Invariant store.values) :
    Invariant store'.values := by
  cases h with
  | poisoned _ => exact hinv
  | overflow _ _ => exact hinv
  | settled decision values' _ hstep =>
    exact hstep.invariant hinv (hinv.clampedNow_le reading)
      (latest_le_clampedNow List.mem_cons_self)

theorem BatchCall.invariant {checks : List (Check P)} {result : Option BatchDecision}
    (h : BatchCall meter store checks reading result store') (hinv : Invariant store.values) :
    Invariant store'.values := by
  cases h with
  | rejected _ => exact hinv
  | overflow _ _ => exact hinv
  | settled decision values' _ _ hstep =>
    exact hstep.invariant hinv (hinv.clampedNow_le reading) fun _ => latest_le_clampedNow

/-- Clearing empties every shard and leaves its time. -/
theorem BoundedShards.clear_eq_ok (h : store.clear = .ok store') (index : Fin config.shardCount) :
    store' index = { store index with value := (store index).value.clear } := by
  obtain ⟨locked, hlocked, heq⟩ := bind_eq_ok.mp h
  obtain ⟨rfl, -⟩ := BoundedShards.lockShards_eq_ok_iff.mp hlocked
  have hfold : ∀ (l : List (Fin config.shardCount)) (acc : BoundedShards config E),
      l.foldl (fun cleared i =>
        Function.update cleared i { cleared i with value := (cleared i).value.clear }) acc index =
      if index ∈ l then { acc index with value := (acc index).value.clear } else acc index := by
    intro l
    induction l with
    | nil => intro acc; simp
    | cons i rest ih =>
      intro acc
      rw [List.foldl_cons, ih]
      rcases eq_or_ne index i with rfl | hne
      · simp [Shard.clear]
      · simp [hne]
  have heq' := congrFun (Except.ok.inj heq) index
  rw [hfold, if_pos (List.mem_finRange index)] at heq'
  exact heq'.symm

theorem BoundedShards.invariant_clear (hinv : Invariant store.values)
    (h : store.clear = .ok store') : Invariant store'.values := by
  have hval : ∀ index, store'.values index = (store.values index).clear := fun index =>
    congrArg Mutex.value (BoundedShards.clear_eq_ok h index)
  refine invariant_of_empty ?_ ?_ ?_ ?_ <;> intro index <;> rw [hval index]
  · rfl
  · rfl
  · exact hinv.capacity_eq index
  · exact hinv.latest_le index

theorem BoundedShards.invariant_recoverPoisoned (hinv : Invariant store.values) :
    Invariant store.recoverPoisoned.1.values := by
  refine .mix invariant_new hinv fun index => ?_
  unfold BoundedShards.recoverPoisoned BoundedShards.values
  dsimp only
  split_ifs
  · exact Or.inl rfl
  · exact Or.inr rfl

/-- No operation panics, and each keeps the invariant. -/
theorem MemoryLimiter.step_invariant (limiter : MemoryLimiter config P E)
    (store : BoundedShards config E) (op : Operation config P) (hinv : Invariant store.values) :
    ∃ answer store', limiter.step store op = .ok (answer, store') ∧ Invariant store'.values := by
  cases op with
  | check target reading =>
    obtain ⟨result, store', hcall, hspec⟩ := limiter.check_call hinv target reading
    exact ⟨_, store', bind_eq_ok.mpr ⟨_, hcall, rfl⟩, hspec.invariant hinv⟩
  | checkAll checks reading =>
    obtain ⟨result, store', hcall, hspec⟩ := limiter.checkAll_call hinv checks reading
    exact ⟨_, store', bind_eq_ok.mpr ⟨_, hcall, rfl⟩, hspec.invariant hinv⟩
  | clear =>
    cases hclear : store.clear with
    | error error => exact ⟨_, store, by simp only [step, hclear]; rfl, hinv⟩
    | ok cleared =>
      exact ⟨_, cleared, by simp only [step, hclear]; rfl,
        BoundedShards.invariant_clear hinv hclear⟩
  | stats => exact ⟨_, store, rfl, hinv⟩
  | recoverPoisoned => exact ⟨_, _, rfl, BoundedShards.invariant_recoverPoisoned hinv⟩
  | panicked locked => exact ⟨_, _, rfl, hinv⟩

/-- A store reached from the empty one by some operations. -/
def MemoryLimiter.Reachable (limiter : MemoryLimiter config P E)
    (store : BoundedShards config E) : Prop :=
  ∃ operations answers,
    execute limiter.step (.new config E) operations = .ok (answers, store)

theorem MemoryLimiter.Reachable.invariant (h : limiter.Reachable store) :
    Invariant store.values := by
  obtain ⟨operations, answers, hexecute⟩ := h
  obtain ⟨answers', store', hexecute', hinv⟩ :=
    Runs.execute_invariant (fun store : BoundedShards config E => Invariant store.values)
      limiter.step_invariant operations invariant_new
  rw [hexecute] at hexecute'
  cases hexecute'
  exact hinv

end Batter.Runlimit
