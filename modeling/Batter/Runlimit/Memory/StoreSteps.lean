import Batter.Runlimit.Memory.Settle
import Batter.Runlimit.Memory.Store

/-!
# Runlimit memory store: the fixed-window store takes steps

`MemoryStore.check_call` and `MemoryStore.checkAll_call` connect the model of
the source with the steps of `Batter.Runlimit.Memory.Meter`: on shards that
satisfy the invariant a call never panics, and what it returns and leaves is
described by `CheckCall` and `BatchCall` for the window meter.
-/

namespace Batter.Runlimit.MemoryStore

open RustStd

variable {millis now : Nat}

/-- Whole milliseconds as a `Duration`, at most the largest `u64` of them. -/
def clippedMillis (millis : Nat) : Duration :=
  .fromMillis (min millis u64Max) (min_le_right _ _)

theorem clippedMillis_eq (h : millis ≤ u64Max) :
    clippedMillis millis = .fromMillis millis h := by
  simp [clippedMillis, min_eq_left h]

theorem durationFromMillis_eq_ok (h : millis ≤ u64Max) :
    durationFromMillis millis = .ok (clippedMillis millis) := by
  simp [durationFromMillis, Shard.durationFromMillis, h, clippedMillis_eq h]

theorem remaining_le_u64Max {expiresAt : Nat} (h : expiresAt ≤ now + maxWindowMillis) :
    expiresAt - now ≤ u64Max := by
  have hmax := maxWindowMillis_le_u64Max
  omega

theorem allowance_eq_ok {limit : Capacity} {available : Nat} {replenishesAfter : Duration}
    (h : available ≤ limit.get) :
    allowance limit available replenishesAfter = .ok ⟨limit, available, ⟨replenishesAfter⟩, h⟩ := by
  simp [allowance, Allowance.new_eq_ok h]

section Meter

variable [Sha256]

/-- The judgement of an anchored window: a key without an active window starts
one, a key with an active window may use what is left of its limit. -/
def windowJudge (check : Check FixedWindowPolicy) (nowMillis : Nat) :
    Option (Entry × Nat) → Verdict Entry
  | none =>
    .allow
      { value := ⟨check.cost⟩
        expiresAtMillis := nowMillis + check.policy.window.millis
        allowance := ⟨check.policy.limit, check.policy.limit.get - check.cost,
          ⟨clippedMillis check.policy.window.millis⟩, Nat.sub_le _ _⟩ }
  | some (entry, expiresAtMillis) =>
    if check.cost > check.policy.limit.get - entry.used then
      .deny ⟨check.policy.limit, ⟨clippedMillis (expiresAtMillis - nowMillis)⟩⟩
    else
      .allow
        { value := ⟨entry.used + check.cost⟩
          expiresAtMillis
          allowance := ⟨check.policy.limit, check.policy.limit.get - entry.used - check.cost,
            ⟨clippedMillis (expiresAtMillis - nowMillis)⟩,
            (Nat.sub_le _ _).trans (Nat.sub_le _ _)⟩ }

/-- The meter of the fixed-window store. -/
def windowMeter : Meter FixedWindowPolicy Entry where
  judge check nowMillis active := some (windowJudge check nowMillis active)
  current := by
    intro check nowMillis active grant hcur hjudge
    cases active with
    | none =>
      obtain rfl : _ = grant := by simpa [windowJudge] using hjudge
      have hpos := check.policy.window.pos
      have hle := check.policy.window.le_maxWindow
      exact ⟨by dsimp only; omega, by dsimp only; omega⟩
    | some active =>
      obtain ⟨entry, expiresAt⟩ := active
      simp only [windowJudge, Option.some.injEq] at hjudge
      split_ifs at hjudge
      obtain rfl : _ = grant := by simpa using hjudge
      exact hcur _ rfl

variable {shard : Shard Entry} {check : Check FixedWindowPolicy}

/-- The quota denial of a prepared check is the judgement's. -/
theorem quotaDenial_eq (inputIndex pos : Nat)
    (hcur : Current now (shard.activeEntry check.counterKey now)) :
    quotaDenial shard (.new inputIndex check pos) now =
      .ok (match windowJudge check now (shard.activeEntry check.counterKey now) with
        | .deny denial => some denial
        | .allow _ => none) := by
  simp only [quotaDenial, PreparedCheck.new]
  cases hact : shard.activeEntry check.counterKey now with
  | none => rfl
  | some active =>
    obtain ⟨entry, expiresAt⟩ := active
    have hfits := remaining_le_u64Max (hcur _ hact).2
    by_cases hcost : check.cost > check.policy.limit.get - entry.used
    · simp [windowJudge, remainingQuota, hcost, durationFromMillis_eq_ok hfits, bind,
        Except.bind, pure, Except.pure, QuotaDenial.new]
    · simp [windowJudge, remainingQuota, hcost]

/-- Consuming a prepared check writes what the judgement grants. -/
theorem consume_eq (inputIndex pos : Nat) (hcons : shard.Consistent)
    (hcur : Current now (shard.activeEntry check.counterKey now)) {grant : Grant Entry}
    (hjudge : windowJudge check now (shard.activeEntry check.counterKey now) = .allow grant) :
    consume shard (.new inputIndex check pos) now =
      .ok (grant.allowance,
        (shard.replace check.counterKey grant.value grant.expiresAtMillis).1) := by
  simp only [consume, PreparedCheck.new]
  cases hact : shard.activeEntry check.counterKey now with
  | none =>
    rw [hact] at hjudge
    obtain rfl : _ = grant := by simpa [windowJudge] using hjudge
    have hfits := check.policy.window.le_maxWindow.trans maxWindowMillis_le_u64Max
    simp [durationFromMillis_eq_ok hfits, remainingQuota,
      allowance_eq_ok (Nat.sub_le _ _), bind, Except.bind, pure, Except.pure]
  | some active =>
    obtain ⟨entry, expiresAt⟩ := active
    rw [hact] at hjudge
    simp only [windowJudge] at hjudge
    split_ifs at hjudge with hcost
    obtain rfl : _ = grant := by simpa using hjudge
    have hlook := (Shard.activeEntry_eq_some.mp hact).1
    have hfits := remaining_le_u64Max (hcur _ hact).2
    have hsum : saturatingAdd u64Max entry.used check.cost = entry.used + check.cost := by
      have hlimit := check.policy.limit.le_maxLimit
      have hcostPos := check.cost_pos
      have hbound : maxLimit ≤ u64Max := by decide
      exact min_eq_left (by omega)
    have hle : check.policy.limit.get - entry.used - check.cost ≤ check.policy.limit.get :=
      (Nat.sub_le _ _).trans (Nat.sub_le _ _)
    simp [hcons.updateValue_eq hlook, hsum, remainingQuota,
      durationFromMillis_eq_ok hfits, allowance_eq_ok hle, bind, Except.bind, pure, Except.pure]

/-- The decision taken in a pruned shard. -/
theorem decideLocked_carriedOut (check : Check FixedWindowPolicy) (hcons : shard.Consistent)
    (hexp : ∀ key entry, shard.entries.lookup key = some entry →
      entry.expiresAtMillis ≤ now + maxWindowMillis) :
    CarriedOut shard check
      (windowJudge check now (shard.activeEntry check.counterKey now))
      (decideLocked shard check now) := by
  have hcur : Current now (shard.activeEntry check.counterKey now) := by
    intro active hact
    obtain ⟨hlook, hlt⟩ := Shard.activeEntry_eq_some.mp hact
    exact ⟨hlt, hexp _ _ hlook⟩
  have hden := quotaDenial_eq 0 0 hcur
  unfold decideLocked
  cases hjudge : windowJudge check now (shard.activeEntry check.counterKey now) with
  | deny denial =>
    simp only [hden, hjudge]
    rfl
  | allow grant =>
    simp only [hden, hjudge]
    exact carriedOut_allow hcons hexp (consume_eq 0 0 hcons hcur hjudge)

end Meter

variable [Sha256] {config : MemoryStoreConfig} {store : MemoryStore config}

/-- A single check never panics and takes the step of the window meter. -/
theorem check_call (hinv : Invariant store.values)
    (check : Check FixedWindowPolicy) (reading : Duration) :
    ∃ result store', MemoryStore.check store check reading = .ok (result, store') ∧
      CheckCall windowMeter store check reading result.toOption store' := by
  set index := shardIndex config check.counterKey with hidx
  cases hpois : (store index).poisoned with
  | true =>
    refine ⟨.error ⟨index⟩, store, ?_, CheckCall.poisoned hpois⟩
    simp [MemoryStore.check, checkInner, BoundedShards.lockShard, ← hidx, hpois, bind,
      Except.bind, pure, Except.pure, Except.map]
  | false =>
    set now := max reading.asMillis (store.values index).latestObservedMillis with hnow
    have hclean : CleanedShard store.values now check.counterKey _ :=
      hinv.cleanedShard (le_max_right _ _)
    have hcarried := decideLocked_carriedOut check hclean.consistent hclean.expires_le
    rw [hclean.activeEntry_eq] at hcarried
    have hjudge : windowMeter.judge check now
        (activeAt store.values check.counterKey now) = some _ := rfl
    obtain ⟨decision, shard, hdecided, hstep⟩ := hclean.checkStep hjudge hcarried
    rw [← hidx] at hdecided
    refine ⟨.ok decision, store.withValues (Function.update store.values index shard), ?_,
      CheckCall.settled _ _ hpois hstep⟩
    simp [MemoryStore.check, checkInner, BoundedShards.lockShard, ← hidx, hpois, ← hnow,
      hdecided, bind, Except.bind, pure, Except.pure, Except.map]

variable {values cleaned : Values config Entry}
variable {locked : List (Fin config.shardCount)}
variable {all before checks : List (Check FixedWindowPolicy)} {prepared : List PreparedCheck}

section

variable (hall : all = before ++ checks) (hinv : Invariant values)
  (hbatch : LockedBatch values all now locked cleaned)
include hall hinv hbatch

/-- The first loop of a batch finds the refusal of its settlement. -/
theorem firstDenial_eq {mode : QuotaMode} (hmode : ∀ check ∈ all, check.quotaMode = mode)
    (hrouted : Routed .new locked before.length checks prepared) :
    ∃ refusal,
      firstDenial all cleaned locked now prepared
          (locked.map (pendingCount cleaned (before.map Check.counterKey))) = .ok refusal ∧
        Refuses mode all.length
          (settleBatch windowMeter values now (before.map Check.counterKey) checks)
          refusal := by
  induction checks generalizing before prepared with
  | nil =>
    cases hrouted
    exact ⟨none, rfl, rfl⟩
  | cons check rest ih =>
    cases hrouted with
    | @cons _ pos _ _ prepared hposition hrest =>
    have hin : check ∈ all := by simp [hall]
    have hnext : all = (before ++ [check]) ++ rest := by simp [hall]
    have hget : all[before.length]? = some check := by simp [hall]
    have hlt : before.length < all.length := by simp [hall]
    set index := shardIndex config check.counterKey with hidx
    have hact : (cleaned index).activeEntry check.counterKey now =
        activeAt values check.counterKey now :=
      hbatch.effect.activeAt_of_no_charge _ le_rfl
    have hcur : Current now
        ((cleaned index).activeEntry check.counterKey now) := by
      rw [hact]
      exact hinv.current (hbatch.latest_le check hin)
    have hden := quotaDenial_eq before.length pos hcur
    rw [hact] at hden
    have hrest' := ih hnext (by simpa using hrest)
    rw [List.map_append, List.map_singleton] at hrest'
    have hlen : (before.map Check.counterKey).length = before.length := List.length_map _
    cases hjudge : windowJudge check now
        (activeAt values check.counterKey now) with
    | deny denial =>
      rw [hjudge] at hden
      obtain ⟨decision, hdec⟩ := newQuotaDenied_ok hlt mode denial
      refine ⟨some decision, ?_, .cons_quotaDenied
        (settleMember_eq_quotaDenied.mpr (congrArg some hjudge)) (hlen ▸ hdec)⟩
      refine bind_eq_ok.mpr ⟨index, indexVec_eq_ok hposition, ?_⟩
      refine bind_eq_ok.mpr ⟨some denial, hden, ?_⟩
      refine bind_eq_ok.mpr ⟨check, indexVec_eq_ok hget, bind_eq_ok.mpr ⟨decision, ?_, rfl⟩⟩
      simp [PreparedCheck.new, hmode check hin, hdec]
    | allow grant =>
      rw [hjudge] at hden
      have hreserve := reserveInsertion_eq (hbatch.hasRoom_iff hall hinv) hbatch.locked_nodup
        hposition
      by_cases hroom : HasRoom values now (before.map Check.counterKey) check.counterKey
      · rw [if_pos hroom] at hreserve
        obtain ⟨refusal, hloop, hrefuses⟩ := hrest'
        refine ⟨refusal, ?_, .cons_granted
          (settleMember_eq_granted.mpr ⟨congrArg some hjudge, hroom⟩) hrefuses⟩
        refine bind_eq_ok.mpr ⟨index, indexVec_eq_ok hposition, ?_⟩
        refine bind_eq_ok.mpr ⟨none, hden, ?_⟩
        exact bind_eq_ok.mpr ⟨_, hreserve, hloop⟩
      · rw [if_neg hroom] at hreserve
        obtain ⟨retryAfter, hretry⟩ := storageCapacityDenial_eq_ok
          (hbatch.effect.consistent index)
          (hbatch.effect.expires_le hinv (hbatch.latest_le check hin))
        have hsettle : settleMember windowMeter values now
            (before.map Check.counterKey) check = some .noRoom :=
          settleMember_eq_noRoom.mpr ⟨⟨grant, congrArg some hjudge⟩, hroom⟩
        refine ⟨_, ?_, .cons_noRoom hsettle retryAfter (hlen ▸ hlt)⟩
        refine bind_eq_ok.mpr ⟨index, indexVec_eq_ok hposition, ?_⟩
        refine bind_eq_ok.mpr ⟨none, hden, bind_eq_ok.mpr ⟨none, hreserve, ?_⟩⟩
        refine bind_eq_ok.mpr ⟨_, hretry, ?_⟩
        simp [PreparedCheck.new, BatchDecision.newDenied_eq_ok hlt, bind, Except.bind, pure,
          Except.pure]

/-- The second loop of a granted batch writes its grants. -/
theorem consumeAll_eq {grants : List (Grant Entry)}
    {charged : List (CounterKey × StoredEntry Entry)} {current : Values config Entry}
    (hrouted : Routed .new locked before.length checks prepared)
    (hsettle : settleBatch windowMeter values now (before.map Check.counterKey) checks =
      some (.granted grants))
    (hcharged : charged.map Prod.fst = before.map Check.counterKey)
    (hconsuming : Consuming now (touchedBy config all) values cleaned charged current) :
    ∃ values', consumeAll locked now prepared current =
        .ok (grants.map Grant.allowance, values') ∧
      Consuming now (touchedBy config all) values cleaned (charged ++ batchCharges checks grants)
        values' := by
  induction checks generalizing before prepared grants charged current with
  | nil =>
    cases hrouted
    obtain rfl : grants = [] := by simpa [settleBatch, eq_comm] using hsettle
    exact ⟨current, rfl, by simpa [batchCharges] using hconsuming⟩
  | cons check rest ih =>
    cases hrouted with
    | @cons _ pos _ _ prepared hposition hrest =>
    obtain ⟨grant, grants, rfl, hmember, hsettle⟩ := settleBatch_cons_eq_granted.mp hsettle
    obtain ⟨hjudge, hroom⟩ := settleMember_eq_granted.mp hmember
    have hmem : check ∈ all := by simp [hall]
    set index := shardIndex config check.counterKey with hidx
    have hact := hconsuming.activeEntry_eq (hbatch.key_fresh hall hcharged)
    have hcur := hinv.current (hbatch.latest_le check hmem)
    rw [← hact] at hcur hjudge
    have hconsume := consume_eq before.length pos (hconsuming.effect.consistent index)
      hcur (Option.some.inj hjudge)
    have hnext := hbatch.consume hall hinv hcharged hroom hconsuming grant.entry
    have hallNext : all = (before ++ [check]) ++ rest := by simp [hall]
    obtain ⟨values', hloop, hdone⟩ := ih hallNext (by simpa using hrest)
      (by simpa using hsettle) (by simp [hcharged]) hnext
    refine ⟨values', ?_, by simpa [batchCharges] using hdone⟩
    refine bind_eq_ok.mpr ⟨index, indexVec_eq_ok hposition, ?_⟩
    refine bind_eq_ok.mpr ⟨_, hconsume, ?_⟩
    exact bind_eq_ok.mpr ⟨_, hloop, rfl⟩

end

/-- What a batch returns and leaves once its shards are locked. -/
theorem checkAllLocked_step {topo : BatchTopology config} (hinv : Invariant store.values)
    (hvalid : validateBatch checks config.maxBatchSize = .ok ())
    (hresolves : topo.Resolves (touchedBy config checks))
    (hrouted : Routed .new topo.indexes 0 checks prepared) (reading : Duration) :
    ∃ eval values',
      checkAllLocked store checks topo prepared topo.indexes reading =
        .ok (eval, store.withValues values') ∧
      BatchStep windowMeter store.values
        (clampedNow store.values (touchedBy config checks) reading.asMillis)
        checks eval.value values' := by
  obtain ⟨hne, -, hmodes, -⟩ := validateBatch_eq_ok_iff.mp hvalid
  obtain ⟨first, hfirst⟩ := List.exists_mem_of_ne_nil checks hne
  have hclamp : clampedNow store.values topo.indexes reading.asMillis =
      clampedNow store.values (touchedBy config checks) reading.asMillis :=
    clampedNow_congr hresolves.mem_indexes
  have hbatch := hresolves.lockedBatch hvalid hinv reading.asMillis
  rw [← hclamp] at hbatch ⊢
  set now := clampedNow store.values topo.indexes reading.asMillis with hnow
  set cleaned := cleanupLocked config now (topo.indexes.zip topo.checkCounts)
    store.values with hcleaned
  have hall : checks = [] ++ checks := rfl
  have hmode : ∀ check ∈ checks, check.quotaMode = first.quotaMode :=
    fun check hcheck => hmodes check hcheck first hfirst
  obtain ⟨refusal, hloop, hrefuses⟩ := firstDenial_eq hall hinv hbatch hmode hrouted
  rw [List.map_nil, ← hbatch.pending_zero] at hloop
  rw [List.map_nil] at hrefuses
  cases refusal with
  | some decision =>
    exact ⟨_, _, bind_eq_ok.mpr ⟨_, hloop, rfl⟩, hrefuses.batchStep hmode hbatch.effect⟩
  | none =>
    obtain ⟨grants, hsettle⟩ := hrefuses.granted
    obtain ⟨values', hconsume, hconsuming⟩ := consumeAll_eq hall hinv hbatch hrouted hsettle
      rfl (.start hbatch.effect)
    have hgrants := allowances_ne_nil hsettle hne
    refine ⟨⟨.allowed _ hgrants, collectShardEffects values' topo.indexes cleaned.2⟩,
      values', bind_eq_ok.mpr ⟨_, hloop, bind_eq_ok.mpr ⟨_, hconsume, ?_⟩⟩,
      .allowed grants values' hsettle hgrants hconsuming.effect⟩
    refine bind_eq_ok.mpr ⟨_, ?_, rfl⟩
    rw [BatchDecision.newAllowed_eq_ok hgrants]
    rfl

/-- A batch never panics and takes the step of the window meter. -/
theorem checkAll_call (hinv : Invariant store.values)
    (checks : List (Check FixedWindowPolicy)) (reading : Duration) :
    ∃ result store', MemoryStore.checkAll store checks reading = .ok (result, store') ∧
      BatchCall windowMeter store checks reading result.toOption store' := by
  suffices hinner : ∃ result store', checkAllInner store checks reading = .ok (result, store') ∧
      BatchCall windowMeter store checks reading (result.toOption.map Evaluation.value) store' by
    obtain ⟨result, store', hcall, hbatch⟩ := hinner
    refine ⟨result.map Evaluation.value, store', bind_eq_ok.mpr ⟨_, hcall, rfl⟩, ?_⟩
    cases result <;> exact hbatch
  rcases withLockedBatch_cases PreparedCheck.new id store checks _ with
    ⟨hrejected, error, hcall⟩ | ⟨hready, topo, prepared, hresolves, hrouted, hcall⟩
  · exact ⟨_, store, hcall, BatchCall.rejected hrejected⟩
  · obtain ⟨eval, values', hrun, hstep⟩ :=
      checkAllLocked_step hinv hready.valid hresolves hrouted reading
    exact ⟨.ok eval, store.withValues values', hcall.trans (bind_eq_ok.mpr ⟨_, hrun, rfl⟩),
      BatchCall.settled _ _ hready (fun _ _ h => by cases h) hstep⟩

end Batter.Runlimit.MemoryStore
